import Bang.Proofs.Calls
import Bang.Proofs.Contract

/-! Which names statements bind. A statement binds only names that stand directly before a `=` among its own tokens,
whatever it holds and however it ends: every part that it runs on its own scope is a piece of its tokens, and the
bodies of calls, which are not, run on scopes of their own. -/

namespace Bang

open Machine Run Statement

theorem Assoc.keys_prefix_insert {α : Type} (m : Assoc α) (key : String) (a : α) :
    m.keys <+: (m.insert key a).keys := by
  rw [keys_insert]
  split
  · exact List.prefix_rfl
  · exact List.prefix_append _ _

/-- Somewhere among the tokens the name stands directly before a `=`. -/
def Assigns (tokens : List Token) (name : String) : Prop :=
  ∃ line line', [⟨.identifier, name, line⟩, ⟨.operator, "=", line'⟩] <:+: tokens

inductive Binding.Grows : Option Binding → Option Binding → Prop
  | same (entry : Option Binding) : Grows entry entry
  | functions {ns later : Namespace} : ns.keys <+: later.keys → Grows (some (.functions ns)) (some (.functions later))

theorem Binding.Grows.trans {entry next last : Option Binding} (h : Grows entry next) (h' : Grows next last) :
    Grows entry last := by
  cases h with
  | same => exact h'
  | functions hkeys =>
    cases h' with
    | same => exact .functions hkeys
    | functions hkeys' => exact .functions (hkeys.trans hkeys')

/-- What a scope becomes when only some names are bound: no entry is removed, and the others stay as
they are. Only in the extended dialect may the functions change without being bound. -/
structure Scope.BindsOnly (d : Dialect) (names : String → Prop) (s t : Scope) : Prop where
  keys : s.table.keys <+: t.table.keys
  entries : ∀ name, ¬ names name → name ≠ functionsName ∨ d = .basic → t.get? name = s.get? name
  functions : ¬ names functionsName → Binding.Grows (s.get? functionsName) (t.get? functionsName)

namespace Scope.BindsOnly

variable {d : Dialect} {names : String → Prop} {s t u : Scope}

theorem refl (s : Scope) : s.BindsOnly d names s := ⟨List.prefix_rfl, fun _ _ _ => rfl, fun _ => .same _⟩

theorem trans (h : s.BindsOnly d names t) (h' : t.BindsOnly d names u) : s.BindsOnly d names u where
  keys := h.keys.trans h'.keys
  entries name hname hplain := (h'.entries name hname hplain).trans (h.entries name hname hplain)
  functions hname := (h.functions hname).trans (h'.functions hname)

theorem bind {name : String} (h : names name) (v : Value) : s.BindsOnly d names (s.bind name v) := by
  have hother (other : String) (hother : ¬ names other) : (s.bind name v).get? other = s.get? other := by
    apply get?_bind_of_ne
    rintro rfl
    exact hother h
  refine ⟨s.table.keys_prefix_insert name _, fun other hunbound _ => hother other hunbound, fun hunbound => ?_⟩
  rw [hother functionsName hunbound]
  exact .same _

theorem withFunctions {ns later : Namespace} (h : s.get? functionsName = some (.functions ns))
    (hkeys : ns.keys <+: later.keys) : s.BindsOnly .extended names (s.withFunctions later) := by
  refine ⟨s.table.keys_prefix_insert functionsName _, fun name _ hplain => ?_, fun _ => ?_⟩
  · have hname : name ≠ functionsName := hplain.resolve_right (by decide)
    exact get?_withFunctions_of_ne s later hname
  · have hget : (s.withFunctions later).get? functionsName = some (.functions later) :=
      s.table.get?_insert_self functionsName _
    rw [h, hget]
    exact .functions hkeys

theorem of_spares {ns : Namespace} (h : s.get? functionsName = some (.functions ns)) (hspares : s.Spares t) :
    s.BindsOnly .extended names t := by
  refine ⟨?_, fun name _ hplain => ?_, fun _ => ?_⟩
  · rewrite [hspares.keys]
    exact List.prefix_rfl
  · exact hspares.entries name (hplain.resolve_right (by decide))
  · obtain ⟨later, hlater, hkeys⟩ := hspares.functions ns h
    rw [h, hlater]
    exact .functions hkeys

end Scope.BindsOnly

def bindingOnly (d : Dialect) (names : String → Prop) : Contract where
  Step s t := s.scope.BindsOnly d names t.scope
  Stops _ := True
  refl s := .refl s.scope
  trans h h' := h.trans h'

namespace bindingOnly

variable {d : Dialect} {names : String → Prop}

theorem meets {α : Type} {x : Run α} (h : ∀ s : State, s.scope.BindsOnly d names (x.run s).2.scope) :
    x.Meets (bindingOnly d names) := fun s => ⟨h s, fun _ _ => True.intro⟩

theorem store {name : String} (hname : names name) (line : Int) (v : Value) :
    (store d line name v : Run Unit).Meets (bindingOnly d names) := by
  refine meets fun s => ?_
  cases hrefused : refusal? d line name v s with
  | none =>
    rw [run_store_of_none hrefused]
    exact .bind hname v
  | some fault =>
    rw [run_store_of_some hrefused]
    exact .refl s.scope

theorem define (name : String) (f : Function) : (define name f : Run Unit).Meets (bindingOnly .extended names) := by
  refine meets fun s => ?_
  unfold Statement.define
  rw [run_bind_ok run_lookup?]
  split
  · exact .refl s.scope
  · exact .refl s.scope
  · rename_i ns hfunctions
    exact .withFunctions hfunctions (ns.keys_prefix_insert name _)

theorem call (rounds depth : Nat) (tokens : List Token) :
    (call (exec .extended rounds depth) tokens : Run Unit).Meets (bindingOnly .extended names) := by
  refine meets fun s => ?_
  cases hfunctions : s.scope.functions? with
  | some ns =>
    have hget := Scope.get?_of_functions? hfunctions
    exact .of_spares hget (Sparing.call (retention.block .extended rounds depth) tokens s ⟨ns, hget⟩)
  | none =>
    cases tokens with
    | nil => exact .refl s.scope
    | cons first rest =>
      obtain ⟨fault, hrun⟩ := run_checkFunction_of_none hfunctions first.text
      have hcall : (Statement.call (exec .extended rounds depth) (first :: rest) : Run Unit).run s =
          (.error fault, s) :=
        run_bind_error hrun
      rw [hcall]
      exact .refl s.scope

theorem leaves (d : Dialect) (whole : List Token) :
    (bindingOnly d (Assigns whole)).Leaves d (· <:+: whole) where
  part h hpart := hpart.trans h
  stops _ := True.intro
  note _ s := .refl s.scope
  log _ s := .refl s.scope
  store h v := store ⟨_, _, h⟩ _ v
  define hd name f := by
    subst hd
    exact define name f

theorem exec (d : Dialect) (rounds depth : Nat) {whole tokens : List Token} (h : tokens <:+: whole) :
    (exec d rounds depth tokens : Run Unit).Meets (bindingOnly d (Assigns whole)) := by
  refine Contract.exec (leaves d whole) (fun hd depth _ => ?_) depth h
  subst hd
  exact call rounds depth

end bindingOnly

namespace Statement

theorem bindsOnly_of_run (d : Dialect) (rounds depth : Nat) (tokens : List Token) (s : State) :
    s.scope.BindsOnly d (Assigns tokens) ((exec d rounds depth tokens : Run Unit).run s).2.scope ∧
      s.scope.BindsOnly d (Assigns tokens) ((block (exec d rounds depth) tokens : Run Unit).run s).2.scope := by
  have hstatement : ∀ part, part <:+: tokens →
      (exec d rounds depth part : Run Unit).Meets (bindingOnly d (Assigns tokens)) :=
    fun _ => bindingOnly.exec d rounds depth
  have hblock := Contract.block (bindingOnly.leaves d tokens) hstatement List.infix_rfl
  exact ⟨(hstatement tokens List.infix_rfl s).1, (hblock s).1⟩

/-- In every host, however a statement or a block ends that keeps to the language, no entry of the
table is removed, and each name that none of its tokens binds keeps its entry; in the extended
dialect functions may be added to the table of functions or replaced there. -/
theorem binds_only_assigned (h : Host) (d : Dialect) (rounds depth : Nat) (tokens : List Token) (s : State) :
    (Hosted.Contained d h (exec d rounds depth tokens) s →
      s.scope.BindsOnly d (Assigns tokens) ((exec d rounds depth tokens : Hosted d h Unit).run s).2.scope) ∧
    (Hosted.Contained d h (block (exec d rounds depth) tokens) s →
      s.scope.BindsOnly d (Assigns tokens) ((block (exec d rounds depth) tokens : Hosted d h Unit).run s).2.scope) := by
  obtain ⟨hstatement, hblock⟩ := bindsOnly_of_run d rounds depth tokens s
  constructor
  · intro hcontained
    rw [(hosting.exec d h rounds depth tokens).run_eq hcontained]
    exact hstatement
  · intro hcontained
    rw [(hosting.block d h rounds depth tokens).run_eq hcontained]
    exact hblock

def assigningBlock : List Token := (Token.tokenize .basic "\x7b x=2! if (x>1) \x7b y=x! \x7d ! \x7d").toOption.getD []

theorem binds_only_assigned_of_block :
    ((exec .basic 0 5 assigningBlock : Hosted .basic .standard Unit).run {}).2.scope.table.keys = ["x", "y"] ∧
      Scope.BindsOnly .basic (Assigns assigningBlock) {}
        ((exec .basic 0 5 assigningBlock : Hosted .basic .standard Unit).run {}).2.scope ∧
      Scope.BindsOnly .basic (Assigns assigningBlock) {}
        ((block (exec .basic 0 5) assigningBlock : Hosted .basic .standard Unit).run {}).2.scope := by
  have hok : ((exec .basic 0 5 assigningBlock : Hosted .basic .standard Unit).run {}).2.scope.table.keys = ["x", "y"] ∧
      ((exec .basic 0 5 assigningBlock : Run Unit).run {}).1.isOk ∧
        ((block (exec .basic 0 5) assigningBlock : Run Unit).run {}).1.isOk := by
    decide +kernel
  obtain ⟨hkeys, hstatement, hblock⟩ := hok
  obtain ⟨hexec, hwhole⟩ := binds_only_assigned .standard .basic 0 5 assigningBlock {}
  exact ⟨hkeys, hexec (.standard (Hosted.ne_beyond_of_isOk hstatement)),
    hwhole (.standard (Hosted.ne_beyond_of_isOk hblock))⟩

/-- An expression can bind a name that the tokens do not have. -/
theorem expression_binds_name :
    let tokens := [⟨.identifier, "x", 1⟩, ⟨.operator, "=", 1⟩] ++
      Reach.tokens ("==" ++ Reach.Place.table.text ++ ".update(z=5)")
    ((exec .basic 0 5 tokens : Hosted .basic .standard Unit).run {}).2.scope.table.keys = ["z", "x"] ∧
      tokens.all (·.text != "z") := by
  decide +kernel

end Statement

end Bang
