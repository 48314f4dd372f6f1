import Bang.Proofs.Alike
import Bang.Proofs.Hosting

/-! What a call does to the table of its caller. The callee works on a copy, with which the caller shares
only its functions, so that however the call ends, the caller finds every entry as it was, and functions
only added or replaced. -/

namespace Bang

open Machine Run Statement

theorem Binding.ofValue_of_type {v : Value} {type : ValueType} (h : v.type? = some type) (name : String) :
    Binding.ofValue name v = .value v := by
  cases v with
  | record fields => cases h
  | _ => rfl

/-! ### Functions are never removed -/

namespace Scope

variable {s t u : Scope} {name : String} {ns : Namespace}

theorem functions?_of_get? (h : s.get? functionsName = some (.functions ns)) : s.functions? = some ns := by
  rw [functions?, h]

theorem get?_of_functions? (h : s.functions? = some ns) : s.get? functionsName = some (.functions ns) := by
  unfold functions? at h
  split at h
  · rename_i ns' hget
    obtain rfl : ns' = ns := Option.some.inj h
    exact hget
  · cases h

theorem functions?_congr (h : t.get? functionsName = s.get? functionsName) : t.functions? = s.functions? := by
  rw [functions?, h, functions?]

theorem functions?_withFunctions (s : Scope) (ns : Namespace) : (s.withFunctions ns).functions? = some ns :=
  functions?_of_get? (s.table.get?_insert_self functionsName _)

theorem shared?_bind (v : Value) (h : s.shared? = some ns) : (s.bind name v).shared? = some ns := by
  by_cases hname : name = functionsName
  · have hlent : (s.bind name v).lent = some ns := by simp [bind, hname, h]
    rw [shared?, hlent, Option.some_or]
  · have hlent : (s.bind name v).lent = s.lent := by simp [bind, hname]
    rw [shared?, hlent, functions?_congr (get?_bind_of_ne s (Ne.symm hname) v)]
    exact h

theorem shared?_enter (arguments : List (String × Value)) (h : s.functions? = some ns) :
    (s.enter arguments).shared? = some ns := by
  have hbound (arguments : List (String × Value)) (t : Scope) (ht : t.shared? = some ns) :
      (arguments.foldl (fun scope argument => scope.bind argument.1 argument.2) t).shared? = some ns := by
    induction arguments generalizing t with
    | nil => exact ht
    | cons argument rest ih => exact ih _ (shared?_bind argument.2 ht)
  exact hbound arguments _ h

end Scope

/-- Of the functions that a scope shares with its caller, none is removed. -/
def Scope.Retains (s t : Scope) : Prop :=
  ∀ ns : Namespace, s.shared? = some ns → ∃ later : Namespace, t.shared? = some later ∧ ns.keys <+: later.keys

theorem Scope.Retains.refl (s : Scope) : s.Retains s := fun ns hns => ⟨ns, hns, List.prefix_rfl⟩

theorem Scope.Retains.trans {s t u : Scope} (h : s.Retains t) (h' : t.Retains u) : s.Retains u := by
  intro ns hns
  obtain ⟨later, hlater, hkeys⟩ := h ns hns
  obtain ⟨last, hlast, hkeys'⟩ := h' later hlater
  exact ⟨last, hlast, hkeys.trans hkeys'⟩

/-- A later state of a scope's own functions takes nothing from the functions it shares, which are
others if its caller has lent it some. -/
theorem Scope.retains_withFunctions {s : Scope} {later : Namespace}
    (hown : ∀ own : Namespace, s.functions? = some own → own.keys <+: later.keys) :
    s.Retains (s.withFunctions later) := by
  have hshared : (s.withFunctions later).shared? = s.lent.or (some later) := by
    rw [shared?, functions?_withFunctions]
    rfl
  intro ns hns
  rw [hshared]
  cases hlent : s.lent with
  | some lent =>
    rw [shared?, hlent, Option.some_or] at hns
    exact ⟨lent, rfl, Option.some.inj hns ▸ List.prefix_rfl⟩
  | none =>
    rw [shared?, hlent, Option.none_or] at hns
    exact ⟨later, rfl, hown ns hns⟩

def Run.Retains {α : Type} (x : Run α) : Prop := ∀ s : State, s.scope.Retains (x.run s).2.scope

namespace Run.Retains

variable {α β : Type}

theorem of_scope {x : Run α} (h : ∀ s, (x.run s).2.scope = s.scope) : x.Retains := by
  intro s
  rw [h]
  exact .refl s.scope

theorem seq {x : Run α} {f : α → Run β} (hx : x.Retains) (hf : ∀ a, (f a).Retains) : (x >>= f).Retains :=
  fun s => run_bind_trans (R := fun s t => s.scope.Retains t.scope) Scope.Retains.trans (hx s) hf

theorem store (d : Dialect) (line : Int) (name : String) (v : Value) : (store d line name v : Run Unit).Retains := by
  intro s
  cases hrefused : refusal? d line name v s with
  | none =>
    rw [run_store_of_none hrefused]
    exact fun ns hns => ⟨ns, Scope.shared?_bind v hns, List.prefix_rfl⟩
  | some fault =>
    rw [run_store_of_some hrefused]
    exact .refl s.scope

theorem define (name : String) (f : Function) : (define name f : Run Unit).Retains := by
  intro s
  unfold Statement.define
  rw [run_bind_ok run_lookup?]
  split
  · exact .refl s.scope
  · exact .refl s.scope
  · rename_i own hown
    refine Scope.retains_withFunctions fun ns' hns' => ?_
    rw [Scope.functions?_of_get? hown] at hns'
    obtain rfl : own = ns' := Option.some.inj hns'
    rw [Assoc.keys_insert]
    split
    · exact List.prefix_rfl
    · exact List.prefix_append _ _

theorem finishCall (name : String) : (finishCall name : Run Unit).Retains := by
  refine of_scope fun s => ?_
  unfold Statement.finishCall
  rw [run_bind_ok (run_state s)]
  split <;> rfl

theorem inCall (arguments : List (String × Value)) {x : Run Unit} (hx : x.Retains) :
    (inCall arguments x : Run Unit).Retains := by
  intro s
  rw [run_inCall]
  change s.scope.Retains (s.scope.leave (x.run (s.enter arguments)).2.scope)
  unfold Scope.leave
  split
  · rename_i later hlater
    refine Scope.retains_withFunctions fun own hown => ?_
    obtain ⟨last, hlast, hkeys⟩ := hx (s.enter arguments) own (Scope.shared?_enter arguments hown)
    obtain rfl : later = last := Option.some.inj (hlater.symm.trans hlast)
    exact hkeys
  · exact .refl s.scope

end Run.Retains

def retention : Simulation Run Run where
  Rel x _ := x.Retains
  ret _ := Run.Retains.of_scope fun _ => rfl
  seq hx hf := hx.seq hf
  stop _ _ := Run.Retains.of_scope fun _ => rfl

namespace retention

theorem lookup (name : String) : (lookup? name : Run (Option Binding)).Retains := .of_scope fun _ => rfl

theorem leaves (d : Dialect) : retention.Leaves d d (fun _ => True) where
  lookup t _ := lookup t.text
  note _ _ := Run.Retains.of_scope fun _ => rfl
  beyond _ := Run.Retains.of_scope fun _ => rfl
  log _ := Run.Retains.of_scope fun _ => rfl
  store t _ v := Run.Retains.store d t.line t.text v

theorem callLeaves : retention.CallLeaves (fun _ => True) where
  define name f _ := Run.Retains.define name f
  check := Simulation.checkFunction (lookup functionsName)
  function name _ _ hfg :=
    Run.Retains.seq (Simulation.functionOf (S := retention) (lookup functionsName) name) fun callee =>
      hfg callee (All.trivial callee.body)
  finishCall := Run.Retains.finishCall
  inCall arguments _ _ hx := Run.Retains.inCall arguments hx

theorem exec (d : Dialect) (rounds depth : Nat) (tokens : List Token) :
    (exec d rounds depth tokens : Run Unit).Retains :=
  Simulation.exec (leaves d) callLeaves (.inl rfl) (.inl rfl) (All.trivial tokens)

theorem block (d : Dialect) (rounds depth : Nat) (tokens : List Token) :
    (block (Statement.exec d rounds depth) tokens : Run Unit).Retains := by
  have hblock : retention.Rel (Statement.block (Statement.exec d rounds depth) tokens)
      (Statement.block (Statement.exec d rounds depth) tokens) :=
    Simulation.block (fun tokens _ => exec d rounds depth tokens) (All.trivial tokens)
  exact hblock

end retention

/-! ### The caller's table -/

structure Scope.Spares (caller after : Scope) : Prop where
  keys : after.table.keys = caller.table.keys
  entries : ∀ name, name ≠ functionsName → after.get? name = caller.get? name
  functions : ∀ ns, caller.get? functionsName = some (.functions ns) →
    ∃ later, after.get? functionsName = some (.functions later) ∧ ns.keys <+: later.keys
  value : ∀ v, caller.get? functionsName = some (.value v) → after.get? functionsName = some (.value v)
  lent : after.lent = caller.lent

namespace Scope.Spares

variable {s t u : Scope}

theorem refl (s : Scope) : s.Spares s where
  keys := rfl
  entries _ _ := rfl
  functions ns h := ⟨ns, h, List.prefix_rfl⟩
  value _ h := h
  lent := rfl

theorem trans (h : s.Spares t) (h' : t.Spares u) : s.Spares u where
  keys := h'.keys.trans h.keys
  entries name hname := (h'.entries name hname).trans (h.entries name hname)
  functions ns hns := by
    obtain ⟨later, hlater, hkeys⟩ := h.functions ns hns
    obtain ⟨last, hlast, hkeys'⟩ := h'.functions later hlater
    exact ⟨last, hlast, hkeys.trans hkeys'⟩
  value v hv := h'.value v (h.value v hv)
  lent := h'.lent.trans h.lent

theorem leave {callee : Scope} {ns later : Namespace} (h : s.get? functionsName = some (.functions ns))
    (hlater : callee.shared? = some later) (hkeys : ns.keys <+: later.keys) : s.Spares (s.leave callee) := by
  have hleave : s.leave callee = s.withFunctions later := by rw [Scope.leave, hlater]
  rw [hleave]
  refine ⟨?_, fun name hname => get?_withFunctions_of_ne s later hname, fun ns' hns' => ?_, fun v hv => ?_, rfl⟩
  · have hmem : functionsName ∈ s.table.keys := Assoc.mem_keys.mpr (Option.isSome_of_eq_some h)
    change (s.table.insert functionsName (.functions later)).keys = s.table.keys
    rw [Assoc.keys_insert, if_pos hmem]
  · rw [h] at hns'
    obtain rfl : ns = ns' := Binding.functions.inj (Option.some.inj hns')
    exact ⟨later, s.table.get?_insert_self functionsName _, hkeys⟩
  · rw [h] at hv
    cases hv

end Scope.Spares

def Run.Sparing {α : Type} (x : Run α) : Prop :=
  ∀ s : State, (∃ ns, s.scope.get? functionsName = some (.functions ns)) → s.scope.Spares (x.run s).2.scope

namespace Run.Sparing

variable {α β : Type}

theorem seq {x : Run α} {f : α → Run β} (hx : x.Sparing) (hf : ∀ a, (f a).Sparing) : (x >>= f).Sparing := by
  refine fun s => run_bind_trans (R := fun s t => (∃ ns, s.scope.get? functionsName = some (.functions ns)) →
    s.scope.Spares t.scope) (fun h h' hs => ?_) (hx s) hf
  obtain ⟨ns, hns⟩ := hs
  obtain ⟨later, hlater, _⟩ := (h ⟨ns, hns⟩).functions ns hns
  exact (h ⟨ns, hns⟩).trans (h' ⟨later, hlater⟩)

theorem of_quiet {x : Run α} (hx : x.Quiet) : x.Sparing := by
  intro s _
  rw [(hx s).scope]
  exact .refl s.scope

theorem stop (fault : Fault) : (fail fault : Run α).Sparing := of_quiet (.stop fault)

theorem inCall (arguments : List (String × Value)) {x : Run Unit} (hx : x.Retains) :
    (inCall arguments x : Run Unit).Sparing := by
  rintro s ⟨ns, hs⟩
  obtain ⟨later, hlater, hkeys⟩ :=
    hx (s.enter arguments) ns (Scope.shared?_enter arguments (Scope.functions?_of_get? hs))
  rw [run_inCall]
  exact .leave hs hlater hkeys

theorem finishCall (name : String) : (finishCall name : Run Unit).Sparing := by
  intro s _
  unfold Statement.finishCall
  rw [run_bind_ok (run_state s)]
  split <;> exact .refl s.scope

end Run.Sparing

theorem Run.Quiet.of_snd {α : Type} {x : Run α} (h : ∀ s, (x.run s).2 = s) : x.Quiet := by
  intro s
  rw [h s]
  exact .refl s

theorem run_checkFunction_of_none {s : State} (h : s.scope.functions? = none) (name : String) :
    ∃ fault, (checkFunction name : Run Unit).run s = (.error fault, s) := by
  unfold checkFunction
  rw [run_bind_ok run_lookup?]
  split
  · exact ⟨_, rfl⟩
  · rename_i ns hget
    rw [Scope.functions?_of_get? hget] at h
    cases h
  · split
    · split <;> exact ⟨_, rfl⟩
    · split <;> exact ⟨_, rfl⟩
    · split <;> exact ⟨_, rfl⟩
    · exact ⟨_, rfl⟩

theorem Run.Sparing.call {inner : List Token → Run Unit} (hinner : ∀ body, (block inner body : Run Unit).Retains)
    (tokens : List Token) : (call inner tokens : Run Unit).Sparing := by
  unfold Statement.call
  split
  · exact stop _
  · refine seq (of_quiet (.of_snd (snd_run_checkFunction _))) fun _ => ?_
    split
    · exact stop _
    · exact stop _
    · refine seq (of_quiet (.arguments _)) fun values => seq (of_quiet (.of_snd (snd_run_functionOf _))) fun f => ?_
      split
      · exact stop _
      · exact seq (of_quiet (.note rfl)) fun _ => seq (inCall _ (hinner _)) fun _ => finishCall _

theorem spares_of_call (d : Dialect) (rounds depth : Nat) (tokens : List Token) (s : State) :
    s.scope.Spares ((call (exec d rounds depth) tokens : Run Unit).run s).2.scope := by
  cases hfunctions : s.scope.functions? with
  | some ns =>
    exact Run.Sparing.call (retention.block d rounds depth) tokens s ⟨ns, Scope.get?_of_functions? hfunctions⟩
  | none =>
    cases tokens with
    | nil => exact .refl s.scope
    | cons first rest =>
      obtain ⟨fault, hrun⟩ := run_checkFunction_of_none hfunctions first.text
      have hcall : (call (exec d rounds depth) (first :: rest) : Run Unit).run s = (.error fault, s) :=
        run_bind_error hrun
      rw [hcall]
      exact .refl s.scope

/-- In every host, a call that keeps to the language spares its caller's scope, however it ends. -/
theorem call_spares (h : Host) (d : Dialect) (rounds depth : Nat) (tokens : List Token) (s : State)
    (hcontained : Hosted.Contained d h (call (exec d rounds depth) tokens) s) :
    s.scope.Spares ((call (exec d rounds depth) tokens : Hosted d h Unit).run s).2.scope := by
  rw [(hosting.call d h rounds depth tokens).run_eq hcontained]
  exact spares_of_call d rounds depth tokens s

section Shadowing

def shadowing : State :=
  (Program.run .extended ⟨6, 6⟩ "INICIO x=1! func f(x)\x7b y=x! func g()\x7b\x7d ! \x7d FIN" {}).2

def callOf (inside : List Token) : List Token :=
  [⟨.identifier, "f", 1⟩, ⟨.symbol, "(", 1⟩] ++ inside ++ [⟨.symbol, ")", 1⟩]

theorem call_spares_of_shadowing :
    ((call (exec .extended 0 5) (callOf [⟨.number, "2", 1⟩]) : Hosted .extended .standard Unit).run shadowing).1.isOk ∧
      shadowing.scope.Spares
        ((call (exec .extended 0 5)
          (callOf [⟨.number, "2", 1⟩]) : Hosted .extended .standard Unit).run shadowing).2.scope := by
  have hok : ((call (exec .extended 0 5) (callOf [⟨.number, "2", 1⟩]) : Run Unit).run shadowing).1.isOk ∧
      ((call (exec .extended 0 5)
        (callOf [⟨.number, "2", 1⟩]) : Hosted .extended .standard Unit).run shadowing).1.isOk := by
    decide +kernel
  exact ⟨hok.2, call_spares .standard .extended 0 5 _ shadowing (.standard (Hosted.ne_beyond_of_isOk hok.1))⟩

/-- An argument can write into the table of the caller. -/
theorem argument_binds_variable :
    let tokens := callOf (Reach.tokens ("==" ++ Reach.Place.table.text ++ ".update(x=5)"))
    (shadowing.scope.get? "x").bind (·.toValue.display) = some ['1'] ∧
      (((call (exec .extended 0 5) tokens : Hosted .extended .standard Unit).run shadowing).2.scope.get? "x").bind
        (·.toValue.display) = some ['5'] := by
  decide +kernel

end Shadowing

end Bang
