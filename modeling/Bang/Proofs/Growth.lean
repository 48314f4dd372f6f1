import Bang.Proofs.Leftover
import Bang.Proofs.Targets
import Bang.Proofs.Usage

/-! Nothing is lost in the extended dialect. However a statement ends, the lines, the types, the uses of variables and
functions and the table keep what they had, in its order, and only get longer. So do the functions, but the name under
which the table has them can be bound to something else, if a type was once recorded for it. -/

namespace Bang

open Machine Run Statement

theorem Scope.keys_prefix_enter (caller : Scope) (arguments : List (String × Value)) :
    caller.table.keys <+: (caller.enter arguments).table.keys := by
  have hbound (arguments : List (String × Value)) (scope : Scope) : scope.table.keys <+:
      (arguments.foldl (fun scope argument => scope.bind argument.1 argument.2) scope).table.keys := by
    induction arguments generalizing scope with
    | nil => exact List.prefix_rfl
    | cons argument rest ih =>
      exact (scope.table.keys_prefix_insert argument.1 _).trans (ih (scope.bind argument.1 argument.2))
  exact hbound arguments { table := caller.table }

theorem Scope.keys_prefix_leave (caller callee : Scope) : caller.table.keys <+: (caller.leave callee).table.keys := by
  unfold leave
  split
  · exact caller.table.keys_prefix_insert functionsName _
  · exact List.prefix_rfl

theorem Scope.mem_keys_of_functions? {scope : Scope} {ns : Namespace} (h : scope.functions? = some ns) :
    functionsName ∈ scope.table.keys :=
  Assoc.mem_keys.mpr (Option.isSome_of_eq_some (get?_of_functions? h))

/-! ### What the journal tells -/

namespace Journal

theorem keys_types_cons (e : Event) (j : Journal) : j.types.keys <+: (types (e :: j)).keys := by
  change (types j).keys <+: (stepTypes e (types j)).keys
  cases e with
  | created name v =>
    cases htype : v.type? with
    | none => simp [stepTypes, htype]
    | some type =>
      simp only [stepTypes, htype, Option.elim_some]
      exact Assoc.keys_prefix_insert _ name type
  | typed name type => exact Assoc.keys_prefix_insert _ name type
  | _ => exact List.prefix_rfl

theorem keys_types_of_suffix {j later : Journal} (h : j <:+ later) : j.types.keys <+: later.types.keys := by
  obtain ⟨events, rfl⟩ := h
  induction events with
  | nil => exact List.prefix_rfl
  | cons e rest ih => exact ih.trans (keys_types_cons e (rest ++ j))

end Journal

/-- What a session keeps from one program to the next has lost nothing, and nothing in it has
changed its place. -/
structure State.Keeps (s t : State) : Prop where
  logs : s.logs <+: t.logs
  types : s.journal.types.keys <+: t.journal.types.keys
  variableUses : (Mark.uses s.journal.variableMarks).keys <+: (Mark.uses t.journal.variableMarks).keys
  functionUses : (Mark.uses s.journal.functionMarks).keys <+: (Mark.uses t.journal.functionMarks).keys

theorem State.keeps_of_suffix {s t : State} (hlogs : s.logs <+: t.logs) (hjournal : s.journal <:+ t.journal) :
    s.Keeps t := by
  refine ⟨hlogs, Journal.keys_types_of_suffix hjournal, ?_, ?_⟩
  all_goals obtain ⟨events, hevents⟩ := hjournal
  · rw [← hevents, Journal.variableMarks_append, Mark.keys_uses_append]
    exact List.prefix_append _ _
  · rw [← hevents, Journal.functionMarks_append, Mark.keys_uses_append]
    exact List.prefix_append _ _

/-! ### What every step keeps -/

structure State.Grows (s t : State) : Prop where
  logs : s.logs <+: t.logs
  journal : s.journal <:+ t.journal
  keys : s.scope.table.keys <+: t.scope.table.keys
  retains : s.scope.Retains t.scope
  functionsType : functionsName ∈ s.scope.table.keys →
    t.journal.typeOf? functionsName = s.journal.typeOf? functionsName
  functions : s.journal.typeOf? functionsName = none → ∀ ns, s.scope.functions? = some ns →
    ∃ later, t.scope.functions? = some later ∧ ns.keys <+: later.keys

namespace State.Grows

variable {s t u : State}

theorem of_scope (hscope : t.scope = s.scope) (hlogs : s.logs <+: t.logs) (hjournal : s.journal <:+ t.journal)
    (htype : t.journal.typeOf? functionsName = s.journal.typeOf? functionsName) : s.Grows t where
  logs := hlogs
  journal := hjournal
  keys := hscope ▸ List.prefix_rfl
  retains := hscope ▸ .refl s.scope
  functionsType _ := htype
  functions _ ns hns := ⟨ns, hscope ▸ hns, List.prefix_rfl⟩

theorem refl (s : State) : s.Grows s := of_scope rfl List.prefix_rfl List.suffix_rfl rfl

theorem trans (h : s.Grows t) (h' : t.Grows u) : s.Grows u where
  logs := h.logs.trans h'.logs
  journal := h.journal.trans h'.journal
  keys := h.keys.trans h'.keys
  retains := h.retains.trans h'.retains
  functionsType hmem := (h'.functionsType (h.keys.subset hmem)).trans (h.functionsType hmem)
  functions htype ns hns := by
    obtain ⟨later, hlater, hkeys⟩ := h.functions htype ns hns
    have htype' := (h.functionsType (Scope.mem_keys_of_functions? hns)).trans htype
    obtain ⟨last, hlast, hkeys'⟩ := h'.functions htype' later hlater
    exact ⟨last, hlast, hkeys.trans hkeys'⟩

theorem note (s : State) {event : Event} (h : Journal.typeGiven? functionsName event = none) :
    s.Grows (s.note event) := by
  refine of_scope rfl List.prefix_rfl (List.suffix_cons event s.journal) ?_
  change Journal.typeOf? (event :: s.journal) functionsName = _
  rw [Journal.typeOf?_cons, h, Option.none_or]

theorem put {line : Int} {name : String} {v : Value} (h : refusal? .extended line name v s = none) :
    s.Grows (s.put name v) where
  logs := List.prefix_rfl
  journal := List.suffix_cons _ s.journal
  keys := s.scope.table.keys_prefix_insert name _
  retains := fun ns hns => ⟨ns, Scope.shared?_bind v hns, List.prefix_rfl⟩
  functionsType hmem := by
    have hknown : (s.scope.get? functionsName).isSome := Assoc.mem_keys.mp hmem
    change Journal.typeOf? (_ :: s.journal) functionsName = _
    rw [Journal.typeOf?_cons]
    by_cases hname : (s.scope.get? name).isSome
    · rw [if_pos hname]
      rfl
    · have hne : functionsName ≠ name := fun heq => hname (heq ▸ hknown)
      rw [if_neg hname, Journal.typeGiven?, if_neg (by simpa using hne), Option.none_or]
  functions htype ns hns := by
    have hne : functionsName ≠ name := by
      rintro rfl
      obtain ⟨type, _, hrecorded⟩ := refusal?_extended_eq_none.mp h
      have hknown := Option.isSome_of_eq_some (Scope.get?_of_functions? hns)
      cases htype.symm.trans (hrecorded hknown)
    refine ⟨ns, ?_, List.prefix_rfl⟩
    change (s.scope.bind name v).functions? = some ns
    rw [Scope.functions?_congr (Scope.get?_bind_of_ne s.scope hne v), hns]

theorem declare {ns : Namespace} (hns : s.scope.get? functionsName = some (.functions ns)) (name : String)
    (f : Function) : s.Grows (s.declare name f (ns.insert name (.function f))) where
  logs := List.prefix_rfl
  journal := List.suffix_cons _ s.journal
  keys := s.scope.table.keys_prefix_insert functionsName _
  retains := by
    refine Scope.retains_withFunctions fun own hown => ?_
    obtain rfl : ns = own := Option.some.inj ((Scope.functions?_of_get? hns).symm.trans hown)
    exact ns.keys_prefix_insert name _
  functionsType _ := rfl
  functions _ own hown := by
    obtain rfl : ns = own := Option.some.inj ((Scope.functions?_of_get? hns).symm.trans hown)
    exact ⟨_, Scope.functions?_withFunctions s.scope _, ns.keys_prefix_insert name _⟩

theorem leave {arguments : List (String × Value)} (h : (s.enter arguments).Grows t)
    (hretains : s.scope.Retains (s.leave t).scope) : s.Grows (s.leave t) where
  logs := h.logs
  journal := h.journal
  keys := s.scope.keys_prefix_leave t.scope
  retains := hretains
  functionsType hmem := h.functionsType ((s.scope.keys_prefix_enter arguments).subset hmem)
  functions _ ns hns := by
    obtain ⟨later, hlater, hkeys⟩ := h.retains ns (Scope.shared?_enter arguments hns)
    refine ⟨later, ?_, hkeys⟩
    change (s.scope.leave t.scope).functions? = some later
    rw [Scope.leave, hlater]
    exact Scope.functions?_withFunctions s.scope later

end State.Grows

def growth : Simulation Run Run where
  Rel x _ := ∀ s : State, s.Grows (x.run s).2
  ret _ := State.Grows.refl
  seq hx hf s := run_bind_trans (R := State.Grows) State.Grows.trans (hx s) hf
  stop _ _ := State.Grows.refl

namespace growth

theorem lookup (name : String) : growth.Rel (lookup? name) (lookup? name) := State.Grows.refl

theorem leaves : growth.Leaves .extended .extended (fun _ => True) where
  lookup t _ := lookup t.text
  note event hevent s := .note s (Journal.typeGiven?_of_isPassing hevent functionsName)
  beyond _ := growth.stop _ fun _ => rfl
  log line s := .of_scope rfl (List.prefix_append s.logs [line]) List.suffix_rfl rfl
  store t _ v s := by
    cases hrefused : refusal? .extended t.line t.text v s with
    | none =>
      rw [run_store_of_none hrefused]
      exact .put hrefused
    | some fault =>
      rw [run_store_of_some hrefused]
      exact .refl s

theorem define (name : String) (f : Function) : growth.Rel (define name f) (define name f) := by
  intro s
  unfold Statement.define
  rw [run_bind_ok run_lookup?]
  split
  · exact .refl s
  · exact .refl s
  · rename_i ns hns
    exact .declare hns name f

theorem finishCall (name : String) : growth.Rel (finishCall name) (finishCall name) := by
  intro s
  unfold Statement.finishCall
  rw [run_bind_ok (run_state s)]
  split
  · exact .note s rfl
  · exact .refl s

theorem callLeaves : growth.CallLeaves (fun _ => True) where
  define name f _ := define name f
  check := Simulation.checkFunction (lookup functionsName)
  function name _ _ hfg :=
    growth.seq (Simulation.functionOf (lookup functionsName) name) fun callee => hfg callee (All.trivial callee.body)
  finishCall := finishCall
  inCall arguments _ _ hx s :=
    .leave (hx (s.enter arguments)) (Run.Retains.inCall arguments (fun u => (hx u).retains) s)

end growth

/-! ### The name of the functions -/

inductive Binding.Becomes (assigned : Prop) : Binding → Binding → Prop
  | same (entry : Binding) : Becomes assigned entry entry
  | grown {ns later : Namespace} : ns.keys <+: later.keys → Becomes assigned (.functions ns) (.functions later)
  | bound {entry : Binding} {v : Value} : assigned → v.type?.isSome → Becomes assigned entry (.value v)

theorem Binding.Becomes.trans {assigned : Prop} {entry next last : Binding} (h : Becomes assigned entry next)
    (h' : Becomes assigned next last) : Becomes assigned entry last := by
  cases h' with
  | same => exact h
  | bound hassigned htype => exact .bound hassigned htype
  | grown hkeys =>
    cases h with
    | same => exact .grown hkeys
    | grown hkeys' => exact .grown (hkeys'.trans hkeys)

theorem Binding.Becomes.of_grows {assigned : Prop} {entry : Binding} {later? : Option Binding}
    (h : Grows (some entry) later?) : ∃ later, later? = some later ∧ entry.Becomes assigned later := by
  cases h with
  | same => exact ⟨entry, rfl, .same entry⟩
  | functions hkeys => exact ⟨_, rfl, .grown hkeys⟩

def Scope.FunctionsBecome (assigned : Prop) (s t : Scope) : Prop :=
  ∀ entry, s.get? functionsName = some entry → ∃ later, t.get? functionsName = some later ∧ entry.Becomes assigned later

theorem Scope.functionsBecome_of_eq {assigned : Prop} {s t : Scope} (h : t.get? functionsName = s.get? functionsName) :
    s.FunctionsBecome assigned t := fun entry hentry => ⟨entry, h.trans hentry, .same entry⟩

def becoming (assigned : Prop) : Contract where
  Step s t := s.scope.FunctionsBecome assigned t.scope
  Stops _ := True
  refl s := Scope.functionsBecome_of_eq rfl
  trans h h' entry hentry := by
    obtain ⟨next, hnext, hbecomes⟩ := h entry hentry
    obtain ⟨last, hlast, hbecomes'⟩ := h' next hnext
    exact ⟨last, hlast, hbecomes.trans hbecomes'⟩

namespace becoming

variable {assigned : Prop}

theorem meets {α : Type} {x : Run α} (h : ∀ s : State, s.scope.FunctionsBecome assigned (x.run s).2.scope) :
    x.Meets (becoming assigned) := fun s => ⟨h s, fun _ _ => True.intro⟩

theorem store {name : String} (h : name = functionsName → assigned) (line : Int) (v : Value) :
    (store .extended line name v : Run Unit).Meets (becoming assigned) := by
  refine meets fun s => ?_
  cases hrefused : refusal? .extended line name v s with
  | some fault =>
    rw [run_store_of_some hrefused]
    exact Scope.functionsBecome_of_eq rfl
  | none =>
    rw [run_store_of_none hrefused]
    by_cases hname : name = functionsName
    · subst hname
      obtain ⟨type, htype, _⟩ := refusal?_extended_eq_none.mp hrefused
      refine fun entry _ => ⟨.value v, ?_, .bound (h rfl) (Option.isSome_of_eq_some htype)⟩
      rw [← Binding.ofValue_of_type htype functionsName]
      exact s.scope.get?_bind_self functionsName v
    · exact Scope.functionsBecome_of_eq (s.scope.get?_bind_of_ne (Ne.symm hname) v)

theorem define (name : String) (f : Function) : (define name f : Run Unit).Meets (becoming assigned) := by
  refine meets fun s => ?_
  unfold Statement.define
  rw [run_bind_ok run_lookup?]
  split
  · exact Scope.functionsBecome_of_eq rfl
  · exact Scope.functionsBecome_of_eq rfl
  · rename_i ns hns
    intro entry hentry
    obtain rfl : .functions ns = entry := Option.some.inj (hns.symm.trans hentry)
    exact ⟨_, s.scope.table.get?_insert_self functionsName _, .grown (ns.keys_prefix_insert name _)⟩

theorem call (rounds depth : Nat) (tokens : List Token) :
    (call (Statement.exec .extended rounds depth) tokens : Run Unit).Meets (becoming assigned) := by
  refine meets fun s entry hentry => ?_
  have hbinds : s.scope.BindsOnly .extended (fun _ => False) _ := (bindingOnly.call rounds depth tokens s).1
  exact Binding.Becomes.of_grows (hentry ▸ hbinds.functions id)

theorem leaves (whole : List Token) :
    (becoming (Assigns whole functionsName)).Leaves .extended (· <:+: whole) where
  part h hpart := hpart.trans h
  stops _ := True.intro
  note _ _ := Scope.functionsBecome_of_eq rfl
  log _ _ := Scope.functionsBecome_of_eq rfl
  store h v := store (fun hname => hname ▸ ⟨_, _, h⟩) _ v
  define _ name f := define name f

theorem exec (rounds depth : Nat) {whole tokens : List Token} (h : tokens <:+: whole) :
    (exec .extended rounds depth tokens : Run Unit).Meets (becoming (Assigns whole functionsName)) :=
  Contract.exec (leaves whole) (fun _ depth _ => call rounds depth) depth h

end becoming

/-! ### All statements -/

namespace Statement

/-- Every way to run tokens as a statement, whatever the first one is: by what they are, or as a
statement of one form. -/
inductive Form where
  | any
  | assign
  | print
  | ifThen
  | otherwise
  | whileDo
  | doFor
  | block
  | declare
  | call

namespace Form

def run {m : Type → Type} [Machine m] (rounds depth : Nat) : Form → List Token → m Unit
  | any => Statement.exec .extended rounds (depth + 1)
  | assign => Statement.assign .extended
  | print => Statement.print
  | ifThen => Statement.ifThen (Statement.exec .extended rounds depth)
  | otherwise => Statement.otherwise (Statement.exec .extended rounds depth)
  | whileDo => Statement.whileDo (Statement.exec .extended rounds depth)
  | doFor => Statement.doFor .extended rounds (Statement.exec .extended rounds depth)
  | block => Statement.block (Statement.exec .extended rounds depth)
  | declare => Statement.declare
  | call => Statement.call (Statement.exec .extended rounds depth)

variable (rounds depth : Nat)

theorem simulated {m n : Type → Type} [Machine m] [Machine n] {S : Simulation m n}
    (L : S.Leaves .extended .extended (fun _ => True)) (C : S.CallLeaves (fun _ => True))
    (form : Form) (tokens : List Token) :
    S.Rel (form.run rounds depth tokens) (form.run rounds depth tokens) := by
  have hinner (depth : Nat) (tokens : List Token) (_ : All (fun _ => True) tokens) :
      S.Rel (Statement.exec .extended rounds depth tokens) (Statement.exec .extended rounds depth tokens) :=
    Simulation.exec L C (.inl rfl) (.inl rfl) (All.trivial tokens)
  have htokens := All.trivial tokens
  cases form with
  | any => exact hinner (depth + 1) tokens htokens
  | assign => exact Simulation.assign L.acts htokens
  | print => exact Simulation.print L.acts htokens
  | ifThen => exact Simulation.ifThen (hinner depth) L.acts htokens
  | otherwise => exact Simulation.otherwise (hinner depth) htokens
  | whileDo => exact Simulation.whileDo (hinner depth) L.acts htokens
  | doFor => exact Simulation.doFor (hinner depth) L.acts (.inl rfl) htokens
  | block => exact Simulation.block (hinner depth) htokens
  | declare => exact Simulation.declare (C.acts L).define htokens
  | call => exact Simulation.call L.acts (C.acts L) (hinner depth) htokens

theorem grows (form : Form) (tokens : List Token) (s : State) :
    s.Grows ((form.run rounds depth tokens : Run Unit).run s).2 :=
  simulated rounds depth growth.leaves growth.callLeaves form tokens s

theorem functionsBecome (form : Form) (tokens : List Token) (s : State) :
    s.scope.FunctionsBecome (Assigns tokens functionsName)
      ((form.run rounds depth tokens : Run Unit).run s).2.scope := by
  have L := becoming.leaves tokens
  have hinner : ∀ part, part <:+: tokens →
      (Statement.exec .extended rounds depth part : Run Unit).Meets (becoming (Assigns tokens functionsName)) :=
    fun _ => becoming.exec rounds depth
  have htokens : tokens <:+: tokens := List.infix_rfl
  suffices (form.run rounds depth tokens : Run Unit).Meets (becoming (Assigns tokens functionsName)) from (this s).1
  cases form with
  | any => exact becoming.exec rounds (depth + 1) htokens
  | assign => exact Contract.assign L htokens
  | print => exact Contract.print L tokens
  | ifThen => exact Contract.ifThen L hinner htokens
  | otherwise => exact Contract.otherwise L hinner htokens
  | whileDo => exact Contract.whileDo L hinner htokens
  | doFor => exact Contract.doFor L hinner rounds htokens
  | block => exact Contract.block L hinner htokens
  | declare => exact Contract.declare L rfl tokens
  | call => exact becoming.call rounds depth tokens

theorem functions_kept (form : Form) (tokens : List Token) {s : State} {ns : Namespace}
    (hns : s.scope.functions? = some ns) :
    (∃ later, ((form.run rounds depth tokens : Run Unit).run s).2.scope.functions? = some later ∧
        ns.keys <+: later.keys) ∨
      (∃ v, ((form.run rounds depth tokens : Run Unit).run s).2.scope.get? functionsName = some (.value v) ∧
          v.type?.isSome) ∧
        Assigns tokens functionsName ∧ functionsName ∈ s.journal.types.keys := by
  obtain ⟨later, hlater, hbecomes⟩ := form.functionsBecome rounds depth tokens s _ (Scope.get?_of_functions? hns)
  cases hbecomes with
  | same => exact .inl ⟨ns, Scope.functions?_of_get? hlater, List.prefix_rfl⟩
  | grown hkeys => exact .inl ⟨_, Scope.functions?_of_get? hlater, hkeys⟩
  | @bound _ v hassigned htype =>
    refine .inr ⟨⟨v, hlater, htype⟩, hassigned, Assoc.mem_keys.mpr ?_⟩
    -- Without a type for the name, the functions would still be there.
    rw [Journal.get?_types, Option.isSome_iff_ne_none]
    intro huntyped
    obtain ⟨kept, hkept, _⟩ := (form.grows rounds depth tokens s).functions huntyped ns hns
    rw [Scope.get?_of_functions? hkept] at hlater
    cases hlater

end Form

end Statement

namespace Program

theorem logs_and_journal_finish (s : State) (ended : Except Fault Unit × State) :
    (finish s ended).2.logs = ended.2.logs ∧ (finish s ended).2.journal = ended.2.journal := by
  obtain ⟨result, t⟩ := ended
  cases result <;> exact ⟨rfl, rfl⟩

theorem keeps_of_runTokens (limits : Limits) (tokens : List Token) (s : State) :
    s.Keeps ((runTokens .extended limits tokens).run s).2 ∧
      (functionsName ∈ ((runTokens .extended limits tokens).run s).2.journal.types.keys ↔
        functionsName ∈ s.journal.types.keys) := by
  obtain ⟨hlogs, hjournal⟩ :=
    logs_and_journal_finish s ((statements .extended limits tokens : Run Unit).run (start .extended s))
  have hprogram : growth.Rel (statements .extended limits tokens) (statements .extended limits tokens) :=
    Simulation.program growth.leaves growth.callLeaves (.inl rfl) (.inl rfl) tokens
  have hgrows := hprogram (start .extended s)
  have hnamed : functionsName ∈ (initialTable .extended).keys := by decide
  refine ⟨State.keeps_of_suffix (hlogs ▸ hgrows.logs) (hjournal ▸ hgrows.journal), ?_⟩
  have htype := hgrows.functionsType hnamed
  rw [← hjournal] at htype
  rw [Assoc.mem_keys, Assoc.mem_keys, Journal.get?_types, Journal.get?_types]
  exact iff_of_eq (congrArg (fun type? => type?.isSome = true) htype)

end Program

section Idle

def onlyIdle (journal : Journal) : State where
  scope := { table := Assoc.ofList [(functionsName, .functions (Assoc.ofList [("f", .function ⟨[], []⟩)]))] }
  journal := journal

def declaringAndFailing : List Token :=
  (Token.tokenize .extended "\x7bfunc g()\x7b\x7d!print(y)!\x7d").toOption.getD []

def replacing : List Token := [⟨.identifier, functionsName, 1⟩, ⟨.operator, "=", 1⟩, ⟨.number, "1", 1⟩]

end Idle

end Bang
