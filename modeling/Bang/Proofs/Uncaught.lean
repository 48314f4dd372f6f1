import Bang.Proofs.Arity
import Bang.Proofs.Calls
import Bang.Proofs.Faults
import Bang.Proofs.Session

/-! The faults of the extended dialect. Besides those of the basic one there are some that are not reported to the
user, and they have three causes: an assignment to a name without a type, which is a parameter or a name that the
table starts with; a call whose brackets are not on the line where it begins; and a parameter that takes the name
under which the functions are kept. In a host there are three more: an expression that goes beyond the language, a
reason that is not translated, and a line that is not displayed. -/

namespace Bang

open Machine Run Statement

namespace Journal

variable {j later : Journal} {name : String}

def IsParameter (j : Journal) (name : String) : Prop :=
  ∃ callee f, Event.declared callee f ∈ j ∧ Event.entered callee ∈ j ∧ name ∈ f.params

theorem IsParameter.mono (h : j <:+ later) (hname : j.IsParameter name) : later.IsParameter name := by
  obtain ⟨callee, f, hdeclared, hentered, hparam⟩ := hname
  exact ⟨callee, f, h.subset hdeclared, h.subset hentered, hparam⟩

theorem isSome_typeOf?_mono (h : j <:+ later) (hname : (j.typeOf? name).isSome) : (later.typeOf? name).isSome := by
  obtain ⟨added, rfl⟩ := h
  rw [typeOf?_append, Option.isSome_or, hname, Bool.or_true]

theorem isDeclared_of_mem {f : Function} (h : Event.declared name f ∈ j) : j.isDeclared name = true :=
  List.any_eq_true.mpr ⟨_, h, beq_self_eq_true name⟩

end Journal

/-! ### States of a program -/

def Namespace.Declared (whole : List Token) (j : Journal) (ns : Namespace) : Prop :=
  ∀ name definition, ns.get? name = some definition → ∃ f : Function, definition = .function f ∧
    Event.declared name f ∈ j ∧ f.body <:+: whole ∧ startsBlock f.body = true

namespace Namespace.Declared

variable {whole : List Token} {j later : Journal} {ns : Namespace}

theorem mono (hgrows : j <:+ later) (h : ns.Declared whole j) : ns.Declared whole later := by
  intro name definition hdefinition
  obtain ⟨f, rfl, hdeclared, hbody⟩ := h name definition hdefinition
  exact ⟨f, rfl, hgrows.subset hdeclared, hbody⟩

theorem insert (h : ns.Declared whole j) {name : String} {f : Function} (hdeclared : Event.declared name f ∈ j)
    (hbody : f.body <:+: whole) (hstarts : startsBlock f.body = true) :
    Namespace.Declared whole j (Assoc.insert ns name (.function f)) := by
  intro other definition hdefinition
  by_cases hother : other = name
  · subst hother
    rw [Assoc.get?_insert_self] at hdefinition
    exact ⟨f, (Option.some.inj hdefinition).symm, hdeclared, hbody, hstarts⟩
  · rw [Assoc.get?_insert_of_ne _ hother] at hdefinition
    exact h other definition hdefinition

end Namespace.Declared

/-- The functions are lent to the scope of a call, where a value stands in their place. -/
def Scope.Hides (s : Scope) (ns : Namespace) (v : Value) : Prop :=
  s.get? functionsName = some (.value v) ∧ s.lent = some ns

def State.Holds (s : State) (ns : Namespace) : Prop :=
  s.scope.Owns ns ∨ (∃ v, s.scope.Hides ns v) ∧ s.journal.IsParameter functionsName

namespace State.Holds

variable {s t : State} {ns : Namespace} {name : String} {v : Value}

theorem shared? (h : s.Holds ns) : s.scope.shared? = some ns := by
  rcases h with howns | ⟨⟨v, hhides⟩, _⟩
  · rw [Scope.shared?, howns.2, Option.none_or, Scope.functions?_of_get? howns.1]
  · rw [Scope.shared?, hhides.2, Option.some_or]

theorem isSome (h : s.Holds ns) : (s.scope.get? functionsName).isSome := by
  rcases h with howns | ⟨⟨v, hhides⟩, _⟩
  · exact Option.isSome_of_eq_some howns.1
  · exact Option.isSome_of_eq_some hhides.1

theorem of_scope (h : s.Holds ns) (hscope : t.scope = s.scope) (hgrows : s.journal <:+ t.journal) : t.Holds ns := by
  rw [State.Holds, hscope]
  exact h.imp id fun ⟨hhides, hparameter⟩ => ⟨hhides, hparameter.mono hgrows⟩

theorem bind_of_ne (h : s.Holds ns) (hname : name ≠ functionsName) (hscope : t.scope = s.scope.bind name v)
    (hgrows : s.journal <:+ t.journal) : t.Holds ns := by
  rw [State.Holds, hscope]
  refine h.imp (fun howns => howns.bind hname v) fun ⟨⟨w, hget, hlent⟩, hparameter⟩ =>
    ⟨⟨w, ?_, ?_⟩, hparameter.mono hgrows⟩
  · rw [Scope.get?_bind_of_ne _ hname.symm, hget]
  · simp [Scope.bind, hname, hlent]

theorem bind_of_parameter (h : s.Holds ns) (hv : v.kind ≠ .record) (hparameter : t.journal.IsParameter functionsName)
    (hscope : t.scope = s.scope.bind functionsName v) : t.Holds ns := by
  have hvalue : Binding.ofValue functionsName v = .value v := by
    cases v <;> first | rfl | exact absurd rfl hv
  refine .inr ⟨⟨v, ?_, ?_⟩, hparameter⟩
  · rw [hscope, Scope.get?_bind_self, hvalue]
  · rw [hscope, ← h.shared?]
    simp [Scope.bind]

end State.Holds

/-- Functions are those that the program has declared, and every name of the table is accounted for. -/
structure State.Proper (whole : List Token) (s : State) : Prop where
  functions : ∃ ns : Namespace, s.Holds ns ∧ ns.Declared whole s.journal
  untyped : s.journal.typeOf? functionsName = none
  known : ∀ name, (s.scope.get? name).isSome →
    isReserved name ∨ (s.journal.typeOf? name).isSome ∨ s.journal.IsParameter name

namespace State.Proper

variable {whole : List Token} {s t : State} {name : String} {v : Value}

theorem known_mono (h : s.Proper whole) {j : Journal} (hgrows : s.journal <:+ j)
    (hname : (s.scope.get? name).isSome) : isReserved name ∨ (j.typeOf? name).isSome ∨ j.IsParameter name := by
  rcases h.known name hname with hreserved | htyped | hparameter
  · exact .inl hreserved
  · exact .inr (.inl (Journal.isSome_typeOf?_mono hgrows htyped))
  · exact .inr (.inr (hparameter.mono hgrows))

theorem of_scope (h : s.Proper whole) (hscope : t.scope = s.scope) (hgrows : s.journal <:+ t.journal)
    (huntyped : t.journal.typeOf? functionsName = none) : t.Proper whole where
  functions := by
    obtain ⟨ns, hns, hdeclared⟩ := h.functions
    exact ⟨ns, hns.of_scope hscope hgrows, hdeclared.mono hgrows⟩
  untyped := huntyped
  known name hname := h.known_mono hgrows (hscope ▸ hname)

theorem note (h : s.Proper whole) {event : Event} (hevent : Journal.typeGiven? functionsName event = none) :
    (s.note event).Proper whole := by
  refine h.of_scope rfl (List.suffix_cons _ _) ?_
  change Journal.typeOf? (event :: s.journal) functionsName = none
  rw [Journal.typeOf?_cons, hevent, Option.none_or, h.untyped]

theorem bind (h : s.Proper whole) (hscope : t.scope = s.scope.bind name v) (hgrows : s.journal <:+ t.journal)
    (huntyped : t.journal.typeOf? functionsName = none)
    (hname : name = functionsName → t.journal.IsParameter functionsName ∧ v.kind ≠ .record)
    (hknown : (t.journal.typeOf? name).isSome ∨ t.journal.IsParameter name) : t.Proper whole where
  functions := by
    obtain ⟨ns, hns, hdeclared⟩ := h.functions
    refine ⟨ns, ?_, hdeclared.mono hgrows⟩
    by_cases heq : name = functionsName
    · exact hns.bind_of_parameter (hname heq).2 (hname heq).1 (heq ▸ hscope)
    · exact hns.bind_of_ne heq hscope hgrows
  untyped := huntyped
  known other hother := by
    by_cases heq : other = name
    · exact heq ▸ .inr hknown
    · rw [hscope, Scope.get?_bind_of_ne _ heq] at hother
      exact h.known_mono hgrows hother

theorem put (h : s.Proper whole) {line : Int} (hrefused : refusal? .extended line name v s = none) :
    (s.put name v).Proper whole := by
  obtain ⟨type, htype, hsame⟩ := refusal?_extended_eq_none.mp hrefused
  have hgrows : s.journal <:+ (s.put name v).journal := List.suffix_cons _ _
  -- The name of the functions is there without a type, so it is refused.
  have hname : name ≠ functionsName := by
    rintro rfl
    obtain ⟨ns, hns, _⟩ := h.functions
    have htyped := hsame hns.isSome
    rw [h.untyped] at htyped
    cases htyped
  refine h.bind rfl hgrows ?_ (fun heq => absurd heq hname) (.inl ?_)
  · change Journal.typeOf? (_ :: s.journal) functionsName = none
    rw [Journal.typeOf?_cons, h.untyped, Option.or_none]
    split
    · rfl
    · exact if_neg (by simpa using hname.symm)
  · by_cases hsome : (s.scope.get? name).isSome
    · exact Journal.isSome_typeOf?_mono hgrows (Option.isSome_of_eq_some (hsame hsome))
    · have hcreated : (s.put name v).journal = .created name v :: s.journal := by simp [State.put, hsome]
      have hgiven : Journal.typeGiven? name (.created name v) = some type := by simp [Journal.typeGiven?, htype]
      rw [hcreated, Journal.typeOf?_cons, hgiven, Option.some_or, Option.isSome_some]

theorem withFunctions (h : s.Proper whole) {ns later : Namespace} (hns : s.scope.Owns ns)
    (hscope : t.scope = s.scope.withFunctions later) (hgrows : s.journal <:+ t.journal)
    (huntyped : t.journal.typeOf? functionsName = none) (hdeclared : later.Declared whole t.journal) :
    t.Proper whole where
  functions := ⟨later, .inl (hscope ▸ hns.withFunctions later), hdeclared⟩
  untyped := huntyped
  known other hother := by
    by_cases hreserved : other = functionsName
    · exact .inl (.inl hreserved)
    · rw [hscope, Scope.get?_withFunctions_of_ne _ _ hreserved] at hother
      exact h.known_mono hgrows hother

theorem declare (h : s.Proper whole) {ns : Namespace} (hns : s.scope.Owns ns) (hdeclared : ns.Declared whole s.journal)
    {f : Function} (hbody : f.body <:+: whole) (hstarts : startsBlock f.body = true) :
    (s.declare name f (ns.insert name (.function f))).Proper whole := by
  have hgrows : s.journal <:+ (s.declare name f (ns.insert name (.function f))).journal := List.suffix_cons _ _
  refine h.withFunctions hns rfl hgrows ?_ ((hdeclared.mono hgrows).insert List.mem_cons_self hbody hstarts)
  change Journal.typeOf? (.declared name f :: s.journal) functionsName = none
  rw [Journal.typeOf?_cons, h.untyped]
  rfl

theorem enter (h : s.Proper whole) {ns : Namespace} (hns : s.scope.Owns ns) {arguments : List (String × Value)}
    (hnames : ∀ argument ∈ arguments, s.journal.IsParameter argument.1)
    (hvalues : ∀ argument ∈ arguments, argument.1 = functionsName → argument.2.kind ≠ .record) :
    (s.enter arguments).Proper whole := by
  have hbound (arguments : List (String × Value)) (scope : Scope) (hscope : ({ s with scope } : State).Proper whole)
      (hnames : ∀ argument ∈ arguments, s.journal.IsParameter argument.1)
      (hvalues : ∀ argument ∈ arguments, argument.1 = functionsName → argument.2.kind ≠ .record) :
      State.Proper whole
        { s with scope := arguments.foldl (fun scope argument => scope.bind argument.1 argument.2) scope } := by
    induction arguments generalizing scope with
    | nil => exact hscope
    | cons argument rest ih =>
      have hparameter := hnames argument List.mem_cons_self
      refine ih _ (hscope.bind rfl List.suffix_rfl h.untyped (fun heq => ?_) (.inr hparameter))
        (fun argument hmem => hnames argument (List.mem_cons_of_mem _ hmem))
        fun argument hmem => hvalues argument (List.mem_cons_of_mem _ hmem)
      exact ⟨heq ▸ hparameter, hvalues argument List.mem_cons_self heq⟩
  have hfresh : ({ table := s.scope.table } : Scope) = s.scope := by rw [← hns.2]
  have hentered := hbound arguments { table := s.scope.table } (by rw [hfresh]; exact h) hnames hvalues
  exact hentered

theorem leave (h : s.Proper whole) {ns : Namespace} (hns : s.scope.Owns ns) (ht : t.Proper whole)
    (hgrows : s.journal <:+ t.journal) : (s.leave t).Proper whole := by
  obtain ⟨later, hlater, hdeclared⟩ := ht.functions
  have hscope : (s.leave t).scope = s.scope.withFunctions later := by
    change s.scope.leave t.scope = _
    rw [Scope.leave, hlater.shared?]
  exact h.withFunctions hns hscope hgrows ht.untyped hdeclared

end State.Proper

/-! ### Explanations -/

/-- A call of the program gives a record to the parameter with the name of the functions. From then
on the entries of the record are called in their place. -/
def Journal.Handed (whole : List Token) (j : Journal) : Prop :=
  ∃ (callee : Token) (rest inside behind : List Token) (f : Function) (values : List Value) (v : Value) (u t : State),
    IsStatement whole (callee :: rest) ∧ bracketed? callee.line (callee :: rest) = some (inside, behind) ∧
      u.Proper whole ∧ u.scope.Defines callee.text f ∧ (arguments inside : Run (List Value)).run u = (.ok values, t) ∧
        .entered callee.text :: t.journal <:+ j ∧ (functionsName, v) ∈ f.params.zip values ∧ v.kind = .record

theorem Journal.Handed.mono {whole : List Token} {j later : Journal} (hgrows : j <:+ later) (h : j.Handed whole) :
    later.Handed whole := by
  obtain ⟨callee, rest, inside, behind, f, values, v, u, t, hstatement, hinside, hu, hf, hvalues, hentered, hv⟩ := h
  exact ⟨callee, rest, inside, behind, f, values, v, u, t, hstatement, hinside, hu, hf, hvalues,
    hentered.trans hgrows, hv⟩

/-- Why a program of the extended dialect stops, from its tokens and from what the journal says at
that point. -/
inductive Fault.Explained (whole : List Token) (j : Journal) : Fault → Prop
  | plain {fault : Fault} : fault.Plain → Explained whole j fault
  /-- A parameter is assigned to, or a name that the table starts with. -/
  | untyped {name : String} {line line' : Int} :
      [⟨.identifier, name, line⟩, ⟨.operator, "=", line'⟩] <:+: whole → isReserved name ∨ j.IsParameter name →
      Explained whole j (.crash (.untypedName name))
  /-- A bracket of a call does not stand on the line of the function's name. -/
  | unbracketed {callee opening : Token} {rest : List Token} {text : String} :
      IsStatement whole (callee :: opening :: rest) → opening.text = "(" → j.isDeclared callee.text = true →
      text ∈ ["(", ")"] → bracket text callee.line ∉ callee :: opening :: rest →
      Explained whole j (.crash (.missingToken (bracket text callee.line)))
  /-- A call looks for its function in the value of the parameter that hides the functions. -/
  | uncallable {callee opening : Token} {rest : List Token} {v : Value} {c : Crash} :
      IsStatement whole (callee :: opening :: rest) → opening.text = "(" → j.IsParameter functionsName →
      c ∈ [.functionsUnsearchable v.kind, .functionsUnnamed v.kind] → Explained whole j (.crash c)
  /-- A declaration is to be stored in the value of that parameter. -/
  | undeclarable {first : Token} {rest : List Token} {v : Value} :
      IsStatement whole (first :: rest) → first.text = "func" → j.IsParameter functionsName →
      Explained whole j (.crash (.functionsFixed v.kind))
  | handed {c : Crash} : j.Handed whole → Explained whole j (.crash c)

theorem Fault.Explained.of_handed {whole : List Token} {j : Journal} (h : j.Handed whole) (fault : Fault) :
    fault.Explained whole j := by
  cases fault with
  | diagnostic d => exact .plain (.diagnostic d)
  | crash c => exact .handed h
  | exhausted => exact .plain .exhausted
  | beyond => exact .plain .beyond

def explanation (whole : List Token) : Guard where
  Inv s := s.journal.Handed whole ∨ s.Proper whole
  Allows fault j := fault.Explained whole j

namespace explanation

variable {whole : List Token} {s t : State}

theorem of_handed {α : Type} {x : Run α} (hs : s.journal.Handed whole)
    (hgrows : s.journal <:+ (x.run s).2.journal) : x.Guarded (explanation whole) s where
  ok _ _ := ⟨.inl (hs.mono hgrows), hgrows⟩
  error fault _ := .of_handed (hs.mono hgrows) fault

theorem note {event : Event} (hevent : Journal.typeGiven? functionsName event = none)
    (hs : (explanation whole).Inv s) : (explanation whole).Inv (s.note event) := by
  rcases hs with hhanded | hproper
  · exact .inl (hhanded.mono (List.suffix_cons _ _))
  · exact .inr (hproper.note hevent)

theorem store {name : String} {line line' : Int}
    (h : [⟨.identifier, name, line⟩, ⟨.operator, "=", line'⟩] <:+: whole) (v : Value)
    (hs : (explanation whole).Inv s) : (store .extended line name v : Run Unit).Guarded (explanation whole) s := by
  rcases hs with hhanded | hproper
  · exact of_handed hhanded (conclusion.store .extended line name v s).1
  · cases hrefused : refusal? .extended line name v s with
    | none => exact .of_ok (run_store_of_none hrefused) (.inr (hproper.put hrefused)) (List.suffix_cons _ _)
    | some fault =>
      refine .of_error (run_store_of_some hrefused) ?_
      rcases refusal?_eq_some hrefused with rfl | ⟨old, new, rfl⟩ | ⟨rfl, hknown, huntyped⟩
      · exact .plain (.diagnostic _)
      · exact .plain (.diagnostic _)
      · refine .untyped h ?_
        rcases hproper.known name hknown with hreserved | htyped | hparameter
        · exact .inl hreserved
        · rw [huntyped] at htyped
          cases htyped
        · exact .inr hparameter

theorem leaves (h : WellNumbered whole) :
    (explanation whole).Leaves .extended whole where
  numerals := h
  plain hplain _ := .plain hplain
  note hevent _ hs := note (Journal.typeGiven?_of_isPassing hevent functionsName) hs
  log _ _ hs := hs.imp id fun hproper => hproper.of_scope rfl List.suffix_rfl hproper.untyped
  store h v _ hs := store h v hs

theorem define {first : Token} {rest : List Token} (hstatement : IsStatement whole (first :: rest))
    (hfunc : first.text = "func") {name : String} {f : Function} (hbody : f.body <:+: whole)
    (hstarts : startsBlock f.body = true) (hs : (explanation whole).Inv s) :
    (define name f : Run Unit).Guarded (explanation whole) s := by
  rcases hs with hhanded | hproper
  · exact of_handed hhanded (conclusion.callLeaves.define name f (All.trivial _) s).1
  · obtain ⟨ns, hns | ⟨⟨v, hhides⟩, hparameter⟩, hdeclared⟩ := hproper.functions
    · refine .of_ok (a := ()) (t := s.declare name f (ns.insert name (.function f))) ?_
        (.inr (hproper.declare hns hdeclared hbody hstarts)) (List.suffix_cons _ _)
      unfold Statement.define
      rw [run_bind_ok run_lookup?, hns.1]
      rfl
    · have hrun : (Statement.define name f : Run Unit).run s = (.error (.crash (.functionsFixed v.kind)), s) := by
        unfold Statement.define
        rw [run_bind_ok run_lookup?, hhides.1]
        rfl
      exact .of_error hrun (.undeclarable hstatement hfunc hparameter)

section Calls

variable (h : WellNumbered whole)
include h

theorem parameters (tokens : List Token) (hs : (explanation whole).Inv s) :
    (parameters tokens : Run (List String)).Guarded (explanation whole) s := by
  induction tokens generalizing s with
  | nil => exact .ret [] hs
  | cons t ts ih =>
    simp only [Statement.parameters]
    split
    · exact .seq (ih hs) fun rest s hs _ => .ret _ hs
    · split
      · exact ih hs
      · exact Guard.report (leaves h) _

theorem declare {first : Token} {rest : List Token} (hstatement : IsStatement whole (first :: rest))
    (hfunc : first.text = "func") (hs : (explanation whole).Inv s) :
    (declare (first :: rest) : Run Unit).Guarded (explanation whole) s := by
  unfold Statement.declare
  split
  · rename_i heq
    cases heq
  · rename_i _ _ name opening t ts heq
    obtain ⟨rfl, rfl⟩ := List.cons.inj heq
    split
    · exact Guard.report (leaves h) _
    · split
      · exact Guard.report (leaves h) _
      · split
        · exact Guard.report (leaves h) _
        · rename_i inside body hclosing
          have hbehind : t :: ts <:+: whole :=
            List.IsInfix.trans ⟨[first, name, opening], [], by simp⟩ hstatement.isInfix
          refine .seq (parameters h inside hs) fun params s hs _ => ?_
          split
          · rename_i hstarts
            exact define hstatement hfunc ((isInfix_upToClosing? hclosing).2.trans hbehind) hstarts hs
          · exact Guard.report (leaves h) _
  · exact Guard.report (leaves h) _

omit h in
theorem inCall {f : Function} {ns : Namespace} {name : String} (hns : s.scope.Owns ns)
    (hdeclared : Event.declared name f ∈ s.journal) (hcalled : Event.entered name ∈ s.journal) {values : List Value}
    (hhanded : ∀ v, (functionsName, v) ∈ f.params.zip values → v.kind = .record → s.journal.Handed whole)
    {body : Run Unit} (hbody : ∀ {s}, (explanation whole).Inv s → body.Guarded (explanation whole) s)
    (hs : (explanation whole).Inv s) :
    (inCall (f.params.zip values) body : Run Unit).Guarded (explanation whole) s := by
  have hentered : (explanation whole).Inv (s.enter (f.params.zip values)) := by
    by_cases hrecord : s.journal.Handed whole
    · exact .inl hrecord
    · refine hs.imp id fun hproper => hproper.enter hns (fun argument hmem => ?_) fun argument hmem heq hkind => ?_
      · exact ⟨name, f, hdeclared, hcalled, (List.of_mem_zip hmem).1⟩
      · exact hrecord (hhanded argument.2 (heq ▸ hmem) hkind)
  have hguarded := hbody hentered
  refine ⟨fun a ha => ?_, fun fault hfault => hguarded.error fault hfault⟩
  obtain ⟨hinv, hgrows⟩ := hguarded.ok a ha
  refine ⟨?_, hgrows⟩
  rcases hinv with hhanded | ht
  · exact .inl hhanded
  · exact hs.imp (fun hhanded => hhanded.mono hgrows) fun hproper => hproper.leave hns ht hgrows

omit h in
theorem finishCall {name : String} (hdeclared : s.journal.isDeclared name = true) (hs : (explanation whole).Inv s) :
    (finishCall name : Run Unit).Guarded (explanation whole) s := by
  refine .of_ok (a := ()) (t := s.note (.returned name)) ?_ (note rfl hs) (List.suffix_cons _ _)
  unfold Statement.finishCall
  rw [run_bind_ok (run_state s), hdeclared]
  rfl

omit h in
theorem run_checkFunction_of_value {v : Value} (hvalue : s.scope.get? functionsName = some (.value v)) (name : String) :
    ∃ fault, (checkFunction name : Run Unit).run s = (.error fault, s) ∧
      (fault = .diagnostic (.functionUndefined name) ∨
        ∃ c, c ∈ [.functionsUnsearchable v.kind, .functionsUnnamed v.kind] ∧ fault = .crash c) := by
  unfold checkFunction
  rw [run_bind_ok run_lookup?, hvalue]
  dsimp only
  split
  · split
    · exact ⟨_, rfl, .inr ⟨_, by simp [Value.kind], rfl⟩⟩
    · exact ⟨_, rfl, .inl rfl⟩
  · split
    · exact ⟨_, rfl, .inr ⟨_, by simp, rfl⟩⟩
    · exact ⟨_, rfl, .inl rfl⟩
  · split
    · exact ⟨_, rfl, .inr ⟨_, by simp, rfl⟩⟩
    · exact ⟨_, rfl, .inl rfl⟩
  · exact ⟨_, rfl, .inr ⟨_, by simp, rfl⟩⟩

theorem call {rounds depth : Nat}
    (hinner : ∀ {tokens s}, IsStatement whole tokens → (explanation whole).Inv s →
      (Statement.exec .extended rounds depth tokens : Run Unit).Guarded (explanation whole) s)
    {callee opening : Token} {rest : List Token} (hstatement : IsStatement whole (callee :: opening :: rest))
    (hopening : opening.text = "(") (hs : (explanation whole).Inv s) :
    (call (Statement.exec .extended rounds depth) (callee :: opening :: rest) : Run Unit).Guarded
      (explanation whole) s := by
  rcases hs with hhanded | hproper
  · have hconcludes : Run.Concludes
        (Statement.call (Statement.exec .extended rounds depth) (callee :: opening :: rest)) :=
      Simulation.call (conclusion.leaves .extended).acts (conclusion.callLeaves.acts (conclusion.leaves .extended))
        (fun _ htokens => Simulation.exec (conclusion.leaves _) conclusion.callLeaves (.inl rfl) (.inl rfl) htokens)
        (All.trivial _)
    exact of_handed hhanded (hconcludes s).1
  · obtain ⟨ns, hns | ⟨⟨v, hhides⟩, hparameter⟩, hdefinitions⟩ := hproper.functions
    · cases hname : ns.get? callee.text with
      | none => exact .of_error (run_call_of_undefined hns.1 hname) (.plain (.diagnostic _))
      | some definition =>
        obtain ⟨f, rfl, hdeclared, hbody, hstarts⟩ := hdefinitions callee.text definition hname
        have hdefines : s.scope.Defines callee.text f := ⟨ns, hns.1, hname⟩
        have hmissing {text : String} (htext : text ∈ ["(", ")"])
            (habsent : (callee :: opening :: rest).idxOf? (bracket text callee.line) = none) :
            (crash (.missingToken (bracket text callee.line)) : Run Unit).Guarded (explanation whole) s :=
          .stop (.unbracketed hstatement hopening (Journal.isDeclared_of_mem hdeclared) htext
            (List.idxOf?_eq_none_iff.mp habsent))
        refine .seq_of_run hdefines.run_checkFunction List.suffix_rfl ?_
        split
        · exact hmissing (by decide) ‹_›
        · exact hmissing (by decide) ‹_›
        · rename_i start stop hstart hstop
          refine .seq_with (Guard.arguments (leaves h) _ (.inr hproper)) fun values t hvalues ht hst => ?_
          have hscope : t.scope = s.scope := (Quiet.arguments _).scope_of_run hvalues
          refine .seq_of_run (Scope.Defines.run_functionOf (by rwa [hscope])) List.suffix_rfl ?_
          split
          · exact Guard.report (leaves h) _
          · have hblock : ∀ {s}, (explanation whole).Inv s →
                Run.Guarded (explanation whole) (Statement.block (Statement.exec .extended rounds depth) f.body) s :=
              Guard.startedBlock (leaves h) hinner hbody hstarts
            have hnoted : Event.declared callee.text f ∈ (t.note (.entered callee.text)).journal :=
              List.mem_cons_of_mem _ (hst.subset hdeclared)
            have hbracketed : bracketed? callee.line (callee :: opening :: rest) = some
                (((callee :: opening :: rest).take stop).drop (start + 1),
                  (callee :: opening :: rest).drop (stop + 1)) := by
              simp [bracketed?, hstart, hstop]
            refine .seq_of_run (run_note _) (List.suffix_cons _ _) ?_
            refine .seq (inCall (hscope ▸ hns) hnoted List.mem_cons_self (fun v hmem hkind => ?_) hblock (note rfl ht))
              fun _ u hu htu => finishCall (Journal.isDeclared_of_mem (htu.subset hnoted)) hu
            exact ⟨callee, opening :: rest, _, _, f, values, v, s, t, hstatement, hbracketed, hproper, hdefines,
              hvalues,
              List.suffix_rfl, hmem, hkind⟩
    · obtain ⟨fault, hrun, hfault⟩ := run_checkFunction_of_value hhides.1 callee.text
      refine .of_error (run_bind_error hrun) ?_
      rcases hfault with rfl | ⟨c, hc, rfl⟩
      · exact .plain (.diagnostic _)
      · exact .uncallable hstatement hopening hparameter hc

theorem exec (rounds depth : Nat) {tokens : List Token} (htokens : IsStatement whole tokens)
    (hs : (explanation whole).Inv s) :
    (exec .extended rounds depth tokens : Run Unit).Guarded (explanation whole) s := by
  refine Guard.exec (leaves h) rounds (fun depth ih first rest hstatement s hs => ?_) depth htokens hs
  unfold unmarked
  split
  · rename_i hfunc
    exact declare h hstatement (by simpa using hfunc) hs
  · split
    · exact Guard.block (leaves h) ih hstatement.isInfix hs
    · split
      · rename_i hcall
        rw [Bool.and_eq_true] at hcall
        cases rest with
        | nil => cases hcall.2
        | cons opening rest => exact call h ih hstatement (eq_of_beq hcall.2) hs
      · exact Guard.assign (leaves h) hstatement.isInfix hs

end Calls

end explanation

namespace Program

variable {limits : Limits} {code : String} {fault : Fault}

theorem proper_start (whole : List Token) : (start .extended {}).Proper whole where
  functions := ⟨.empty, .inl ⟨rfl, rfl⟩, fun name definition hdefinition => by cases hdefinition⟩
  untyped := rfl
  known name hname := by
    left
    by_contra hreserved
    have hnone : (start .extended {}).scope.get? name = none := get?_initialTable hreserved
    rw [hnone] at hname
    cases hname

theorem explained_of_run {tokens : List Token} (htokens : Token.tokenize .extended code = .ok tokens)
    (hne : tokens ≠ []) (h : (run .extended limits code {}).1.result = .error fault) :
    fault.Explained (unstarted tokens) (run .extended limits code {}).2.journal := by
  have hnumerals := wellNumbered_unstarted htokens
  have hguarded : (statements .extended limits tokens : Run Unit).Guarded (explanation (unstarted tokens))
      (start .extended {}) :=
    Guard.statements (explanation.leaves hnumerals) hne
      (fun hpart hs => explanation.exec hnumerals limits.rounds limits.depth hpart hs) (.inr (proper_start _))
  exact Guard.allows_of_run htokens hguarded h

end Program

namespace Service

open Program

end Service

end Bang
