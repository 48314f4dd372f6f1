import Bang.Proofs.Expression

/-! What a program that ends well has done: one after another it has evaluated expressions, printed, bound names,
declared functions and run their bodies. What holds of each of these steps holds of the whole program. -/

namespace Bang

open Machine Run Statement

inductive Course (d : Dialect) : State → State → Prop
  | refl (s : State) : Course d s s
  | trans {s t u : State} : Course d s t → Course d t u → Course d s u
  | consult {s : State} {tokens : List Token} :
    (∀ t ∈ tokens, t.isIdentifier → (s.scope.get? t.text).isSome) → Course d s (s.consult tokens)
  | log (s : State) (line : String) : Course d s (s.log line)
  | put {s : State} {line : Int} {name : String} {v : Value} :
    refusal? d line name v s = none → Course d s (s.put name v)
  | declare (s : State) (name : String) (f : Function) (ns : Namespace) :
    Course d s (s.declare name f ns)
  | call {s t : State} {name : String} {arguments : List (String × Value)} :
    Course d ((s.note (.entered name)).enter arguments) t → t.journal.isDeclared name →
      Course d s (((s.note (.entered name)).leave t).note (.returned name))

/-- The computation, where it ends well, takes one of these ways. -/
def Run.Courses (d : Dialect) {α : Type} (x : Run α) : Prop :=
  ∀ (s : State) (a : α) (t : State), x.run s = (.ok a, t) → Course d s t

def coursing (d : Dialect) : Simulation Run Run where
  Rel x _ := x.Courses d
  ret a s b t h := by
    cases h
    exact .refl s
  seq hx hf s b t h := by
    obtain ⟨a, u, hfirst, hthen⟩ := run_bind_eq_ok h
    exact (hx s a u hfirst).trans (hf a u b t hthen)
  stop fault _ s a t h := by cases h

namespace coursing

variable {d : Dialect}

theorem lookup (name : String) : (lookup? name : Run (Option Binding)).Courses d := by
  intro s binding t h
  cases h
  exact .refl s

theorem acts (d : Dialect) : (coursing d).Acts d d (fun _ => True) where
  lookup t _ := lookup t.text
  evaluate _ := by
    intro s v t h
    obtain ⟨rfl, hnames⟩ := State.consult_of_run h
    exact .consult hnames
  log line := by
    intro s _ t h
    cases h
    exact .log s line
  store u _ v := by
    intro s _ t h
    cases hrefusal : refusal? d u.line u.text v s with
    | none =>
      rw [run_store_of_none hrefusal] at h
      cases h
      exact .put hrefusal
    | some fault =>
      rw [run_store_of_some hrefusal] at h
      cases h

theorem called (name : String) (arguments : List (String × Value)) {x : Run Unit} (hx : x.Courses d) :
    (do note (.entered name); inCall arguments x; finishCall name : Run Unit).Courses d := by
  intro s _ t h
  rw [run_bind_ok (run_note (.entered name))] at h
  obtain ⟨_, left, hbody, hfinish⟩ := run_bind_eq_ok h
  rw [run_inCall] at hbody
  rcases hrun : x.run ((s.note (.entered name)).enter arguments) with ⟨result, u⟩
  rw [hrun] at hbody
  obtain ⟨rfl, rfl⟩ := Prod.mk.inj hbody
  have hcourse := hx _ _ u hrun
  rw [finishCall, run_bind_ok (run_state _)] at hfinish
  split at hfinish
  · rename_i hdeclared
    cases hfinish
    exact .call hcourse hdeclared
  · cases hfinish

theorem callActs (d : Dialect) : (coursing d).CallActs (fun _ => True) where
  define name f _ := by
    refine Simulation.define (lookup functionsName) fun ns s _ t h => ?_
    cases h
    exact .declare s name f ns
  check := Simulation.checkFunction (lookup functionsName)
  function name _ _ h :=
    (coursing d).seq (Simulation.functionOf (lookup functionsName) name)
      fun callee => h callee (All.trivial callee.body)
  called name arguments _ _ h := called name arguments h

theorem statements (d : Dialect) (limits : Limits) (tokens : List Token) :
    (Program.statements d limits tokens : Run Unit).Courses d :=
  (coursing d).statements (fun _ h => (acts d).exec (callActs d) (.inl rfl) (.inl rfl) h) (All.trivial tokens)

end coursing

/-! ### Programs without functions -/

structure State.Callless (s : State) : Prop where
  functions : s.scope.get? functionsName = some (.functions .empty)
  untyped : s.journal.typeOf? functionsName = none
  uncalled : ∀ callee, .entered callee ∉ s.journal

namespace State.Callless

variable {s : State}

theorem consult (h : s.Callless) (tokens : List Token) : (s.consult tokens).Callless where
  functions := (s.alike_consult tokens).scope ▸ h.functions
  untyped := ((s.alike_consult tokens).types functionsName).trans h.untyped
  uncalled callee := by
    rw [journal_consult]
    simp [Journal.mem_reads, h.uncalled callee]

theorem put (h : s.Callless) {line : Int} {name : String} {v : Value}
    (hrefusal : refusal? .extended line name v s = none) : (s.put name v).Callless := by
  -- The name of the functions is bound and has no type, so nothing can be assigned to it.
  have hname : name ≠ functionsName := by
    rintro rfl
    obtain ⟨type, _, htype⟩ := refusal?_extended_eq_none.mp hrefusal
    have huntyped := htype (Option.isSome_of_eq_some h.functions)
    rw [h.untyped] at huntyped
    cases huntyped
  refine ⟨(s.scope.get?_bind_of_ne hname.symm v).trans h.functions, ?_, fun callee => ?_⟩
  · unfold State.put
    rw [Journal.typeOf?_cons, h.untyped]
    split <;> simp [Journal.typeGiven?, hname.symm]
  · unfold State.put
    split <;> simp [h.uncalled callee]

end State.Callless

def calllessness : Simulation Run Run where
  Rel x _ := ∀ s a t, x.run s = (.ok a, t) → s.Callless → t.Callless
  ret a s b t h hs := by
    cases h
    exact hs
  seq hx hf s b t h hs := by
    obtain ⟨a, u, hfirst, hthen⟩ := run_bind_eq_ok h
    exact hf a u b t hthen (hx s a u hfirst hs)
  stop fault _ s a t h := by cases h

namespace calllessness

theorem acts : calllessness.Acts .extended .extended (fun t => t.text ≠ "func") where
  lookup t _ := by
    intro s _ u h hs
    cases h
    exact hs
  evaluate _ := by
    intro s v t h hs
    obtain ⟨rfl, _⟩ := State.consult_of_run h
    exact hs.consult _
  log line := by
    intro s _ t h hs
    cases h
    exact ⟨hs.functions, hs.untyped, hs.uncalled⟩
  store u _ v := by
    intro s _ t h hs
    cases hrefusal : refusal? .extended u.line u.text v s with
    | none =>
      rw [run_store_of_none hrefusal] at h
      cases h
      exact hs.put hrefusal
    | some fault =>
      rw [run_store_of_some hrefusal] at h
      cases h

theorem exec (rounds depth : Nat) {tokens : List Token} (h : All (fun t => t.text ≠ "func") tokens) :
    calllessness.Rel (Statement.exec .extended rounds depth tokens) (Statement.exec .extended rounds depth tokens) := by
  induction depth generalizing tokens with
  | zero => exact calllessness.stop _ fun _ => rfl
  | succ depth ih =>
    refine Simulation.statement (fun _ h => ih h) acts (.inl rfl) (fun first rest h => ?_) h
    rw [unmarked_extended _ h.head]
    split
    · exact Simulation.block (fun _ h => ih h) h
    · split
      · intro s _ t hrun hs
        rw [run_call_of_undefined hs.functions rfl] at hrun
        cases hrun
      · exact Simulation.assign acts h

end calllessness

namespace Program

variable {d : Dialect} {limits : Limits} {code : String} {tokens : List Token} {s : State}

theorem run_statements_of_ok (htokens : Token.tokenize d code = .ok tokens)
    (h : (run d limits code s).1.result.isOk) :
    (statements d limits tokens : Run Unit).run (start d { s with logs := [] }) =
      (.ok (), (run d limits code s).2) := by
  rw [run_of_tokens htokens] at h ⊢
  rcases hrun : (statements d limits tokens : Run Unit).run (start d { s with logs := [] }) with ⟨result, t⟩
  rw [hrun] at h
  cases result with
  | error fault => cases h
  | ok => rfl

theorem course_of_ok (h : (run d limits code s).1.result.isOk) :
    Course d (start d { s with logs := [] }) (run d limits code s).2 := by
  cases htokens : Token.tokenize d code with
  | error stuck =>
    rw [run_of_stuck htokens] at h
    cases h
  | ok tokens => exact coursing.statements d limits tokens _ _ _ (run_statements_of_ok htokens h)

theorem not_entered (htokens : Token.tokenize .extended code = .ok tokens) (hfunc : ∀ t ∈ tokens, t.text ≠ "func")
    (h : (run .extended limits code {}).1.result.isOk) (callee : String) :
    .entered callee ∉ (run .extended limits code {}).2.journal := by
  have hstart : (start .extended {}).Callless := ⟨rfl, rfl, fun _ => List.not_mem_nil⟩
  have hstatements := calllessness.statements (fun _ h => calllessness.exec limits.rounds limits.depth h) hfunc
  exact (hstatements _ _ _ (run_statements_of_ok htokens h) hstart).uncalled callee

end Program

end Bang
