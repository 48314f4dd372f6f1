import Bang.Proofs.Simulation
import Bang.Proofs.Steps

/-! What a program does to its table and its lines depends on the journal only through the types and the
declarations recorded there. So evaluating an expression, which adds only what it has read, changes
nothing for the statements that follow. -/

namespace Bang

open Machine Run Statement

theorem Journal.typeGiven?_of_isPassing {event : Event} (h : event.isPassing) (name : String) :
    typeGiven? name event = none := by
  cases event <;> first | rfl | cases h

/-- Two states that statements cannot tell apart. -/
structure State.Alike (s t : State) : Prop where
  scope : t.scope = s.scope
  logs : t.logs = s.logs
  types : ∀ name, t.journal.typeOf? name = s.journal.typeOf? name
  declared : ∀ name, t.journal.isDeclared name = s.journal.isDeclared name

namespace State.Alike

variable {s t u : State}

theorem refl (s : State) : s.Alike s := ⟨rfl, rfl, fun _ => rfl, fun _ => rfl⟩

theorem symm (h : s.Alike t) : t.Alike s :=
  ⟨h.scope.symm, h.logs.symm, fun name => (h.types name).symm, fun name => (h.declared name).symm⟩

theorem trans (h : s.Alike t) (h' : t.Alike u) : s.Alike u :=
  ⟨h'.scope.trans h.scope, h'.logs.trans h.logs, fun name => (h'.types name).trans (h.types name),
    fun name => (h'.declared name).trans (h.declared name)⟩

theorem log (h : s.Alike t) (line : String) : (s.log line).Alike (t.log line) :=
  ⟨h.scope, congrArg (· ++ [line]) h.logs, h.types, h.declared⟩

theorem note (h : s.Alike t) (event : Event) : (s.note event).Alike (t.note event) where
  scope := h.scope
  logs := h.logs
  types name := by
    change Journal.typeOf? (event :: t.journal) name = Journal.typeOf? (event :: s.journal) name
    rw [Journal.typeOf?_cons, Journal.typeOf?_cons, h.types]
  declared name := congrArg (Journal.declares name event || ·) (h.declared name)

theorem note_passing (s : State) {event : Event} (h : event.isPassing) : s.Alike (s.note event) where
  scope := rfl
  logs := rfl
  types name := by
    change Journal.typeOf? (event :: s.journal) name = _
    rw [Journal.typeOf?_cons, Journal.typeGiven?_of_isPassing h, Option.none_or]
  declared name := by
    have hdeclares : Journal.declares name event = false := by cases event <;> first | rfl | cases h
    change (Journal.declares name event || s.journal.isDeclared name) = _
    rw [hdeclares, Bool.false_or]

theorem put (h : s.Alike t) (name : String) (v : Value) : (s.put name v).Alike (t.put name v) := by
  have hnoted := h.note (if (s.scope.get? name).isSome then .updated name v else .created name v)
  refine ⟨congrArg (Scope.bind · name v) h.scope, h.logs, ?_, ?_⟩
  · intro other
    simpa only [State.put, State.note, h.scope] using hnoted.types other
  · intro other
    simpa only [State.put, State.note, h.scope] using hnoted.declared other

theorem declare (h : s.Alike t) (name : String) (f g : Function) (ns : Namespace) :
    (s.declare name f ns).Alike (t.declare name g ns) := by
  have hnoted := h.note (.declared name f)
  exact ⟨congrArg (Scope.withFunctions · ns) h.scope, h.logs, hnoted.types, hnoted.declared⟩

theorem enter (h : s.Alike t) (arguments : List (String × Value)) :
    (s.enter arguments).Alike (t.enter arguments) :=
  ⟨congrArg (Scope.enter · arguments) h.scope, h.logs, h.types, h.declared⟩

theorem leave {s' t' : State} (h : s.Alike t) (h' : s'.Alike t') : (s.leave s').Alike (t.leave t') where
  scope := by
    change t.scope.leave t'.scope = s.scope.leave s'.scope
    rw [h.scope, h'.scope]
  logs := h'.logs
  types := h'.types
  declared := h'.declared

theorem refusal? (h : s.Alike t) (d : Dialect) (line : Int) (name : String) (v : Value) :
    refusal? d line name v t = refusal? d line name v s := by
  unfold Statement.refusal?
  rw [h.scope, h.types]

end State.Alike

def SameEffect {α : Type} (x y : Except Fault α × State) : Prop := y.1 = x.1 ∧ x.2.Alike y.2

theorem SameEffect.seq {α β : Type} {x y : Run α} {f g : α → Run β} {s t : State}
    (h : SameEffect (x.run s) (y.run t))
    (hf : ∀ a s t, s.Alike t → SameEffect ((f a).run s) ((g a).run t)) :
    SameEffect ((x >>= f).run s) ((y >>= g).run t) := by
  rcases hx : x.run s with ⟨result, s'⟩
  rcases hy : y.run t with ⟨result', t'⟩
  rw [hx, hy] at h
  obtain ⟨rfl, halike⟩ : result' = result ∧ s'.Alike t' := h
  cases result' with
  | error fault =>
    rw [run_bind_error hx, run_bind_error hy]
    exact ⟨rfl, halike⟩
  | ok a =>
    rw [run_bind_ok hx, run_bind_ok hy]
    exact hf a s' t' halike

def likeness : Simulation Run Run where
  Rel x y := ∀ s t, s.Alike t → SameEffect (x.run s) (y.run t)
  ret _ _ _ h := ⟨rfl, h⟩
  seq hx hf s t h := (hx s t h).seq hf
  stop _ _ _ _ h := ⟨rfl, h⟩

namespace likeness

theorem change {f : State → State} (hf : ∀ s t : State, s.Alike t → (f s).Alike (f t)) :
    likeness.Rel (change f) (change f) := fun s t h => ⟨rfl, hf s t h⟩

theorem lookup (name : String) : likeness.Rel (lookup? name) (lookup? name) := by
  intro s t h
  exact ⟨congrArg (fun scope => Except.ok (Scope.get? scope name)) h.scope, h⟩

theorem store (d : Dialect) (line : Int) (name : String) (v : Value) :
    likeness.Rel (store d line name v) (store d line name v) := by
  intro s t h
  have hsame := h.refusal? d line name v
  cases hrefused : refusal? d line name v s with
  | none =>
    rw [run_store_of_none hrefused, run_store_of_none (hsame.trans hrefused)]
    exact ⟨rfl, h.put name v⟩
  | some fault =>
    rw [run_store_of_some hrefused, run_store_of_some (hsame.trans hrefused)]
    exact ⟨rfl, h⟩

theorem leaves (d : Dialect) : likeness.Leaves d d (fun _ => True) where
  lookup t _ := lookup t.text
  note event _ := change fun _ _ h => h.note event
  beyond _ := likeness.stop _ fun _ => rfl
  log line := change fun _ _ h => h.log line
  store t _ v := store d t.line t.text v

theorem finishCall (name : String) : likeness.Rel (finishCall name) (finishCall name) := by
  intro s t h
  unfold Statement.finishCall
  rw [run_bind_ok (run_state s), run_bind_ok (run_state t), h.declared name]
  cases s.journal.isDeclared name with
  | true => exact ⟨rfl, h.note _⟩
  | false => exact ⟨rfl, h⟩

theorem callLeaves : likeness.CallLeaves (fun _ => True) := by
  refine .of_lookup (lookup functionsName) (fun name f ns => change fun _ _ h => h.declare name f f ns)
    finishCall ?_
  intro arguments x y hxy s t h
  obtain ⟨hresult, halike⟩ := hxy _ _ (h.enter arguments)
  rw [run_inCall, run_inCall]
  exact ⟨hresult, h.leave halike⟩

theorem exec (d : Dialect) (rounds depth : Nat) (tokens : List Token) :
    likeness.Rel (exec d rounds depth tokens) (exec d rounds depth tokens) :=
  Simulation.exec (leaves d) callLeaves (.inl rfl) (.inl rfl) (All.trivial tokens)

theorem block (d : Dialect) (rounds depth : Nat) (tokens : List Token) :
    likeness.Rel (block (Statement.exec d rounds depth) tokens) (block (Statement.exec d rounds depth) tokens) :=
  Simulation.block (fun _ _ => exec d rounds depth _) (All.trivial tokens)

end likeness

/-! ### Evaluating an expression -/

def Run.Quiet {α : Type} (x : Run α) : Prop := ∀ s : State, s.Alike (x.run s).2

namespace Run.Quiet

variable {α β : Type}

theorem ret (a : α) : (pure a : Run α).Quiet := State.Alike.refl

theorem stop (fault : Fault) : (fail fault : Run α).Quiet := State.Alike.refl

theorem seq {x : Run α} {f : α → Run β} (hx : x.Quiet) (hf : ∀ a, (f a).Quiet) : (x >>= f).Quiet :=
  fun s => run_bind_trans (R := State.Alike) State.Alike.trans (hx s) hf

theorem note {event : Event} (h : event.isPassing) : (note event : Run Unit).Quiet := fun s => .note_passing s h

theorem lookup (name : String) : (lookup? name : Run (Option Binding)).Quiet := State.Alike.refl

theorem tokenText (t : Token) : (tokenText t : Run (List Char)).Quiet := by
  unfold Statement.tokenText
  split
  · refine seq (lookup t.text) fun binding => ?_
    cases binding with
    | none => exact stop _
    | some binding =>
      refine seq (note rfl) fun _ => ?_
      cases operandText? binding.toValue with
      | none => exact stop _
      | some text => exact ret text
  · exact ret _
  · exact ret _
  · exact ret _
  · exact stop _

theorem formulaText (tokens : List Token) : (formulaText tokens : Run (List Char)).Quiet := by
  induction tokens with
  | nil => exact ret []
  | cons t ts ih => exact seq (tokenText t) fun text => seq ih fun rest => ret (text ++ rest)

theorem evaluate (tokens : List Token) : (evaluate tokens : Run Value).Quiet := by
  refine seq (note rfl) fun _ => seq (formulaText tokens) fun text => ?_
  split
  · exact ret _
  · exact stop _
  · exact stop _

theorem evaluateAll (parts : List (List Token)) : (evaluateAll parts : Run (List Value)).Quiet := by
  induction parts with
  | nil => exact ret []
  | cons tokens rest ih => exact seq (evaluate tokens) fun v => seq ih fun vs => ret (v :: vs)

theorem arguments (tokens : List Token) : (arguments tokens : Run (List Value)).Quiet := evaluateAll _

theorem scope_of_run {x : Run α} (h : x.Quiet) {s t : State} {a : α} (hrun : x.run s = (.ok a, t)) :
    t.scope = s.scope := by
  have halike := h s
  rw [hrun] at halike
  exact halike.scope

end Run.Quiet

def tableReading : Simulation Run Run where
  Rel x y := ∀ s t, t.scope.table = s.scope.table →
    (y.run t).1 = (x.run s).1 ∧ (y.run t).2.scope.table = (x.run s).2.scope.table
  ret _ _ _ h := ⟨rfl, h⟩
  seq {_ _ x y _ _} hx hf s t h := by
    obtain ⟨hresult, htable⟩ := hx s t h
    rcases hs : x.run s with ⟨result, s'⟩
    rcases ht : y.run t with ⟨result', t'⟩
    rw [hs, ht] at hresult htable
    obtain rfl : result' = result := hresult
    cases result' with
    | error fault =>
      rw [run_bind_error hs, run_bind_error ht]
      exact ⟨rfl, htable⟩
    | ok a =>
      rw [run_bind_ok hs, run_bind_ok ht]
      exact hf a s' t' htable
  stop _ _ _ _ h := ⟨rfl, h⟩

theorem tableReading.leaves : tableReading.Leaves .basic .basic (fun _ => True) where
  lookup t _ s u h := ⟨congrArg (fun table => Except.ok (Assoc.get? table t.text)) h, h⟩
  note _ _ _ _ h := ⟨rfl, h⟩
  beyond _ _ _ h := ⟨rfl, h⟩
  log _ _ _ h := ⟨rfl, h⟩
  store t _ v s u h := by
    rw [run_store_of_none (d := .basic) rfl, run_store_of_none (d := .basic) rfl]
    have htable : u.scope.table.insert t.text (.ofValue t.text v) =
        s.scope.table.insert t.text (.ofValue t.text v) := by
      rw [h]
    exact ⟨rfl, htable⟩

def State.EvaluatesTo (s : State) (tokens : List Token) (v : Value) : Prop :=
  ((evaluate tokens : Run Value).run s).1 = .ok v

namespace State

variable {s : State} {tokens : List Token} {v : Value}

def truth? (s : State) (tokens : List Token) : Option Bool :=
  match ((evaluate tokens : Run Value).run s).1 with
  | .ok (.bool b) => some b
  | _ => none

theorem truth?_eq_some_iff {b : Bool} : s.truth? tokens = some b ↔ s.EvaluatesTo tokens (.bool b) := by
  unfold truth? EvaluatesTo
  split
  · rename_i c hvalue
    simp [hvalue]
  · rename_i hother
    simp only [reduceCtorEq, false_iff]
    exact hother b

instance (b : Bool) : Decidable (s.EvaluatesTo tokens (.bool b)) := decidable_of_iff _ truth?_eq_some_iff

theorem EvaluatesTo.run (h : s.EvaluatesTo tokens v) :
    ∃ t, (evaluate tokens : Run Value).run s = (.ok v, t) ∧ s.Alike t :=
  ⟨_, Prod.ext h rfl, Run.Quiet.evaluate tokens s⟩

theorem EvaluatesTo.congr {t : State} (h : s.EvaluatesTo tokens v) (htable : t.scope.table = s.scope.table) :
    t.EvaluatesTo tokens v :=
  (Simulation.evaluate tableReading.leaves (All.trivial tokens) s t htable).1.trans h

end State

end Bang
