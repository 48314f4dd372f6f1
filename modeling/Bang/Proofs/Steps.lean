import Bang.Program

/-! The steps in which statements touch the state, on the machine that programs run on. -/

namespace Bang

open Machine Statement

variable {d : Dialect} {line : Int} {name : String} {v : Value} {s : State} {fault : Fault}

theorem refusal?_extended_eq_none :
    refusal? .extended line name v s = none ↔
      ∃ type, v.type? = some type ∧ ((s.scope.get? name).isSome → s.journal.typeOf? name = some type) := by
  unfold refusal?
  cases htype : v.type? with
  | none => simp
  | some type =>
    cases hold : s.journal.typeOf? name with
    | none => simp
    | some old => by_cases hsame : old = type <;> simp [hsame]

theorem refusal?_eq_some (h : refusal? d line name v s = some fault) :
    fault = .diagnostic (.typeUnsupported v.kind) ∨
      (∃ old new, fault = .diagnostic (.typeChanged line name old new)) ∨
        fault = .crash (.untypedName name) ∧ (s.scope.get? name).isSome ∧ s.journal.typeOf? name = none := by
  unfold refusal? at h
  split at h
  · cases h
  · exact .inl (Option.some.inj h).symm
  · split at h
    · rename_i type _ hknown
      split at h
      · rename_i huntyped
        exact .inr (.inr ⟨(Option.some.inj h).symm, hknown, huntyped⟩)
      · rename_i old _
        split at h
        · cases h
        · exact .inr (.inl ⟨old, type, (Option.some.inj h).symm⟩)
    · cases h

theorem assign_of_bracket {m : Type → Type} [Machine m] {first : Token} {rest : List Token}
    (h : rest.head?.any (·.text == "(")) :
    (assign d (first :: rest) : m Unit) = report (.assignmentForm (some first.line)) := by
  unfold assign
  split
  · rename_i heq
    obtain ⟨_, rfl⟩ := List.cons.inj heq
    exact absurd h (by simp)
  · rfl

theorem exec_print {rounds depth : Nat} (hdepth : 0 < depth) {first : Token} (h : first.text = "print")
    (rest : List Token) : (exec d rounds depth (first :: rest) : Run Unit) = print (first :: rest) := by
  obtain ⟨depth, rfl⟩ := Nat.exists_eq_succ_of_ne_zero (Nat.ne_of_gt hdepth)
  simp [exec, statement, h]

theorem bracketed?_of_not_mem {tokens : List Token} (h : bracket ")" line ∉ tokens) :
    bracketed? line tokens = none := by
  have hclosing : tokens.idxOf? (bracket ")" line) = none := List.idxOf?_eq_none_iff.mpr h
  cases hopening : tokens.idxOf? (bracket "(" line) <;> simp [bracketed?, hclosing, hopening]

theorem print_of_not_mem {first : Token} {rest : List Token} (h : bracket ")" first.line ∉ first :: rest) :
    (print (first :: rest) : Run Unit) = report (.printForm first.line) := by
  have hfirst : (firstLine (first :: rest) : Run Int) = pure first.line := rfl
  rw [print, hfirst, pure_bind, bracketed?_of_not_mem h]

theorem Program.get?_initialTable (h : ¬ isReserved name) : (initialTable .extended).get? name = none := by
  rw [isReserved, not_or] at h
  simp [initialTable, Assoc.ofList, Assoc.get?_insert_of_ne _ h.1, Assoc.get?_insert_of_ne _ h.2]
  rfl

namespace Run

theorem run_bind_eq_ok {α β : Type} {x : Run α} {f : α → Run β} {b : β} {t : State}
    (h : (x >>= f).run s = (.ok b, t)) : ∃ a u, x.run s = (.ok a, u) ∧ (f a).run u = (.ok b, t) := by
  rcases hx : x.run s with ⟨result, u⟩
  cases result with
  | error fault =>
    rw [run_bind_error hx] at h
    cases h
  | ok a =>
    rw [run_bind_ok hx] at h
    exact ⟨a, u, rfl, h⟩

theorem run_bind_congr {α β : Type} {x : Run α} {f g : α → Run β}
    (h : ∀ a t, x.run s = (.ok a, t) → (f a).run t = (g a).run t) : (x >>= f).run s = (x >>= g).run s := by
  rcases hx : x.run s with ⟨result, t⟩
  cases result with
  | error fault => rw [run_bind_error hx, run_bind_error hx]
  | ok a => rw [run_bind_ok hx, run_bind_ok hx, h a t hx]

theorem run_bind_trans {R : State → State → Prop} (htrans : ∀ {s t u}, R s t → R t u → R s u) {α β : Type} {x : Run α}
    {f : α → Run β} (hx : R s (x.run s).2) (hf : ∀ a t, R t ((f a).run t).2) : R s ((x >>= f).run s).2 := by
  rcases h : x.run s with ⟨result, t⟩
  rw [h] at hx
  cases result with
  | error fault =>
    rw [run_bind_error h]
    exact hx
  | ok a =>
    rw [run_bind_ok h]
    exact htrans hx (hf a t)

theorem run_lookup? : (lookup? name : Run (Option Binding)).run s = (.ok (s.scope.get? name), s) := rfl

theorem run_note (event : Event) : (note event : Run Unit).run s = (.ok (), s.note event) := rfl

theorem run_store_of_none (h : refusal? d line name v s = none) :
    (store d line name v : Run Unit).run s = (.ok (), s.put name v) := by
  unfold store
  rw [run_bind_ok (run_state s), h]
  rfl

theorem run_store_of_some (h : refusal? d line name v s = some fault) :
    (store d line name v : Run Unit).run s = (.error fault, s) := by
  unfold store
  rw [run_bind_ok (run_state s), h]
  rfl

theorem run_print {first : Token} {rest inner behind : List Token} {t : State} {text : List Char}
    (hbrackets : bracketed? first.line (first :: rest) = some (inner, behind))
    (hvalue : (evaluate inner : Run Value).run s = (.ok v, t)) (htext : v.display = some text) :
    (print (first :: rest) : Run Unit).run s = (.ok (), t.log (String.ofList text)) := by
  have hfirst : (firstLine (first :: rest) : Run Int) = pure first.line := rfl
  rewrite [print, hfirst, pure_bind, hbrackets]
  dsimp only
  rw [run_bind_ok hvalue, htext]
  rfl

theorem run_call_of_undefined {inner : List Token → Run Unit} {first : Token} {rest : List Token}
    {ns : Namespace} (hfunctions : s.scope.get? functionsName = some (.functions ns))
    (hname : ns.get? first.text = none) :
    (call inner (first :: rest) : Run Unit).run s = (.error (.diagnostic (.functionUndefined first.text)), s) := by
  have hcheck : (checkFunction first.text : Run Unit).run s =
      (.error (.diagnostic (.functionUndefined first.text)), s) := by
    unfold checkFunction
    rw [run_bind_ok run_lookup?, hfunctions]
    simp only [hname]
    rfl
  exact run_bind_error hcheck

theorem snd_run_checkFunction (name : String) (s : State) : ((checkFunction name : Run Unit).run s).2 = s := by
  unfold checkFunction
  rw [run_bind_ok run_lookup?]
  split
  · rfl
  · split <;> rfl
  · split
    · split <;> rfl
    · split <;> rfl
    · split <;> rfl
    · rfl

theorem snd_run_functionOf (name : String) (s : State) : ((functionOf name : Run Function).run s).2 = s := by
  unfold functionOf
  rw [run_bind_ok run_lookup?]
  split
  · rfl
  · split <;> rfl
  · rfl

end Run

end Bang
