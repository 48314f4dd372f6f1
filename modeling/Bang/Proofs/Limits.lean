import Bang.Proofs.Simulation

/-! Limits only cut runs short: what a run does before it is exhausted, it does under all larger limits. -/

namespace Bang

open Machine Run

def Run.Extends {α : Type} (x y : Run α) : Prop :=
  ∀ s, (x.run s).1 = .error .exhausted ∨ y.run s = x.run s

def limitSimulation : Simulation Run Run where
  Rel := Run.Extends
  ret _ _ := .inr rfl
  seq {_ _ x y f g} hx hf s := by
    rcases h : x.run s with ⟨result, t⟩
    cases result with
    | error fault =>
      rw [run_bind_error h]
      -- Exhaustion is passed on; any other fault is also the fault of the second computation.
      rcases hx s with hs | hs
      · rw [h] at hs
        obtain rfl : fault = .exhausted := Except.error.inj hs
        exact .inl rfl
      · exact .inr (run_bind_error (hs.trans h))
    | ok a =>
      rw [run_bind_ok h]
      rcases hx s with hs | hs
      · rw [h] at hs
        cases hs
      · rw [run_bind_ok (hs.trans h)]
        exact hf a t
  stop _ _ _ := .inr rfl

namespace limitSimulation

theorem leaves (d : Dialect) : limitSimulation.Leaves d d (fun _ => True) where
  lookup _ _ _ := .inr rfl
  note _ _ _ := .inr rfl
  beyond _ _ := .inr rfl
  log _ _ := .inr rfl
  store _ _ _ _ := .inr rfl

theorem callLeaves : limitSimulation.CallLeaves (fun _ => True) := by
  refine .of_lookup (fun _ => .inr rfl) (fun _ _ _ _ => .inr rfl) (fun _ _ => .inr rfl) ?_
  intro arguments x y hxy s
  rcases hxy (s.enter arguments) with h | h
  · exact .inl h
  · right
    rw [run_inCall, run_inCall, h]

theorem allows {k l : Nat} (h : k ≤ l) : limitSimulation.Allows k l := .inr ⟨h, fun _ _ => .inl rfl⟩

end limitSimulation

namespace Program

theorem run_eq_of_le {d : Dialect} {limits larger : Limits} {code : String} {s : State}
    (hdepth : limits.depth ≤ larger.depth) (hrounds : limits.rounds ≤ larger.rounds)
    (h : (run d limits code s).1.result ≠ .error .exhausted) :
    run d larger code s = run d limits code s := by
  cases htokens : Token.tokenize d code with
  | error stuck => rw [run_of_stuck htokens, run_of_stuck htokens]
  | ok tokens =>
    have hstatements := Simulation.program (limitSimulation.leaves d) limitSimulation.callLeaves
      (limitSimulation.allows hrounds) (limitSimulation.allows hdepth) tokens (start d { s with logs := [] })
    rcases hrun : (statements d limits tokens : Run Unit).run (start d { s with logs := [] }) with ⟨result, t⟩
    rw [hrun] at hstatements
    cases result with
    | ok =>
      rcases hstatements with hex | heq
      · cases hex
      · rw [run_of_ok htokens hrun, run_of_ok htokens heq]
    | error fault =>
      rw [run_of_error htokens hrun] at h
      rcases hstatements with hex | heq
      · exact absurd hex h
      · rw [run_of_error htokens hrun, run_of_error htokens heq]

end Program

end Bang
