import Bang.Proofs.Guard
import Bang.Proofs.Hosting
import Bang.Proofs.Token.Shape

/-! The faults of the basic dialect. No statement of a program can stop it other than by a report to its user, by
exhaustion or at the limit on the digits of integers; only a program without tokens fails otherwise. -/

namespace Bang

open Machine Run Statement

theorem wellNumbered_unstarted {d : Dialect} {code : String} {tokens : List Token}
    (h : Token.tokenize d code = .ok tokens) : WellNumbered (unstarted tokens) :=
  fun _ ht hkind => Token.isNumeral_of_tokenize h (List.mem_filter.mp ht).1 hkind

def plainness : Guard where
  Inv _ := True
  Allows fault _ := fault.Plain

namespace plainness

variable {whole : List Token}

theorem leaves (h : WellNumbered whole) : plainness.Leaves .basic whole where
  numerals := h
  plain hplain _ := hplain
  note _ _ := id
  log _ _ := id
  store _ _ _ _ := .of_ok (run_store_of_none rfl) True.intro (List.suffix_cons _ _)

theorem exec (h : WellNumbered whole) (rounds depth : Nat) {tokens : List Token} (htokens : IsStatement whole tokens)
    (s : State) : (exec .basic rounds depth tokens : Run Unit).Guarded plainness s := by
  refine Guard.exec (leaves h) rounds (fun depth ih first rest hstatement s hs => ?_) depth htokens True.intro
  rw [unmarked_basic]
  split
  · exact Guard.block (leaves h) ih hstatement.isInfix hs
  · exact Guard.assign (leaves h) hstatement.isInfix hs

end plainness

namespace Program

variable {limits : Limits} {code : String} {s : State}

theorem plain_of_tokens {tokens : List Token} {fault : Fault} (htokens : Token.tokenize .basic code = .ok tokens)
    (hne : tokens ≠ []) (h : (run .basic limits code s).1.result = .error fault) : fault.Plain := by
  have hnumerals := wellNumbered_unstarted htokens
  have hguarded : (statements .basic limits tokens : Run Unit).Guarded plainness (start .basic { s with logs := [] }) :=
    Guard.statements (plainness.leaves hnumerals) hne
      (fun hpart _ => plainness.exec hnumerals limits.rounds limits.depth hpart _) True.intro
  exact Guard.allows_of_run htokens hguarded h

theorem run_of_no_tokens {d : Dialect} (h : Token.tokenize d code = .ok []) :
    (run d limits code s).1.result = .error (.crash .noToken) := by
  rw [run_of_tokens h]
  rfl

theorem result_of_basic (hended : (run .basic limits code s).1.result ≠ .error .exhausted)
    (hwithin : (run .basic limits code s).1.result ≠ .error .beyond) :
    ((run .basic limits code s).1.result = .ok () ∨
      (∃ d, (run .basic limits code s).1.result = .error (.diagnostic d)) ∨
      (run .basic limits code s).1.result = .error (.crash .noToken) ∨
      (∃ digits, Text.digitLimit < digits ∧
        (run .basic limits code s).1.result = .error (.crash (.longInteger digits))) ∨
      (run .basic limits code s).1.result = .error (.crash .longText)) ∧
    ((run .basic limits code s).1.result = .error (.crash .noToken) ↔ Token.tokenize .basic code = .ok []) := by
  cases htokens : Token.tokenize .basic code with
  | error stuck =>
    have hresult : (run .basic limits code s).1.result = .error (.diagnostic (.lexical stuck)) := by
      rw [run_of_stuck htokens]
    rw [hresult]
    exact ⟨.inr (.inl ⟨_, rfl⟩), by simp⟩
  | ok tokens =>
    by_cases hne : tokens = []
    · subst hne
      rw [run_of_no_tokens htokens]
      exact ⟨.inr (.inr (.inl rfl)), by simp⟩
    · cases hresult : (run .basic limits code s).1.result with
      | ok => exact ⟨.inl rfl, by simp [hne]⟩
      | error fault =>
        rw [hresult] at hended hwithin
        cases plain_of_tokens htokens hne hresult with
        | diagnostic d => exact ⟨.inr (.inl ⟨d, rfl⟩), by simp [hne]⟩
        | exhausted => exact absurd rfl hended
        | beyond => exact absurd rfl hwithin
        | longInteger hlong => exact ⟨.inr (.inr (.inr (.inl ⟨_, hlong, rfl⟩))), by simp [hne]⟩
        | longText => exact ⟨.inr (.inr (.inr (.inr rfl))), by simp [hne]⟩

/-- In every host, a run of the basic dialect that keeps to the language and ends succeeds, reports
to its user, or reaches the limit on the digits of an integer; it fails for want of a token exactly
if the program has none. -/
theorem basic_outcome (h : Host) (limits : Limits) (code : String) (s : State)
    (hcontained : Contained h .basic limits code s) (hended : (run .basic limits code s).1.result ≠ .error .exhausted) :
    ((runOn h .basic limits code s).1.result = .ok () ∨
      (∃ d, (runOn h .basic limits code s).1.result = .error (.diagnostic d)) ∨
      (runOn h .basic limits code s).1.result = .error (.crash .noToken) ∨
      (∃ digits, Text.digitLimit < digits ∧
        (runOn h .basic limits code s).1.result = .error (.crash (.longInteger digits))) ∨
      (runOn h .basic limits code s).1.result = .error (.crash .longText)) ∧
    ((runOn h .basic limits code s).1.result = .error (.crash .noToken) ↔ Token.tokenize .basic code = .ok []) := by
  rw [runOn_eq hcontained, told_basic]
  exact result_of_basic hended hcontained.within

theorem basic_outcome_of_undefined :
    let code := "INICIO x=1! if (x==1) \x7b print(x)! print(x+y)! \x7d FIN"
    (runOn .standard .basic ⟨5, 5⟩ code {}).2.logs = ["1"] ∧
      ((∃ d, (runOn .standard .basic ⟨5, 5⟩ code {}).1.result = .error (.diagnostic d)) ∨
        (∃ digits, Text.digitLimit < digits ∧
          (runOn .standard .basic ⟨5, 5⟩ code {}).1.result = .error (.crash (.longInteger digits))) ∨
        (runOn .standard .basic ⟨5, 5⟩ code {}).1.result = .error (.crash .longText)) := by
  intro code
  have hrun : (runOn .standard .basic ⟨5, 5⟩ code {}).2.logs = ["1"] ∧
      (runOn .standard .basic ⟨5, 5⟩ code {}).1.result ≠ .ok () ∧
        (run .basic ⟨5, 5⟩ code {}).1.result ≠ .error .beyond ∧
          (run .basic ⟨5, 5⟩ code {}).1.result ≠ .error .exhausted := by decide +kernel
  have htokens : Token.tokenize .basic code ≠ .ok [] := by decide +kernel
  obtain ⟨hlogs, hfails, hwithin, hended⟩ := hrun
  obtain ⟨houtcome, hnone⟩ := basic_outcome .standard ⟨5, 5⟩ code {} (.standard hwithin) hended
  refine ⟨hlogs, ?_⟩
  rcases houtcome with hok | hreported | hempty | hlong
  · exact absurd hok hfails
  · exact .inl hreported
  · exact absurd (hnone.mp hempty) htokens
  · exact .inr hlong

/-- An expression can fail for a reason that cannot be put into words, and then its fault is not
reported. -/
theorem reason_unsaid :
    (runOn .standard .basic ⟨5, 5⟩
      ("INICIO x=" ++ Reach.expression "==\x7b\x7d[type('A',(),\x7b'__repr__':int\x7d)()]" ++ "! FIN") {}).1.result =
        .error (.crash (.unsaid .int)) := by
  decide +kernel

end Program

end Bang
