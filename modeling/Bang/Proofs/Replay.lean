import Bang.Proofs.Hosting
import Bang.Proofs.Session
import Bang.Proofs.Usage

/-! Running the same program again and again. A session keeps its journal from program to program, yet every
run of one program in a fresh session gives the same answer as the first: each run repeats the events of the
first one, and a journal that repeats itself settles no fault and leaves nothing else unused. -/

namespace Bang

def inTurn {α : Type} (step : State → α × State) : Nat → State → List α
  | 0, _ => []
  | n + 1, s => (step s).1 :: inTurn step n (step s).2

theorem inTurn_eq_replicate {α : Type} {step : State → α × State} {a : α} {j : Journal}
    (h : ∀ n s, s.journal = (List.replicate n j).flatten → (step s).1 = a ∧ (step s).2.journal = j ++ s.journal)
    (k : Nat) : inTurn step k {} = List.replicate k a := by
  -- The journal after each turn holds one more copy of the same events.
  have key : ∀ n s, s.journal = (List.replicate n j).flatten → inTurn step k s = List.replicate k a := by
    induction k with
    | zero => exact fun _ _ _ => rfl
    | succ k ih =>
      intro n s hs
      obtain ⟨hanswer, hjournal⟩ := h n s hs
      have hnext : (step s).2.journal = (List.replicate (n + 1) j).flatten := by
        rw [hjournal, hs, List.replicate_succ, List.flatten_cons]
      rw [inTurn, List.replicate_succ, hanswer, ih (n + 1) _ hnext]
  exact key 0 {} rfl

namespace Program

structure Answer where
  outcome : Outcome
  table : Option Table
  logs : List String
  unusedVariables : List String
  unusedFunctions : List String

def answer (x : Outcome × State) : Answer where
  outcome := x.1
  table := x.1.result.toOption.map fun _ => x.2.scope.table
  logs := x.2.logs
  unusedVariables := x.2.journal.unusedVariables
  unusedFunctions := x.2.journal.unusedFunctions

def ask (run : String → State → Outcome × State) (code : String) (s : State) : Answer × State :=
  (answer (run code s), (run code s).2)

end Program

namespace Journal

theorem unusedVariables_repeat (j : Journal) (n : Nat) :
    unusedVariables (j ++ (List.replicate n j).flatten) = unusedVariables j := by
  have hmarks : variableMarks (List.replicate n j).flatten = (List.replicate n (variableMarks j)).flatten := by
    unfold variableMarks
    rw [List.filterMap_flatten, List.map_replicate]
  unfold unusedVariables
  rw [variableMarks_append, hmarks]
  exact Mark.unused_repeat _ n

theorem unusedFunctions_repeat (j : Journal) (n : Nat) :
    unusedFunctions (j ++ (List.replicate n j).flatten) = unusedFunctions j := by
  have hmarks : functionMarks (List.replicate n j).flatten = (List.replicate n (functionMarks j)).flatten := by
    unfold functionMarks
    rw [List.filterMap_flatten, List.map_replicate]
  unfold unusedFunctions
  rw [functionMarks_append, hmarks]
  exact Mark.unused_repeat _ n

end Journal

namespace Program

variable {d : Dialect} {limits : Limits} {code : String} {s : State}

theorem echoes_repeat {n : Nat} (hs : s.journal = (List.replicate n (run d limits code {}).2.journal).flatten) :
    Echoes s.journal (run d limits code {}) (run d limits code s) := by
  refine echoes_run fun fault hfault => ?_
  rw [hs]
  exact Journal.settles_repeat _ (settles_run hfault).2 n

theorem Echoes.answer_eq {earlier : Journal} {fresh later : Outcome × State} (h : Echoes earlier fresh later)
    (hvariables : later.2.journal.unusedVariables = fresh.2.journal.unusedVariables)
    (hfunctions : later.2.journal.unusedFunctions = fresh.2.journal.unusedFunctions) :
    answer later = answer fresh := by
  have htable : (later.1.result.toOption.map fun _ => later.2.scope.table) =
      fresh.1.result.toOption.map fun _ => fresh.2.scope.table := by
    rw [h.outcome]
    cases hresult : fresh.1.result with
    | error fault => rfl
    | ok => rw [h.scope hresult]
  unfold answer
  rw [htable, h.outcome, h.logs, hvariables, hfunctions]

theorem Echoes.told {earlier : Journal} {fresh later : Outcome × State} (h : Echoes earlier fresh later) (host : Host) :
    Echoes earlier (told host d fresh) (told host d later) where
  outcome := by rw [Program.told, Program.told, h.outcome]
  scope hresult := h.scope (ok_of_told hresult)
  logs := h.logs
  journal := h.journal

section

variable {h : Host} {n : Nat}

theorem echoes_hosted (hcontained : Contained h d limits code {})
    (hs : s.journal = (List.replicate n (runOn h d limits code {}).2.journal).flatten) :
    Echoes s.journal (runOn h d limits code {}) (runOn h d limits code s) := by
  rw [runOn_eq hcontained] at hs ⊢
  have hechoes := echoes_repeat hs
  have hlater : Contained h d limits code s := by
    refine ⟨?_, ?_⟩
    · rw [hechoes.outcome]
      exact hcontained.within
    · rw [hechoes.logs]
      exact hcontained.displayed
  rw [runOn_eq hlater]
  exact hechoes.told h

theorem ask_repeat (hcontained : Contained h d limits code {})
    (hs : s.journal = (List.replicate n (ask (runOn h d limits) code {}).2.journal).flatten) :
    (ask (runOn h d limits) code s).1 = (ask (runOn h d limits) code {}).1 ∧
      (ask (runOn h d limits) code s).2.journal = (ask (runOn h d limits) code {}).2.journal ++ s.journal := by
  have hechoes := echoes_hosted hcontained hs
  have hjournal := hs ▸ hechoes.journal
  refine ⟨hechoes.answer_eq ?_ ?_, hechoes.journal⟩
  · exact hjournal ▸ Journal.unusedVariables_repeat _ n
  · exact hjournal ▸ Journal.unusedFunctions_repeat _ n

end

end Program

namespace Service

open Program

variable {h : Host} {d : Dialect} {limits : Limits} {r : Request} {s : State}

theorem handle_repeat {n : Nat} (hcontained : ∀ code, r.program? = some code → Contained h d limits code {})
    (hs : s.journal = (List.replicate n (handleBy (runOn h d limits) r {}).2.journal).flatten) :
    (handleBy (runOn h d limits) r s).1 = (handleBy (runOn h d limits) r {}).1 ∧
      (handleBy (runOn h d limits) r s).2.journal = (handleBy (runOn h d limits) r {}).2.journal ++ s.journal := by
  cases hprogram : r.program? with
  | none =>
    obtain ⟨hresponse, hjournal⟩ := handleBy_of_no_program (s := s) hprogram
    obtain ⟨_, hfresh⟩ := handleBy_of_no_program (s := {}) hprogram
    exact ⟨hresponse, by rw [hjournal, hfresh]; rfl⟩
  | some code =>
    rw [handleBy_of_program hprogram] at hs ⊢
    rw [handleBy_of_program hprogram]
    have hechoes := echoes_hosted (hcontained code hprogram) hs
    have hjournal := hs ▸ hechoes.journal
    refine ⟨respond_of_echoes hechoes ?_ ?_, hechoes.journal⟩
    · exact hjournal ▸ Journal.unusedVariables_repeat _ n
    · exact hjournal ▸ Journal.unusedFunctions_repeat _ n

theorem serve_replicate (run : String → State → Outcome × State) (k : Nat) :
    ∀ s, (serveBy run (List.replicate k r) s).1 = inTurn (handleBy run r) k s := by
  induction k with
  | zero => exact fun _ => rfl
  | succ k ih =>
    intro s
    rw [List.replicate_succ, inTurn, ← ih]
    rfl

/-- In a fresh session of any host, a program that keeps to the language gives the same answer each
time it is run, and so does a request with such a program. -/
theorem replay_gives_same_answers (h : Host) (d : Dialect) (limits : Limits) (n : Nat) :
    (∀ code, Contained h d limits code {} →
      inTurn (ask (runOn h d limits) code) n {} = List.replicate n (ask (runOn h d limits) code {}).1) ∧
    ∀ r : Request, (∀ code, r.program? = some code → Contained h d limits code {}) →
      (serveBy (runOn h d limits) (List.replicate n r) {}).1 =
        List.replicate n (handleBy (runOn h d limits) r {}).1 := by
  constructor
  · intro code hcontained
    exact inTurn_eq_replicate (fun _ _ hs => ask_repeat hcontained hs) n
  · intro r hcontained
    rw [serve_replicate]
    exact inTurn_eq_replicate (fun _ _ hs => handle_repeat hcontained hs) n

def callingTwice : String := "INICIO func f(a)\x7b print(a)! \x7d x=1! f(x)! f(x)! FIN"

theorem replay_of_callingTwice :
    (ask (runOn .standard .extended ⟨6, 6⟩) callingTwice {}).1.logs = ["1", "1"] ∧
      inTurn (ask (runOn .standard .extended ⟨6, 6⟩) callingTwice) 3 {} =
        List.replicate 3 (ask (runOn .standard .extended ⟨6, 6⟩) callingTwice {}).1 ∧
      (serveBy (runOn .standard .extended ⟨6, 6⟩) (List.replicate 3 (.ofCode callingTwice)) {}).1 =
        List.replicate 3 (handleBy (runOn .standard .extended ⟨6, 6⟩) (.ofCode callingTwice) {}).1 := by
  have hclosed : (ask (runOn .standard .extended ⟨6, 6⟩) callingTwice {}).1.logs = ["1", "1"] ∧
      (run .extended ⟨6, 6⟩ callingTwice {}).1.result.isOk ∧
        (Request.ofCode callingTwice).program? = some callingTwice := by decide +kernel
  obtain ⟨hlogs, hok, hprogram⟩ := hclosed
  have hcontained : Contained .standard .extended ⟨6, 6⟩ callingTwice {} := .standard (Hosted.ne_beyond_of_isOk hok)
  obtain ⟨hruns, hrequests⟩ := replay_gives_same_answers .standard .extended ⟨6, 6⟩ 3
  refine ⟨hlogs, hruns callingTwice hcontained, hrequests _ fun code hcode => ?_⟩
  obtain rfl : callingTwice = code := Option.some.inj (hprogram.symm.trans hcode)
  exact hcontained

/-- An expression can tell whether types have been recorded, so the second run stores another text. -/
theorem replay_differs :
    (inTurn (ask (runOn .standard .extended ⟨5, 5⟩)
      ("INICIO x=" ++ Reach.expression ("[" ++ Reach.Place.types.text ++ "==\x7b\x7d]") ++ "! FIN")) 2 {}).map
        (fun given => given.table.bind fun table => (table.get? "x").bind fun x => x.toValue.display) =
      [some ['+'], some ['"']] := by
  decide +kernel

end Service

end Bang
