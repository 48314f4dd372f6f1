import Bang.Proofs.Session
import Bang.Proofs.Usage

/-! When the requests before a request do not show in the answer to it. The journal of a session is never
cleared, so they show in three ways: a program goes on where it would have stopped for something that they
have left; they bring their own unused names into its warnings; or they change the order of its warnings. -/

namespace Bang

namespace Journal

theorem eq_of_enclosed {before name other behind : String} (h : before ++ name ++ behind = before ++ other ++ behind) :
    name = other := by
  have htext := congrArg String.toList h
  rw [String.toList_append, String.toList_append, String.toList_append, String.toList_append,
    List.append_left_inj, List.append_right_inj] at htext
  exact String.toList_injective htext

theorem variableWarning_injective {name other : String} (h : variableWarning name = variableWarning other) :
    name = other := eq_of_enclosed h

theorem functionWarning_injective {name other : String} (h : functionWarning name = functionWarning other) :
    name = other := eq_of_enclosed h

end Journal

namespace Service

open Program

/-- Nothing of an earlier journal shows in the answer to a program of the extended dialect. -/
structure Isolated (limits : Limits) (code : String) (earlier : Journal) : Prop where
  unsettled : ∀ fault, (run .extended limits code {}).1.result = .error fault → earlier.settles fault = false
  hidden : (run .extended limits code {}).1.result = .ok () →
    isWritable (run .extended limits code {}).2.scope.table →
      Mark.Hidden (!Journal.isInternal ·) (run .extended limits code {}).2.journal.variableMarks
          earlier.variableMarks ∧
        Mark.Hidden (fun _ => true) (run .extended limits code {}).2.journal.functionMarks earlier.functionMarks

variable {limits : Limits} {code : String} {s : State} {r : Request}

theorem respond_eq_iff {earlier : Journal} {fresh later : Outcome × State} (h : Echoes earlier fresh later) :
    respond later = respond fresh ↔
      (fresh.1.result = .ok () → isWritable fresh.2.scope.table →
        later.2.journal.unusedVariables = fresh.2.journal.unusedVariables ∧
          later.2.journal.unusedFunctions = fresh.2.journal.unusedFunctions) := by
  cases hresult : fresh.1.result with
  | error fault =>
    rw [respond_of_error hresult, respond_of_error (h.outcome ▸ hresult)]
    refine ⟨fun _ hok => ?_, fun _ => rfl⟩
    cases hok
  | ok =>
    unfold respond
    rw [h.outcome, h.scope hresult, h.logs, hresult]
    by_cases hwritable : isWritable fresh.2.scope.table
    · have hvariables (us vs : List String) :
          us.map Journal.variableWarning = vs.map Journal.variableWarning ↔ us = vs :=
        List.map_inj_right fun _ _ => Journal.variableWarning_injective
      have hfunctions (us vs : List String) :
          us.map Journal.functionWarning = vs.map Journal.functionWarning ↔ us = vs :=
        List.map_inj_right fun _ _ => Journal.functionWarning_injective
      simp [hwritable, hvariables, hfunctions]
    · simp [hwritable]

theorem result_of_respond {x : Outcome × State} {fault : Fault} {earlier : Journal}
    (hsettles : earlier.settles fault) (h : respond x = .ofFault fault) : x.1.result = .error fault := by
  -- Only a failed look-up can be settled, which is neither reported to the user nor a text too long to write.
  have hfailed : Response.ofFault fault = .failed (.fault fault) ∧ fault ≠ .crash .longText := by
    unfold Journal.settles at hsettles
    split at hsettles
    · exact ⟨rfl, by simp⟩
    · exact ⟨rfl, by simp⟩
    · cases hsettles
  rw [hfailed.1] at h
  unfold respond at h
  split at h
  · rename_i other hresult
    rw [hresult]
    unfold Response.ofFault at h
    split at h
    · cases h
    · injection h with h
      injection h with h
      rw [h]
  · split at h
    · cases h
    · injection h with h
      injection h with h
      exact absurd h.symm hfailed.2

theorem isolated_iff_of_echoes
    (h : Echoes s.journal (run .extended limits code {}) (run .extended limits code s))
    (hunsettled : ∀ fault, (run .extended limits code {}).1.result = .error fault →
      s.journal.settles fault = false) :
    respond (run .extended limits code s) = respond (run .extended limits code {}) ↔
      Isolated limits code s.journal := by
  rw [respond_eq_iff h]
  unfold Journal.unusedVariables Journal.unusedFunctions
  rw [h.journal, Journal.variableMarks_append, Journal.functionMarks_append, Mark.unused_append_eq_iff,
    Mark.unused_append_eq_iff]
  exact ⟨fun hhidden => ⟨hunsettled, hhidden⟩, fun hisolated => hisolated.hidden⟩

theorem respond_run_eq_iff :
    respond (run .extended limits code s) = respond (run .extended limits code {}) ↔
      Isolated limits code s.journal := by
  by_cases hunsettled : ∀ fault, (run .extended limits code {}).1.result = .error fault →
      s.journal.settles fault = false
  · exact isolated_iff_of_echoes (echoes_run hunsettled) hunsettled
  · -- The program stops in a fresh session for something that this session has, so here it does not.
    refine ⟨fun hsame => ?_, fun hisolated => absurd hisolated.unsettled hunsettled⟩
    refine absurd (fun fault hfresh => ?_) hunsettled
    cases hsettles : s.journal.settles fault with
    | false => rfl
    | true =>
      rw [respond_of_error hfresh] at hsame
      have hlater := result_of_respond hsettles hsame
      rw [← (settles_run hlater).1, hsettles]

theorem handle_eq_iff :
    (handle .extended limits r s).1 = (handle .extended limits r {}).1 ↔
      ∀ code, r.program? = some code → Isolated limits code s.journal := by
  cases hprogram : r.program? with
  | none =>
    refine ⟨fun _ code hcode => ?_, fun _ => (handle_of_no_program hprogram).1⟩
    cases hcode
  | some code =>
    rw [handle_of_program hprogram, handle_of_program hprogram, respond_run_eq_iff]
    refine ⟨fun h other hother => ?_, fun h => h code rfl⟩
    obtain rfl : code = other := Option.some.inj hother
    exact h

theorem serve_append (d : Dialect) (limits : Limits) (rs : List Request) (r : Request) (s : State) :
    (serve d limits (rs ++ [r]) s).1 =
      (serve d limits rs s).1 ++ [(handle d limits r (serve d limits rs s).2).1] := by
  induction rs generalizing s with
  | nil => rfl
  | cons first rest ih => exact congrArg (List.cons _) (ih _)

/-- The last of a list of requests is answered as in a fresh session exactly if nothing that the
others have left shows in the answer to its program. -/
theorem last_response_eq_fresh_iff (limits : Limits) (rs : List Request) (r : Request) :
    (serve .extended limits (rs ++ [r]) {}).1.getLast? = some (handle .extended limits r {}).1 ↔
      ∀ code, r.program? = some code → Isolated limits code (serve .extended limits rs {}).2.journal := by
  rw [serve_append, List.getLast?_append, List.getLast?_singleton, Option.some_or, Option.some.injEq]
  exact handle_eq_iff

def Response.warnings : Response → List String
  | .compiled report => report.warnings
  | _ => []

/-- The second program uses all that it brings in, and is warned of a variable of the first one. -/
theorem stale_warning :
    let first := Request.ofCode "INICIO x=1! FIN"
    let second := Request.ofCode "INICIO y=1! print(y)! FIN"
    (serve .extended ⟨5, 5⟩ [first, second] {}).1.map Response.warnings =
        [["⚠️ Variable \"x\" declarada pero no usada"], ["⚠️ Variable \"x\" declarada pero no usada"]] ∧
      (handle .extended ⟨5, 5⟩ second {}).1.warnings = [] ∧
        (serve .extended ⟨5, 5⟩ [first, second] {}).1.getLast? ≠ some (handle .extended ⟨5, 5⟩ second {}).1 := by
  intro first second
  have hserved : (serve .extended ⟨5, 5⟩ [first, second] {}).1.map Response.warnings =
      [["⚠️ Variable \"x\" declarada pero no usada"], ["⚠️ Variable \"x\" declarada pero no usada"]] := by
    decide +kernel
  have hfresh : (handle .extended ⟨5, 5⟩ second {}).1.warnings = [] := by decide +kernel
  refine ⟨hserved, hfresh, fun hlast => ?_⟩
  have hwarnings := congrArg (Option.map Response.warnings) hlast
  rw [← List.getLast?_map, hserved, Option.map_some, hfresh] at hwarnings
  cases hwarnings

end Service

end Bang
