import Bang.Proofs.Leftover
import Bang.Service.Compile

/-! Requests to a service that has answered others before. What a request can show of them is what its run
shows on top of their journal. -/

namespace Bang.Service

open Program

variable {d : Dialect} {limits : Limits} {r : Request} {code : String} {s : State}

def Request.ofCode (code : String) : Request := ⟨"POST", .json (.obj [("code", .str code)])⟩

def Request.program? (r : Request) : Option String := r.code.toOption.filter (· != "")

section

variable {run : String → State → Outcome × State}

theorem handleBy_of_program (h : r.program? = some code) :
    handleBy run r s = (respond (run code s), (run code s).2) := by
  unfold Request.program? at h
  unfold handleBy
  cases hcode : r.code with
  | error response =>
    rw [hcode] at h
    cases h
  | ok given =>
    rw [hcode] at h
    obtain ⟨heq, hne⟩ := Option.filter_eq_some_iff.mp h
    obtain rfl : given = code := Option.some.inj heq
    exact if_neg (by simpa using hne)

theorem handleBy_of_no_program (h : r.program? = none) :
    (handleBy run r s).1 = (handleBy run r {}).1 ∧ (handleBy run r s).2.journal = s.journal := by
  unfold Request.program? at h
  unfold handleBy
  cases hcode : r.code with
  | error response => exact ⟨rfl, rfl⟩
  | ok given =>
    rw [hcode] at h
    have hempty : given = "" := by simpa using Option.filter_eq_none_iff.mp h given rfl
    subst hempty
    exact ⟨rfl, rfl⟩

end

theorem handle_of_program (h : r.program? = some code) :
    handle d limits r s = (respond (run d limits code s), (run d limits code s).2) := handleBy_of_program h

theorem handle_of_no_program (h : r.program? = none) :
    (handle d limits r s).1 = (handle d limits r {}).1 ∧ (handle d limits r s).2.journal = s.journal :=
  handleBy_of_no_program h

theorem respond_of_error {x : Outcome × State} {fault : Fault} (h : x.1.result = .error fault) :
    respond x = .ofFault fault := by
  unfold respond
  rw [h]

theorem respond_of_echoes {earlier : Journal} {fresh later : Outcome × State} (h : Echoes earlier fresh later)
    (hvariables : later.2.journal.unusedVariables = fresh.2.journal.unusedVariables)
    (hfunctions : later.2.journal.unusedFunctions = fresh.2.journal.unusedFunctions) :
    respond later = respond fresh := by
  cases hresult : fresh.1.result with
  | error fault => rw [respond_of_error hresult, respond_of_error (h.outcome ▸ hresult)]
  | ok =>
    unfold respond
    rw [h.outcome, h.scope hresult, h.logs, hvariables, hfunctions]

end Bang.Service
