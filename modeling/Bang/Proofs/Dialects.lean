import Bang.Proofs.Hosting
import Bang.Proofs.Limits
import Bang.Proofs.Steps
import Bang.Proofs.Token.Dialects

/-! The extended dialect refines the basic one. A program that uses no name of the extended dialect's own
does in the basic dialect what it does in the extended one, up to the first fault that only the extended
dialect reports: a value without a type, a change of type, or a call. -/

namespace Bang

open Machine Run Statement

def Token.IsCommon (t : Token) : Prop := t.text ≠ "func" ∧ ¬ isReserved t.text

instance : DecidablePred Token.IsCommon := fun _ => inferInstanceAs (Decidable (_ ∧ _))

def Fault.isTypeFault : Fault → Bool
  | .diagnostic (.typeUnsupported _) | .diagnostic (.typeChanged ..) => true
  | _ => false

def Fault.isUndefinedFunction : Fault → Bool
  | .diagnostic (.functionUndefined _) => true
  | _ => false

/-- How the basic dialect ends where the extended one ends with a fault: after a type fault it goes
on; at a call it ends with a report of its own; otherwise it ends with the same fault. -/
def Departs {α : Type} (fault : Fault) (logs : List String) (result : Except Fault α) (logs' : List String) :
    Prop :=
  fault.isTypeFault ∧ logs <+: logs' ∨
    fault.isUndefinedFunction ∧ (∃ d, result = .error (.diagnostic d)) ∧ logs' = logs ∨
      result = .error fault ∧ logs' = logs

structure Agree (s t : State) : Prop where
  logs : t.logs = s.logs
  entries : s.scope.table.entries = (Program.initialTable .extended).entries ++ t.scope.table.entries
  names : ∀ entry ∈ t.scope.table.entries, ¬ isReserved entry.1
  typed : ∀ name, (t.scope.get? name).isSome → (s.journal.typeOf? name).isSome

namespace Agree

variable {s t : State}

theorem reserved_of_mem {name : String}
    (h : name ∈ (Program.initialTable .extended).entries.map Prod.fst) : isReserved name := by
  have hkeys : (Program.initialTable .extended).entries.map Prod.fst = [functionsName, logsName] := by decide
  rw [hkeys] at h
  simpa [isReserved] using h

theorem get? (h : Agree s t) {name : String} (hname : ¬ isReserved name) :
    s.scope.get? name = t.scope.get? name := by
  change s.scope.table.entries.lookup name = t.scope.table.entries.lookup name
  rw [h.entries]
  exact Assoc.lookup_append (fun hmem => hname (reserved_of_mem hmem)) _

theorem functions (h : Agree s t) : s.scope.get? functionsName = some (.functions .empty) := by
  change s.scope.table.entries.lookup functionsName = _
  rw [h.entries]
  rfl

theorem log (h : Agree s t) (line : String) : Agree (s.log line) (t.log line) where
  logs := by simp [State.log, h.logs]
  entries := h.entries
  names := h.names
  typed := h.typed

theorem note (h : Agree s t) {event : Event} (hpassing : event.isPassing) :
    Agree (s.note event) (t.note event) where
  logs := h.logs
  entries := h.entries
  names := h.names
  typed name hname := by
    have hgiven : Journal.typeGiven? name event = none := by cases event <;> first | rfl | cases hpassing
    change (Journal.typeOf? (event :: s.journal) name).isSome
    rw [Journal.typeOf?_cons, hgiven]
    exact h.typed name hname

theorem put (h : Agree s t) {name : String} (hname : ¬ isReserved name) {v : Value} {type : ValueType}
    (htype : v.type? = some type) : Agree (s.put name v) (t.put name v) where
  logs := h.logs
  entries := by
    change Assoc.put name (.ofValue name v) s.scope.table.entries = _ ++ Assoc.put name _ t.scope.table.entries
    rw [h.entries]
    exact Assoc.put_append (fun hmem => hname (reserved_of_mem hmem)) _ _
  names entry hentry := by
    have hkey : entry.1 ∈ (Assoc.put name (.ofValue name v) t.scope.table.entries).map Prod.fst :=
      List.mem_map_of_mem hentry
    rw [Assoc.map_fst_put] at hkey
    have hold : entry.1 ∈ t.scope.table.entries.map Prod.fst → ¬ isReserved entry.1 := by
      intro hmem
      obtain ⟨old, hmem, heq⟩ := List.mem_map.mp hmem
      exact heq ▸ h.names old hmem
    split at hkey
    · exact hold hkey
    · rcases List.mem_append.mp hkey with hmem | hmem
      · exact hold hmem
      · rw [List.mem_singleton.mp hmem]
        exact hname
  typed other hother := by
    change (Journal.typeOf? (_ :: s.journal) other).isSome
    rw [Journal.typeOf?_cons]
    by_cases hsame : other = name
    · subst hsame
      -- A known name keeps its type, a new one gets it from the event.
      split
      · rename_i hknown
        rw [h.get? hname] at hknown
        exact h.typed other hknown
      · simp [Journal.typeGiven?, htype]
    · have hother : (t.scope.get? other).isSome := by
        rwa [← Scope.get?_bind_of_ne t.scope hsame v]
      have hgiven : Journal.typeGiven? other
          (if (s.scope.get? name).isSome then .updated name v else .created name v) = none := by
        split <;> simp [Journal.typeGiven?, hsame]
      rw [hgiven]
      exact h.typed other hother

end Agree

def Run.Grows {α : Type} (x : Run α) : Prop := ∀ s, s.logs <+: (x.run s).2.logs

def Follows {α : Type} (x y : Except Fault α × State) : Prop :=
  match x.1 with
  | .ok a => y.1 = .ok a ∧ Agree x.2 y.2
  | .error fault => fault = .exhausted ∨ Departs fault x.2.logs y.1 y.2.logs

theorem Grows.seq {α β : Type} {x : Run α} {f : α → Run β} (hx : x.Grows) (hf : ∀ a, (f a).Grows) :
    (x >>= f).Grows := by
  intro s
  have hs := hx s
  rcases h : x.run s with ⟨result, t⟩
  rw [h] at hs
  cases result with
  | error fault =>
    rw [run_bind_error h]
    exact hs
  | ok a =>
    rw [run_bind_ok h]
    exact hs.trans (hf a t)

theorem Departs.seq {α β : Type} {fault : Fault} {logs : List String} {y : Run α} {g : α → Run β} {t : State}
    (h : Departs fault logs (y.run t).1 (y.run t).2.logs) (hg : ∀ a, (g a).Grows) :
    Departs fault logs ((y >>= g).run t).1 ((y >>= g).run t).2.logs := by
  rcases hy : y.run t with ⟨result, t'⟩
  rw [hy] at h
  cases result with
  | ok a =>
    rw [run_bind_ok hy]
    rcases h with ⟨htype, hlogs⟩ | ⟨_, ⟨d, hd⟩, _⟩ | ⟨heq, _⟩
    · exact .inl ⟨htype, hlogs.trans (hg a t')⟩
    · cases hd
    · cases heq
  | error fault' =>
    rw [run_bind_error hy]
    rcases h with h | ⟨hundefined, ⟨d, hd⟩, hlogs⟩ | ⟨heq, hlogs⟩
    · exact .inl h
    · exact .inr (.inl ⟨hundefined, ⟨d, congrArg Except.error (Except.error.inj hd)⟩, hlogs⟩)
    · exact .inr (.inr ⟨congrArg Except.error (Except.error.inj heq), hlogs⟩)

def dialectSimulation : Simulation Run Run where
  -- After a type fault the basic dialect goes on alone, and all that is left to know is that its lines grow.
  Rel x y := y.Grows ∧ ∀ s t, Agree s t → Follows (x.run s) (y.run t)
  ret a := ⟨fun _ => List.prefix_rfl, fun s t h => ⟨rfl, h⟩⟩
  seq {_ _ x y f g} hx hf := by
    refine ⟨Grows.seq hx.1 fun a => (hf a).1, fun s t hst => ?_⟩
    have hfollows := hx.2 s t hst
    rcases h : x.run s with ⟨result, s'⟩
    rw [h] at hfollows
    cases result with
    | ok a =>
      obtain ⟨hresult, hagree⟩ := hfollows
      rw [run_bind_ok h, run_bind_ok (Prod.ext hresult rfl : y.run t = (.ok a, (y.run t).2))]
      exact (hf a).2 s' _ hagree
    | error fault =>
      rw [run_bind_error h]
      rcases hfollows with hex | hdeparts
      · exact .inl hex
      · exact .inr (hdeparts.seq fun a => (hf a).1)
  stop fault _ := ⟨fun _ => List.prefix_rfl, fun s t h => .inr (.inr (.inr ⟨rfl, h.logs⟩))⟩

namespace dialectSimulation

theorem leaves : dialectSimulation.Leaves .extended .basic Token.IsCommon where
  lookup t ht := by
    refine ⟨fun _ => List.prefix_rfl, fun s u h => ⟨?_, h⟩⟩
    exact congrArg Except.ok (h.get? ht.2).symm
  note event hpassing := ⟨fun _ => List.prefix_rfl, fun s t h => ⟨rfl, h.note hpassing⟩⟩
  beyond _ := dialectSimulation.stop _ fun _ => rfl
  log line := ⟨fun _ => List.prefix_append _ _, fun s t h => ⟨rfl, h.log line⟩⟩
  store t ht v := by
    refine ⟨fun _ => List.prefix_rfl, fun s u h => ?_⟩
    rw [run_store_of_none (d := .basic) rfl]
    cases hrefused : refusal? .extended t.line t.text v s with
    | none =>
      obtain ⟨type, htype, _⟩ := refusal?_extended_eq_none.mp hrefused
      rw [run_store_of_none hrefused]
      exact ⟨rfl, h.put ht.2 htype⟩
    | some fault =>
      rw [run_store_of_some hrefused]
      have hlogs : s.logs <+: u.logs := h.logs ▸ List.prefix_rfl
      rcases refusal?_eq_some hrefused with rfl | ⟨old, new, rfl⟩ | ⟨_, hknown, huntyped⟩
      · exact .inr (.inl ⟨rfl, hlogs⟩)
      · exact .inr (.inl ⟨rfl, hlogs⟩)
      · rw [h.get? ht.2] at hknown
        have htyped := h.typed _ hknown
        rw [huntyped] at htyped
        cases htyped

theorem unmarked {inner inner' : List Token → Run Unit}
    (hinner : ∀ tokens, All Token.IsCommon tokens → dialectSimulation.Rel (inner tokens) (inner' tokens))
    {first : Token} {rest : List Token} (h : All Token.IsCommon (first :: rest)) :
    dialectSimulation.Rel (unmarked .extended inner first rest) (unmarked .basic inner' first rest) := by
  rw [unmarked_extended inner h.head.1, unmarked_basic]
  split
  · exact Simulation.block hinner h
  · split
    · rename_i hbracket
      rw [assign_of_bracket hbracket]
      refine ⟨fun _ => List.prefix_rfl, fun s t hst => ?_⟩
      rw [run_call_of_undefined hst.functions rfl]
      exact .inr (.inr (.inl ⟨rfl, ⟨_, rfl⟩, hst.logs⟩))
    · exact Simulation.assign leaves.acts h

theorem exec {rounds depth : Nat} {tokens : List Token} (h : All Token.IsCommon tokens) :
    dialectSimulation.Rel (exec .extended rounds depth tokens) (exec .basic rounds depth tokens) := by
  induction depth generalizing tokens with
  | zero => exact dialectSimulation.stop _ fun _ => rfl
  | succ depth ih =>
    exact Simulation.statement (fun _ h => ih h) leaves.acts (.inl rfl) (fun _ _ h => unmarked (fun _ h => ih h) h) h

end dialectSimulation

def Table.variables (table : Table) : List (String × Binding) :=
  table.entries.filter fun (name, _) => name != functionsName && name != logsName

namespace Program

theorem agree_start (s t : State) (h : t.logs = s.logs) : Agree (start .extended s) (start .basic t) where
  logs := h
  entries := (List.append_nil _).symm
  names _ hmem := absurd hmem List.not_mem_nil
  typed _ hsome := by cases hsome

theorem variables_of_agree {s t : State} (h : Agree s t) :
    s.scope.table.variables = t.scope.table.entries := by
  unfold Table.variables
  have hinitial : (initialTable .extended).entries.filter
      (fun (name, _) => name != functionsName && name != logsName) = [] := rfl
  rw [h.entries, List.filter_append, hinitial, List.nil_append, List.filter_eq_self]
  intro entry hentry
  have hname := h.names entry hentry
  rw [isReserved, not_or] at hname
  simp [hname]

/-- How a run of the basic dialect goes on from one of the extended dialect, whose faults are told
to its user. -/
def Refines (told : Fault → Fault) (x y : Outcome × State) : Prop :=
  match x.1.result with
  | .ok () =>
    y.1.result = .ok () ∧ y.1.tokens.map Token.minified = x.1.tokens.map Token.minified ∧
      y.2.logs = x.2.logs ∧ y.2.scope.table.entries = x.2.scope.table.variables ∧
        x.2.scope.functions? = some .empty
  | .error shown => ∃ fault, shown = told fault ∧ Departs fault x.2.logs y.1.result y.2.logs

theorem Refines.told {x y : Outcome × State} (h : Refines id x y) (host : Host) :
    Refines (host.told .extended) (told host .extended x) y := by
  unfold Refines at h ⊢
  obtain ⟨⟨tokens, result⟩, t⟩ := x
  cases result with
  | ok => exact h
  | error shown =>
    obtain ⟨fault, heq, hdeparts⟩ := h
    obtain rfl : shown = fault := heq
    exact ⟨shown, rfl, hdeparts⟩

theorem refines_of_tokens {limits : Limits} {code : String} {s t : State} {tokens : List Token}
    (hbasic : Token.tokenize .basic code = .ok tokens) (hextended : Token.tokenize .extended code = .ok tokens)
    (hcommon : All Token.IsCommon tokens)
    (hends : (run .extended limits code s).1.result ≠ .error .exhausted) :
    Refines id (run .extended limits code s) (run .basic limits code t) := by
  have hrel : dialectSimulation.Rel (statements .extended limits tokens) (statements .basic limits tokens) :=
    dialectSimulation.statements (fun _ h => dialectSimulation.exec h) hcommon
  have hfollows := hrel.2 _ _ (agree_start { s with logs := [] } { t with logs := [] } rfl)
  rcases hx : (statements .extended limits tokens : Run Unit).run (start .extended { s with logs := [] })
    with ⟨result, s'⟩
  rcases hy : (statements .basic limits tokens : Run Unit).run (start .basic { t with logs := [] })
    with ⟨result', t'⟩
  rw [hx, hy] at hfollows
  cases result with
  | ok =>
    obtain ⟨rfl, hagree⟩ := hfollows
    rw [run_of_ok hextended hx, run_of_ok hbasic hy]
    refine ⟨rfl, rfl, hagree.logs, (variables_of_agree hagree).symm, ?_⟩
    simp only [Scope.functions?, hagree.functions]
  | error fault =>
    rw [run_of_error hextended hx] at hends ⊢
    rcases hfollows with rfl | hdeparts
    · exact absurd rfl hends
    · refine ⟨fault, rfl, ?_⟩
      cases result' with
      | ok => rwa [run_of_ok hbasic hy]
      | error fault' => rwa [run_of_error hbasic hy]

theorem refines_of_ended {code : String} {extended basic : Limits} {s t : State}
    (hcommon : ∀ tokens, Token.tokenize .extended code = .ok tokens → All Token.IsCommon tokens)
    (hextended : (run .extended extended code s).1.result ≠ .error .exhausted)
    (hbasic : (run .basic basic code t).1.result ≠ .error .exhausted) :
    Refines id (run .extended extended code s) (run .basic basic code t) := by
  let limits : Limits := ⟨max extended.depth basic.depth, max extended.rounds basic.rounds⟩
  have hx : run .extended limits code s = run .extended extended code s :=
    run_eq_of_le (Nat.le_max_left _ _) (Nat.le_max_left _ _) hextended
  have hy : run .basic limits code t = run .basic basic code t :=
    run_eq_of_le (Nat.le_max_right _ _) (Nat.le_max_right _ _) hbasic
  rw [← hx] at hextended
  rw [← hx, ← hy]
  have htokens : Token.tokenize .basic code = Token.tokenize .extended code :=
    Token.tokenize_basic_eq fun tokens h t ht => (hcommon tokens h t ht).1
  cases h : Token.tokenize .extended code with
  | ok tokens => exact refines_of_tokens (htokens.trans h) h (hcommon tokens h) hextended
  | error stuck =>
    rw [run_of_stuck h, run_of_stuck (htokens.trans h)]
    exact ⟨_, rfl, .inr (.inr ⟨rfl, rfl⟩)⟩

/-- In every host, a program without the words of the extended dialect that keeps to the language
does the same in both dialects, up to the first fault that only the extended dialect reports and to
the words in which it tells a reason. The two runs may have different limits and start from any
states. -/
theorem basic_refines_extended (h : Host) {code : String} {extended basic : Limits} {s t : State}
    (hcommon : ∀ tokens, Token.tokenize .extended code = .ok tokens → All Token.IsCommon tokens)
    (hextended : Contained h .extended extended code s)
    (hextendedEnds : (run .extended extended code s).1.result ≠ .error .exhausted)
    (hbasic : Contained h .basic basic code t)
    (hbasicEnds : (run .basic basic code t).1.result ≠ .error .exhausted) :
    Refines (h.told .extended) (runOn h .extended extended code s) (runOn h .basic basic code t) := by
  rw [runOn_eq hextended, runOn_eq hbasic, told_basic]
  exact (refines_of_ended hcommon hextendedEnds hbasicEnds).told h

theorem refines_at_type_change :
    let code := "INICIO x=1! print(x+1)! x=\"a\"! print(x)! FIN"
    (runOn .standard .extended ⟨5, 5⟩ code {}).2.logs = ["2"] ∧
      (runOn .standard .basic ⟨5, 5⟩ code {}).2.logs = ["2", "a"] ∧
        Refines (Host.standard.told .extended) (runOn .standard .extended ⟨5, 5⟩ code {})
          (runOn .standard .basic ⟨5, 5⟩ code {}) := by
  intro code
  refine ⟨by decide +kernel, by decide +kernel, ?_⟩
  apply basic_refines_extended
  · have hcommon : ((Token.tokenize .extended code).toOption.getD []).all fun t => t.IsCommon := by
      decide +kernel
    intro tokens htokens t ht
    rw [htokens] at hcommon
    simpa using List.all_eq_true.mp hcommon t ht
  · exact .standard (by decide +kernel)
  · decide +kernel
  · exact .standard (by decide +kernel)
  · decide +kernel

/-- Only the extended dialect has a record of types that an expression can look at. -/
theorem dialects_differ_beyond :
    let code := "INICIO x=" ++ Reach.expression ("[" ++ Reach.Place.types.text ++ "==\x7b\x7d]") ++ "! FIN"
    (runOn .standard .extended ⟨5, 5⟩ code {}).1.result.isOk = true ∧
      (runOn .standard .basic ⟨5, 5⟩ code {}).1.result.isOk = false := by
  decide +kernel

end Program

end Bang
