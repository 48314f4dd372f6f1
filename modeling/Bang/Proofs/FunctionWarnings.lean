import Bang.Proofs.Arity
import Bang.Proofs.Usage

/-! What the report of unused functions says about a run. The journal has one mark for each declaration that is
carried out and one for each call that returns, in the order in which these statements end, however deep they stand.
So a function is reported if it was declared and no call of it has returned since its last declaration. -/

namespace Bang

open Machine Run Statement

/-! ### Statements that leave a mark -/

namespace Statement

def declaredName? : List Token → Option String
  | first :: name :: _ => if first.text = "func" then some name.text else none
  | _ => none

def calledName? : List Token → Option String
  | callee :: opening :: _ => if IsCall callee opening then some callee.text else none
  | _ => none

theorem calledName?_of_declaredName? {tokens : List Token} {name : String} (h : declaredName? tokens = some name) :
    calledName? tokens = none := by
  unfold declaredName? at h
  split at h
  · split at h
    · rename_i first name _ hfunc
      have hcall : ¬ IsCall first name := fun hcall => hcall.1 (by simp [hfunc])
      exact if_neg hcall
    · cases h
  · cases h

def functionMark? (tokens : List Token) : Option (Mark Unit) :=
  ((declaredName? tokens).map (Mark.opened · ())).or ((calledName? tokens).map Mark.used)

theorem functionMark?_of_call {callee opening : Token} (h : IsCall callee opening) (rest : List Token) :
    functionMark? (callee :: opening :: rest) = some (.used callee.text) := by
  have hfunc : callee.text ≠ "func" := fun heq => h.1 (by simp [heq])
  simp [functionMark?, declaredName?, calledName?, hfunc, h]

theorem functionMark?_eq_none {first : Token} {rest : List Token} (hfunc : first.text ≠ "func")
    (hcall : ∀ opening ∈ rest.head?, ¬ IsCall first opening) : functionMark? (first :: rest) = none := by
  cases rest with
  | nil => rfl
  | cons opening rest => simp [functionMark?, declaredName?, calledName?, hfunc, hcall opening rfl]

end Statement

namespace Visit

def declared? (v : Visit) : Option String := if v.result.isOk then declaredName? v.tokens else none

def returned? (v : Visit) : Option String := if v.result.isOk then calledName? v.tokens else none

def functionMark? (v : Visit) : Option (Mark Unit) := if v.result.isOk then Statement.functionMark? v.tokens else none

/-- The functions that were declared, in the order of their first declarations, from visits of which
the latest is the first. -/
def declaredNames (visits : List Visit) : List String := (visits.reverse.filterMap declared?).eraseDups

def sinceDeclared (name : String) (visits : List Visit) : List Visit := visits.takeWhile (·.declared? != some name)

end Visit

/-! ### The marks of a run -/

/-- The journal has the marks of the statements that have ended, and perhaps one of the statement
that runs. -/
def Toured.Tallied (w : Toured) (mark : Option (Mark Unit)) : Prop :=
  w.state.journal.functionMarks.map Mark.plain = mark.toList ++ w.visits.filterMap Visit.functionMark?

def Tour.Tallies {α : Type} (x : Tour α) (mark : Option (Mark Unit)) : Prop :=
  ∀ w, w.Tallied none → (x.run w).2.Tallied (if (x.run w).1.isOk then mark else none)

namespace Tour.Tallies

variable {α β : Type} {mark : Option (Mark Unit)}

theorem fail (fault : Fault) : (Machine.fail fault : Tour α).Tallies mark := fun _ h => h

theorem seq {x : Tour α} {f : α → Tour β} (hx : x.Tallies none) (hf : ∀ a, (f a).Tallies mark) :
    (x >>= f).Tallies mark := by
  intro w hw
  have hv := hx w hw
  rcases hrun : x.run w with ⟨result, v⟩
  rw [hrun, ite_self] at hv
  cases result with
  | error fault =>
    rw [run_bind_error hrun]
    exact hv
  | ok a =>
    rw [run_bind_ok hrun]
    exact hf a v hv

theorem change {f : State → State} (hf : ∀ s, (f s).journal.functionMarks = s.journal.functionMarks) :
    (Machine.change f : Tour Unit).Tallies none := by
  intro w hw
  change (f w.state).journal.functionMarks.map Mark.plain = _
  rw [hf]
  exact hw

theorem marking {f : State → State} {added : Mark Unit}
    (hf : ∀ s, (f s).journal.functionMarks.map Mark.plain = added :: s.journal.functionMarks.map Mark.plain) :
    (Machine.change f : Tour Unit).Tallies (some added) := by
  intro w hw
  change (f w.state).journal.functionMarks.map Mark.plain = _
  rw [hf, hw]
  rfl

end Tour.Tallies

def tallying : Simulation Tour Tour where
  Rel x _ := x.Tallies none
  ret _ _ h := h
  seq hx hf := Tour.Tallies.seq hx hf
  stop fault _ := .fail fault

namespace tallying

theorem lookup (name : String) : (lookup? name : Tour (Option Binding)).Tallies none := fun _ h => h

theorem note {event : Event} (h : event.isPassing) : (note event : Tour Unit).Tallies none := by
  refine .change fun s => ?_
  cases event with
  | evaluating | read | entered => rfl
  | _ => cases h

theorem store (line : Int) (name : String) (v : Value) : (store .extended line name v : Tour Unit).Tallies none := by
  refine .seq (fun _ h => h) fun s => ?_
  cases refusal? .extended line name v s with
  | some fault => exact .fail fault
  | none =>
    refine .change fun s => ?_
    unfold State.put
    split <;> rfl

theorem leaves : tallying.Leaves .extended .extended (fun _ => True) where
  lookup t _ := lookup t.text
  note _ h := note h
  beyond _ := .fail _
  log _ := .change fun _ => rfl
  store t _ v := store t.line t.text v

theorem inCall (arguments : List (String × Value)) {x : Tour Unit} (hx : x.Tallies none) :
    (inCall arguments x : Tour Unit).Tallies none :=
  fun w hw => hx { w with state := w.state.enter arguments } hw

theorem finishCall (name : String) : (finishCall name : Tour Unit).Tallies (some (.used name)) := by
  refine .seq (fun _ h => h) fun s => ?_
  split
  · exact .marking fun _ => rfl
  · exact .fail _

theorem define (name : String) (f : Function) : (define name f : Tour Unit).Tallies (some (.opened name ())) := by
  refine .seq (lookup functionsName) fun binding => ?_
  split
  · exact .fail _
  · exact .fail _
  · exact .marking fun _ => rfl

theorem declare {first : Token} (hfunc : first.text = "func") (rest : List Token) :
    (declare (first :: rest) : Tour Unit).Tallies (functionMark? (first :: rest)) := by
  unfold Statement.declare
  split
  · exact .fail _
  · rename_i first name opening t ts heq
    obtain ⟨rfl, rfl⟩ := List.cons.inj heq
    have hmark : functionMark? (first :: name :: opening :: t :: ts) = some (.opened name.text ()) := by
      simp [functionMark?, declaredName?, hfunc]
    rw [hmark]
    split
    · exact .fail _
    · split
      · exact .fail _
      · split
        · exact .fail _
        · rename_i inside body hclosing
          refine .seq (Simulation.parameters (S := tallying) inside) fun params => ?_
          split
          · exact define name.text ⟨params, body⟩
          · exact .fail _
  · exact .fail _

theorem call {inner : List Token → Tour Unit} (hinner : ∀ tokens, (inner tokens).Tallies none) (callee : Token)
    (rest : List Token) : (call inner (callee :: rest)).Tallies (some (.used callee.text)) := by
  unfold Statement.call
  refine .seq (Simulation.checkFunction (S := tallying) (lookup functionsName) callee.text) fun _ => ?_
  split
  · exact .fail _
  · exact .fail _
  · refine .seq (Simulation.arguments leaves.acts (All.trivial _)) fun values => ?_
    refine .seq (Simulation.functionOf (S := tallying) (lookup functionsName) callee.text) fun f => ?_
    split
    · exact .fail _
    · have hblock : tallying.Rel (block inner f.body) (block inner f.body) :=
        Simulation.block (fun tokens _ => hinner tokens) (All.trivial f.body)
      exact .seq (note rfl) fun _ => .seq (inCall _ hblock) fun _ => finishCall callee.text

theorem unmarked {inner : List Token → Tour Unit} (hinner : ∀ tokens, (inner tokens).Tallies none) {first : Token}
    (hword : first.text ∉ ["if", "else", "while", "doFor", "print"]) (rest : List Token) :
    (unmarked .extended inner first rest).Tallies (functionMark? (first :: rest)) := by
  by_cases hfunc : first.text = "func"
  · have heq : Statement.unmarked .extended inner first rest = Statement.declare (first :: rest) := by
      simp [Statement.unmarked, hfunc]
    rw [heq]
    exact declare hfunc rest
  · rw [unmarked_extended inner hfunc]
    split
    · rename_i hopens
      have hcall : ∀ opening ∈ rest.head?, ¬ IsCall first opening := by
        intro opening _ hcall
        rw [hcall.2.1] at hopens
        cases hopens
      have hblock : tallying.Rel (block inner (first :: rest)) (block inner (first :: rest)) :=
        Simulation.block (fun tokens _ => hinner tokens) (All.trivial _)
      rw [functionMark?_eq_none hfunc hcall]
      exact hblock
    · rename_i hopens
      split
      · rename_i hopening
        cases rest with
        | nil => cases hopening
        | cons opening rest =>
          have hwords : first.text ∉ ["if", "else", "while", "doFor", "print"] ++ ["func"] := by
            rw [List.mem_append, not_or, List.mem_singleton]
            exact ⟨hword, hfunc⟩
          have hcall : IsCall first opening :=
            ⟨hwords, Bool.eq_false_iff.mpr hopens, beq_iff_eq.mp hopening⟩
          rw [functionMark?_of_call hcall]
          exact call hinner first (opening :: rest)
      · rename_i hopening
        have hcall : ∀ opening ∈ rest.head?, ¬ IsCall first opening := by
          intro opening hhead hcall
          rw [Option.mem_def.mp hhead] at hopening
          exact hopening (beq_iff_eq.mpr hcall.2.2)
        have hassign : tallying.Rel (assign .extended (first :: rest)) (assign .extended (first :: rest)) :=
          Simulation.assign leaves.acts (All.trivial _)
        rw [functionMark?_eq_none hfunc hcall]
        exact hassign

theorem statement (rounds : Nat) {inner : List Token → Tour Unit} (hinner : ∀ tokens, (inner tokens).Tallies none)
    (tokens : List Token) : (statement .extended rounds inner tokens).Tallies (functionMark? tokens) := by
  cases tokens with
  | nil => exact fun _ h => h
  | cons first rest =>
    by_cases hword : first.text ∈ ["if", "else", "while", "doFor", "print"]
    · have hmark : functionMark? (first :: rest) = none := by
        refine functionMark?_eq_none (fun hfunc => ?_) fun opening _ hcall => ?_
        · rw [hfunc] at hword
          exact absurd hword (by decide)
        · exact hcall.1 (List.mem_append_left ["func"] hword)
      have hmarked : tallying.Rel (Statement.statement .extended rounds inner (first :: rest))
          (Statement.statement .extended rounds inner (first :: rest)) :=
        Simulation.marked (fun tokens _ => hinner tokens) leaves.acts (.inl rfl) hword (All.trivial _)
      rw [hmark]
      exact hmarked
    · rw [statement_of_unmarked hword]
      exact unmarked hinner hword rest

theorem visiting {tokens : List Token} {x : Tour Unit} (hx : x.Tallies (functionMark? tokens)) :
    (Tour.visiting tokens x).Tallies none := by
  intro w hw
  have hv := hx w hw
  have hcons (v : Visit) (visits : List Visit) : (v :: visits).filterMap Visit.functionMark? =
      v.functionMark?.toList ++ visits.filterMap Visit.functionMark? := by
    cases h : v.functionMark? <;> simp [h]
  rw [Tour.run_visiting, ite_self]
  exact hv.trans (hcons ⟨tokens, w.state, (x.run w).1, (x.run w).2.state⟩ (x.run w).2.visits).symm

theorem exec (rounds depth : Nat) (tokens : List Token) : (Tour.exec .extended rounds depth tokens).Tallies none := by
  induction depth generalizing tokens with
  | zero => exact .fail _
  | succ depth ih => exact visiting (statement rounds ih tokens)

end tallying

namespace Visit

theorem declared?_eq (v : Visit) : v.functionMark?.bind Mark.openedName? = v.declared? := by
  unfold functionMark? declared? Statement.functionMark?
  split
  · cases declaredName? v.tokens with
    | some name => rfl
    | none => cases calledName? v.tokens <;> rfl
  · rfl

theorem returned?_eq (v : Visit) : v.functionMark?.bind Mark.usedName? = v.returned? := by
  unfold functionMark? returned? Statement.functionMark?
  split
  · cases hname : declaredName? v.tokens with
    | some name =>
      rw [calledName?_of_declaredName? hname]
      rfl
    | none => cases calledName? v.tokens <;> rfl
  · rfl

theorem openedNames_filterMap (visits : List Visit) :
    Mark.openedNames (visits.filterMap functionMark?) = declaredNames visits := by
  unfold Mark.openedNames declaredNames
  rw [← List.filterMap_reverse, List.filterMap_filterMap]
  simp only [declared?_eq]

theorem all_since (name : String) (visits : List Visit) :
    (Mark.since name (visits.filterMap functionMark?)).all (·.usedName? != some name) =
      (sinceDeclared name visits).all (·.returned? != some name) := by
  induction visits with
  | nil => rfl
  | cons v visits ih =>
    have hdeclared := v.declared?_eq
    have hreturned := v.returned?_eq
    unfold sinceDeclared at ih ⊢
    cases hmark : v.functionMark? with
    | none =>
      rw [hmark] at hdeclared hreturned
      rw [List.filterMap_cons_none hmark, ih]
      simp [← hdeclared, ← hreturned]
    | some mark =>
      rw [hmark] at hdeclared hreturned
      rw [List.filterMap_cons_some hmark, List.takeWhile_cons, ← hdeclared]
      by_cases hname : mark.openedName? = some name
      · simp [Mark.since, hname]
      · rw [Mark.since_cons _ hname, List.all_cons, ih]
        simp [← hreturned, hname]

end Visit

namespace Program

variable {code : String} {tokens : List Token}

theorem tallied_tour (limits : Limits) (tokens : List Token) : (tour .extended limits tokens {}).2.Tallied none := by
  have hframed : tallying.Rel (framed (Tour.exec .extended limits.rounds limits.depth) tokens)
      (framed (Tour.exec .extended limits.rounds limits.depth) tokens) :=
    Simulation.framed (fun tokens _ => tallying.exec limits.rounds limits.depth tokens) (All.trivial tokens)
  have htallied := hframed { state := start .extended {} } rfl
  rw [ite_self] at htallied
  exact htallied

theorem run_eq_tour (d : Dialect) (limits : Limits) (htokens : Token.tokenize d code = .ok tokens) (s : State) :
    (run d limits code s).1.result = (tour d limits tokens s).1 ∧
      (run d limits code s).2.journal = (tour d limits tokens s).2.state.journal := by
  rw [run_of_tokens htokens, ← tour_eq_run]
  cases (tour d limits tokens s).1 <;> exact ⟨rfl, rfl⟩

theorem upheld_true : Upheld .extended (fun _ => True) (fun _ => True) where
  note _ _ := trivial
  log _ := trivial
  store _ _ _ := trivial
  declare _ _ _ _ := trivial
  returned _ := trivial
  body _ _ := All.trivial _
  enter _ _ := trivial
  leave _ _ := trivial

/-- In every host, after a run from nothing that keeps to the language, the report of unused
functions names, in the order of the first declarations and once each, the functions that were
declared and of which no call has returned since their last declaration. Declarations and calls
count at any depth: they are among the statements that the run came to, each of which ran as such. -/
theorem unusedFunctions_eq_unreturned (h : Host) (limits : Limits) (code : String) (tokens : List Token)
    (htokens : Token.tokenize .extended code = .ok tokens) (hcontained : Contained h .extended limits code {}) :
    (runOn h .extended limits code {}).1.result = (tour .extended limits tokens {}).1.mapError (h.told .extended) ∧
      (∀ v ∈ (tour .extended limits tokens {}).2.visits,
        ∃ depth, (v.result, v.after) = (exec .extended limits.rounds depth v.tokens : Run Unit).run v.before) ∧
      (runOn h .extended limits code {}).2.journal.unusedFunctions =
        (Visit.declaredNames (tour .extended limits tokens {}).2.visits).filter fun name =>
          (Visit.sinceDeclared name (tour .extended limits tokens {}).2.visits).all (·.returned? != some name) := by
  obtain ⟨hresult, hjournal⟩ := run_eq_tour .extended limits htokens {}
  rw [snd_runOn hcontained, runOn_eq hcontained]
  refine ⟨congrArg (Except.mapError _) hresult, fun v hv => ?_, ?_⟩
  · exact (upheld_true.visits limits (All.trivial tokens) trivial v hv).genuine
  · have htallied : _ = _ := tallied_tour limits tokens
    rw [Option.toList_none, List.nil_append] at htallied
    rw [hjournal, Journal.unusedFunctions, ← Mark.unused_plain, htallied, Mark.unused_eq_since,
      Visit.openedNames_filterMap]
    exact List.filter_congr fun name _ => Visit.all_since name _

/-- One function is never called, one is declared again after its call, and one declares itself
anew. -/
def redeclaring : String :=
  "INICIO func h()\x7b \x7d func g()\x7b \x7d g()! func f()\x7b func f()\x7b \x7d ! \x7d f()! func g()\x7b \x7d FIN"

def redeclaringTokens : List Token := (Token.tokenize .extended redeclaring).toOption.getD []

theorem tokenize_redeclaring : Token.tokenize .extended redeclaring = .ok redeclaringTokens :=
  Token.tokenize_eq_getD (by decide +kernel)

theorem unusedFunctions_of_redeclaring :
    (tour .extended ⟨5, 5⟩ redeclaringTokens {}).1.isOk ∧
      ((tour .extended ⟨5, 5⟩ redeclaringTokens {}).2.visits.map fun v => (v.declared?, v.returned?)) =
        [(some "g", none), (none, some "f"), (some "f", none), (some "f", none), (none, some "g"), (some "g", none),
          (some "h", none)] ∧
      (runOn .standard .extended ⟨5, 5⟩ redeclaring {}).2.journal.unusedFunctions = ["h", "g"] := by
  have hclosed : (run .extended ⟨5, 5⟩ redeclaring {}).1.result.isOk := by decide +kernel
  obtain ⟨_, _, hunused⟩ := unusedFunctions_eq_unreturned .standard ⟨5, 5⟩ redeclaring redeclaringTokens
    tokenize_redeclaring (.standard (Hosted.ne_beyond_of_isOk hclosed))
  rw [hunused]
  decide +kernel

/-- An expression can clear the record of functions. -/
theorem declaration_forgotten :
    let code := "INICIO func f()\x7b\x7d y=" ++
      Reach.expression ("==" ++ Reach.Place.functionUses.text ++ ".clear()") ++ "! FIN"
    (runOn .standard .extended ⟨5, 5⟩ code {}).1.result.isOk ∧
      (runOn .standard .extended ⟨5, 5⟩ code {}).2.journal.unusedFunctions = [] := by
  decide +kernel

end Program

end Bang
