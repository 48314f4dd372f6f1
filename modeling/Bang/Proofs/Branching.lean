import Bang.Proofs.Alike
import Bang.Proofs.Segments
import Mathlib.Data.List.Basic

/-! Statements with a condition. A `while` runs its body once, whatever its condition says. An `else` is a
statement of its own at the top level, where it always runs; within a block it stands in the body of its
`if`, where it never does. -/

namespace Bang.Statement

open Machine Run

/-- A word, a condition in round brackets on the line of the word, and what follows. -/
def headed (word : String) (line : Int) (condition body : List Token) : List Token :=
  ⟨.keyword, word, line⟩ :: bracket "(" line :: (condition ++ bracket ")" line :: body)

theorem idxOf?_append_cons {t : Token} {before behind : List Token} (h : t ∉ before) :
    (before ++ t :: behind).idxOf? t = some before.length := by
  induction before with
  | nil => simp [List.idxOf?_cons]
  | cons u us ih =>
    rw [List.mem_cons, not_or] at h
    have hne : (u == t) = false := beq_false_of_ne (Ne.symm h.1)
    simp [List.idxOf?_cons, hne, ih h.2]

theorem idxOf?_closing_headed (word : String) {line : Int} {condition body : List Token}
    (h : bracket ")" line ∉ condition) :
    (headed word line condition body).idxOf? (bracket ")" line) = some (condition.length + 2) := by
  have hbefore : bracket ")" line ∉ ⟨.keyword, word, line⟩ :: bracket "(" line :: condition := by
    simp [bracket] at h ⊢
    exact h
  exact idxOf?_append_cons hbefore

theorem bracketed?_headed (word : String) {line : Int} {condition body : List Token}
    (h : bracket ")" line ∉ condition) :
    bracketed? line (headed word line condition body) = some (condition, body) := by
  have hopening : (headed word line condition body).idxOf? (bracket "(" line) = some 1 :=
    @idxOf?_append_cons _ [⟨.keyword, word, line⟩] _ (by simp [bracket])
  unfold bracketed?
  rw [hopening, idxOf?_closing_headed word h]
  simp [headed, List.drop_append]

theorem loopBracketed?_headed (word : String) {line : Int} {condition body : List Token}
    (h : bracket ")" line ∉ condition) :
    loopBracketed? line (headed word line condition body) = some (condition, body) := by
  have hopening : ((headed word line condition body).drop 1).idxOf? (bracket "(" line) = some 0 :=
    @idxOf?_append_cons _ [] _ List.not_mem_nil
  unfold loopBracketed?
  rw [hopening, idxOf?_closing_headed word h]
  simp [headed, List.drop_append]

theorem firstLine_headed (word : String) (line : Int) (condition body : List Token) :
    (firstLine (headed word line condition body) : Run Int) = pure line := rfl

/-! ### `while` -/

/-- What a loop does: its condition is false at the end, and it does nothing if its condition is
false. -/
structure LoopLaw (loop : Run Unit) (condition : List Token) (s : State) : Prop where
  exits : ∀ t, loop.run s = (.ok (), t) → t.EvaluatesTo condition (.bool false)
  skips : s.EvaluatesTo condition (.bool false) →
    (loop.run s).2.scope.table = s.scope.table ∧ (loop.run s).2.logs = s.logs

section While

variable {d : Dialect} {rounds depth : Nat} {line opening closing : Int} {condition inside : List Token} {s t : State}

theorem whileDo_headed (h : bracket ")" line ∉ condition) :
    (whileDo (exec d rounds depth) (headed "while" line condition (braced opening closing inside)) : Run Unit) =
      (do
        match ← (evaluate condition : Run Value) with
        | .bool _ => block (exec d rounds depth) (braced opening closing inside)
        | _ => report (.whileCondition line)) := by
  rewrite [whileDo, firstLine_headed, pure_bind, bracketed?_headed "while" h]
  rfl

theorem sameEffect_whileDo (h : bracket ")" line ∉ condition) {b : Bool} (hb : s.EvaluatesTo condition (.bool b)) :
    SameEffect ((block (exec d rounds depth) (braced opening closing inside) : Run Unit).run s)
      ((whileDo (exec d rounds depth) (headed "while" line condition (braced opening closing inside)) :
        Run Unit).run s) := by
  obtain ⟨t, hrun, halike⟩ := hb.run
  rw [whileDo_headed h, run_bind_ok hrun]
  exact likeness.block d rounds depth _ s t halike

theorem evaluatesTo_of_whileDo (h : bracket ")" line ∉ condition)
    (hrun : (whileDo (exec d rounds depth) (headed "while" line condition (braced opening closing inside)) :
      Run Unit).run s = (.ok (), t)) : ∃ b, s.EvaluatesTo condition (.bool b) := by
  rw [whileDo_headed h] at hrun
  obtain ⟨v, u, hvalue, hbody⟩ := run_bind_eq_ok hrun
  cases v with
  | bool b => exact ⟨b, congrArg Prod.fst hvalue⟩
  | _ => cases hbody

end While

/-- A `while` runs its body once. So it does what a loop does exactly if one run of its body makes a
true condition false, and has no effect where the condition is false. -/
theorem while_loopLaw_iff (d : Dialect) (rounds depth : Nat) (line opening closing : Int)
    (condition inside : List Token) (s : State) (h : bracket ")" line ∉ condition) :
    let body : Run Unit := block (exec d rounds depth) (braced opening closing inside)
    LoopLaw (whileDo (exec d rounds depth) (headed "while" line condition (braced opening closing inside)))
      condition s ↔
      (s.EvaluatesTo condition (.bool true) → ∀ t, body.run s = (.ok (), t) → t.EvaluatesTo condition (.bool false)) ∧
      (s.EvaluatesTo condition (.bool false) →
        (body.run s).2.scope.table = s.scope.table ∧ (body.run s).2.logs = s.logs) := by
  intro body
  rcases hwhile : (whileDo (exec d rounds depth)
    (headed "while" line condition (braced opening closing inside)) : Run Unit).run s with ⟨result, u⟩
  have heffect {b : Bool} (hb : s.EvaluatesTo condition (.bool b)) :
      (body.run s).1 = result ∧ (body.run s).2.Alike u := by
    obtain ⟨hresult, halike⟩ := sameEffect_whileDo (d := d) h hb
    rw [hwhile] at hresult halike
    exact ⟨hresult.symm, halike⟩
  constructor
  · intro law
    refine ⟨fun htrue t hbody => ?_, fun hfalse => ?_⟩
    · obtain ⟨hresult, halike⟩ := heffect htrue
      rw [hbody] at hresult halike
      obtain rfl : .ok () = result := hresult
      have hexit : u.EvaluatesTo condition (.bool false) := law.exits u hwhile
      exact hexit.congr (congrArg Scope.table halike.symm.scope)
    · obtain ⟨_, halike⟩ := heffect hfalse
      have hskip := law.skips hfalse
      rw [hwhile] at hskip
      exact ⟨(congrArg Scope.table halike.symm.scope).trans hskip.1, halike.symm.logs.trans hskip.2⟩
  · rintro ⟨honce, hnothing⟩
    refine ⟨fun t hrun => ?_, fun hfalse => ?_⟩
    · obtain ⟨b, hb⟩ := evaluatesTo_of_whileDo h hrun
      obtain ⟨rfl, rfl⟩ := Prod.mk.inj (hwhile.symm.trans hrun)
      obtain ⟨hresult, halike⟩ := heffect hb
      have htable : u.scope.table = (body.run s).2.scope.table := congrArg Scope.table halike.scope
      cases b with
      | true => exact (honce hb _ (Prod.ext hresult rfl)).congr htable
      | false => exact hb.congr (htable.trans (hnothing hb).1)
    · obtain ⟨_, halike⟩ := heffect hfalse
      obtain ⟨htable, hlogs⟩ := hnothing hfalse
      rw [hwhile]
      exact ⟨(congrArg Scope.table halike.scope).trans htable, halike.logs.trans hlogs⟩

section Counter

def below (limit : String) (line : Int) : List Token :=
  [⟨.identifier, "x", line⟩, ⟨.operator, "<", line⟩, ⟨.number, limit, line⟩]

def increment (line : Int) : List Token :=
  [⟨.identifier, "x", line⟩, ⟨.operator, "=", line⟩, ⟨.identifier, "x", line⟩, ⟨.operator, "+", line⟩,
    ⟨.number, "1", line⟩, bracket "!" line]

def counting (x : Int) : State := { scope := { table := .ofList [("x", .value (.int x))] } }

def whileBelow : Run Unit :=
  whileDo (exec .basic 9 9) (headed "while" 1 (below "10" 1) (braced 1 2 (increment 1)))

theorem while_loopLaw_at_last_round :
    bracket ")" 1 ∉ below "10" 1 ∧ LoopLaw whileBelow (below "10" 1) (counting 9) := by
  have hbrackets : bracket ")" 1 ∉ below "10" 1 := by decide
  have hfalse : ¬ (counting 9).EvaluatesTo (below "10" 1) (.bool false) := by decide +kernel
  have hexit : ((block (exec .basic 9 9) (braced 1 2 (increment 1)) : Run Unit).run (counting 9)).2.EvaluatesTo
      (below "10" 1) (.bool false) := by decide +kernel
  refine ⟨hbrackets, ?_⟩
  apply (while_loopLaw_iff .basic 9 9 1 1 2 (below "10" 1) (increment 1) (counting 9) hbrackets).mpr
  refine ⟨fun _ t hrun => ?_, fun h => absurd h hfalse⟩
  rw [hrun] at hexit
  exact hexit

/-- With more than one round to go, the condition is still true at the end; with none, the body
runs. -/
theorem while_not_loopLaw :
    ¬ LoopLaw whileBelow (below "10" 1) (counting 5) ∧ ¬ LoopLaw whileBelow (below "10" 1) (counting 10) := by
  constructor
  · intro law
    have hends : (whileBelow.run (counting 5)).1 = .ok () := by decide +kernel
    have hstill : ¬ (whileBelow.run (counting 5)).2.EvaluatesTo (below "10" 1) (.bool false) := by decide +kernel
    exact hstill (law.exits _ (Prod.ext hends rfl))
  · intro law
    have hstart : (counting 10).EvaluatesTo (below "10" 1) (.bool false) := by decide +kernel
    have hbefore : (counting 10).EvaluatesTo (below "11" 1) (.bool true) := by decide +kernel
    have hbehind : ¬ (whileBelow.run (counting 10)).2.EvaluatesTo (below "11" 1) (.bool true) := by decide +kernel
    exact hbehind (hbefore.congr (law.skips hstart).1)

end Counter

/-! ### `if` and `else` -/

structure IfElse where
  line : Int
  condition : List Token
  isPlain : All IsPlain condition
  yes : Block
  elseLine : Int
  no : Block
  endLine : Int

namespace IfElse

def ifPart (f : IfElse) : List Token := headed "if" f.line f.condition f.yes.tokens

def elsePart (f : IfElse) : List Token := ⟨.keyword, "else", f.elseLine⟩ :: f.no.tokens

def tokens (f : IfElse) : List Token := f.ifPart ++ f.elsePart ++ [bracket "!" f.endLine]

def head (f : IfElse) : List Token :=
  ⟨.keyword, "if", f.line⟩ :: bracket "(" f.line :: (f.condition ++ [bracket ")" f.line])

/-- What is reported of an `else` in the body of its `if`: there it starts the first statement of
its block, or one that never ends. -/
def misplaced (f : IfElse) : Diagnostic :=
  if f.no.statements.isEmpty then .blockUnfinished f.no.opening else .assignmentForm (some f.yes.closing)

variable (f : IfElse)

theorem all_head {P : Token → Prop} (hword : P ⟨.keyword, "if", f.line⟩)
    (hbrackets : ∀ text ∈ ["(", ")"], P (bracket text f.line)) (hcondition : All P f.condition) : All P f.head := by
  intro t ht
  simp only [head, List.mem_cons, List.mem_append, List.not_mem_nil, or_false] at ht
  rcases ht with rfl | rfl | ht | rfl
  · exact hword
  · exact hbrackets "(" (by simp)
  · exact hcondition t ht
  · exact hbrackets ")" (by simp)

theorem isPlain_head : All IsPlain f.head := by
  refine f.all_head ⟨rfl, rfl⟩ ?_ f.isPlain
  simp only [List.forall_mem_cons]
  exact ⟨⟨rfl, rfl⟩, ⟨rfl, rfl⟩, by simp⟩

theorem whole : Whole (f.ifPart ++ f.elsePart) := by
  have htokens : f.ifPart ++ f.elsePart =
      f.head ++ (f.yes.tokens ++ (⟨.keyword, "else", f.elseLine⟩ :: (f.no.tokens ++ []))) := by
    simp [ifPart, elsePart, head, headed]
  rw [htokens]
  exact .plain_append f.isPlain_head (.block_append f.yes (.token ⟨rfl, rfl⟩ (.block_append f.no .nil)))

end IfElse

section Cuts

variable (inner : List Token → Run Unit) (f : IfElse) (rest : List Token)

theorem topLevel_ifElse (hcondition : All IsInner f.condition) :
    topLevel inner true 0 [] (f.tokens ++ rest) =
      (do inner f.ifPart; inner f.elsePart; inner []; topLevel inner true 0 [] rest) := by
  have htokens : f.tokens ++ rest =
      f.head ++ (f.yes.tokens ++
        ([⟨.keyword, "else", f.elseLine⟩] ++ (f.no.tokens ++ bracket "!" f.endLine :: rest))) := by
    simp [IfElse.tokens, IfElse.ifPart, IfElse.elsePart, IfElse.head, headed]
  have hhead : All IsInner f.head :=
    f.all_head (by simp [IsInner]) (fun text _ => isInner_bracket text f.line) hcondition
  have hplain : All IsPlain [⟨.keyword, "else", f.elseLine⟩] := All.nil.cons ⟨rfl, rfl⟩
  have hinner : All IsInner [⟨.keyword, "else", f.elseLine⟩] := All.nil.cons (by simp [IsInner])
  have hif : (f.head.reverse ++ []).reverse ++ f.yes.tokens = f.ifPart := by
    simp [IfElse.head, IfElse.ifPart, headed]
  rw [htokens, topLevel_plain inner f.isPlain_head hhead, topLevel_block, hif, topLevel_plain inner hplain hinner,
    topLevel_block, topLevel_cons inner (isInner_bracket _ _)]
  rfl

theorem sequence_ifElse :
    sequence inner 0 [] (f.tokens ++ rest) = (do inner (f.ifPart ++ f.elsePart); sequence inner 0 [] rest) := by
  have htokens : f.tokens ++ rest = f.ifPart ++ f.elsePart ++ bracket "!" f.endLine :: rest := by
    simp [IfElse.tokens]
  rw [htokens, sequence_statement inner f.whole rfl]

end Cuts

section IfThen

variable {d : Dialect} {rounds depth : Nat} {line : Int} {condition body : List Token} {s : State}

theorem isOperand_of_tokenText {t : Token} {text : List Char} {u : State}
    (h : (tokenText t : Run (List Char)).run s = (.ok text, u)) : IsInner t ∧ t.kind ≠ .symbol := by
  obtain ⟨kind, _, _⟩ := t
  cases kind with
  | identifier | string | number | operator => simp [IsInner]
  | _ => cases h

theorem isOperand_of_formulaText {tokens : List Token} {text : List Char} {u : State}
    (h : (formulaText tokens : Run (List Char)).run s = (.ok text, u)) :
    All (fun t => IsInner t ∧ t.kind ≠ .symbol) tokens := by
  induction tokens generalizing s text u with
  | nil => exact All.nil
  | cons t ts ih =>
    obtain ⟨_, _, htoken, hrest⟩ := run_bind_eq_ok h
    obtain ⟨_, _, hformula, _⟩ := run_bind_eq_ok hrest
    exact (ih hformula).cons (isOperand_of_tokenText htoken)

theorem isOperand_of_evaluatesTo {tokens : List Token} {v : Value} (h : s.EvaluatesTo tokens v) :
    All (fun t => IsInner t ∧ t.kind ≠ .symbol) tokens := by
  obtain ⟨_, hrun, _⟩ := h.run
  obtain ⟨_, _, _, hrest⟩ := run_bind_eq_ok hrun
  obtain ⟨_, _, hformula, _⟩ := run_bind_eq_ok hrest
  exact isOperand_of_formulaText hformula

theorem ifThen_headed (h : bracket ")" line ∉ condition) :
    (ifThen (exec d rounds depth) (headed "if" line condition body) : Run Unit) =
      (do
        match ← (evaluate condition : Run Value) with
        | .bool true => if startsBlock body then block (exec d rounds depth) body else report (.ifBody line)
        | .bool false => return
        | _ => report (.ifCondition line)) := by
  rewrite [ifThen, firstLine_headed, pure_bind, bracketed?_headed "if" h]
  rfl

def onlyIf (b : Bool) (x : Run Unit) : Run Unit := if b then x else pure ()

theorem sameEffect_ifThen {b : Bool} (hb : s.EvaluatesTo condition (.bool b)) (hbody : startsBlock body) :
    SameEffect ((onlyIf b (block (exec d rounds depth) body)).run s)
      ((ifThen (exec d rounds depth) (headed "if" line condition body) : Run Unit).run s) := by
  -- What has a value holds no brackets, so the condition ends where it should.
  have hbrackets : bracket ")" line ∉ condition := fun hmem => (isOperand_of_evaluatesTo hb _ hmem).2 rfl
  obtain ⟨t, hrun, halike⟩ := hb.run
  rw [ifThen_headed hbrackets, run_bind_ok hrun]
  cases b with
  | true =>
    change SameEffect _ ((if startsBlock body then block (exec d rounds depth) body else _ : Run Unit).run t)
    rw [if_pos hbody]
    exact likeness.block d rounds depth _ s t halike
  | false => exact ⟨rfl, halike⟩

end IfThen

section Effect

variable (d : Dialect) (rounds depth : Nat) (f : IfElse)

theorem exec_closing (closing : Int) (second : Token) (h : second.text ≠ "(") (rest : List Token) :
    (exec d rounds (depth + 1) (bracket "\x7d" closing :: second :: rest) : Run Unit) =
      report (.assignmentForm (some closing)) := by
  have hsecond : (second.text == "(") = false := beq_false_of_ne h
  cases d with
  | basic => rfl
  | extended =>
    -- Only here a bracket in the second place would make a call of it.
    change (if (second.text == "(") = true then _ else _ : Run Unit) = _
    rw [hsecond]
    rfl

theorem sequence_behind_else {ts : List Token} (h : StatementList ts) (closing elseLine opening : Int) :
    (sequence (exec d rounds (depth + 1)) 0
        [bracket "\x7b" opening, ⟨.keyword, "else", elseLine⟩, bracket "\x7d" closing] ts : Run Unit) =
      report (if ts.isEmpty then .blockUnfinished opening else .assignmentForm (some closing)) := by
  cases h with
  | nil => rfl
  | @cons statement rest e hstatement he _ =>
    have hclosing := exec_closing d rounds depth closing ⟨.keyword, "else", elseLine⟩ (by simp)
      (bracket "\x7b" opening :: statement)
    have hfirst : (statement.reverse ++
        [bracket "\x7b" opening, ⟨.keyword, "else", elseLine⟩, bracket "\x7d" closing]).reverse =
        bracket "\x7d" closing :: ⟨.keyword, "else", elseLine⟩ :: bracket "\x7b" opening :: statement := by simp
    have hne : (statement ++ e :: rest).isEmpty = false := by simp
    rw [sequence_whole _ hstatement, hne]
    simp only [sequence, he, hfirst, hclosing, Bool.true_and, beq_self_eq_true, if_true]
    rfl

theorem block_ifElse :
    (block (exec d rounds (depth + 1)) (f.yes.tokens ++ f.elsePart) : Run Unit) =
      (do exec d rounds (depth + 2) f.yes.tokens; report f.misplaced) := by
  have htokens : f.yes.tokens ++ f.elsePart = braced f.yes.opening f.no.closing
      (f.yes.statements ++ bracket "\x7d" f.yes.closing :: ⟨.keyword, "else", f.elseLine⟩ ::
        bracket "\x7b" f.no.opening :: f.no.statements) := by
    simp [Block.tokens, braced, IfElse.elsePart]
  have hbehind := sequence_behind_else d rounds depth f.no.list f.yes.closing f.elseLine f.no.opening
  rw [htokens, block_braced, sequence_list _ f.yes.list, exec_block, Block.tokens, block_braced,
    IfElse.misplaced, ← hbehind]
  rfl

end Effect

/-- An `if` with its `else`. At the top level the block of the `else` always runs, behind that of
the `if` or alone. Within a block nothing runs if the condition is false; otherwise the first block
runs, and then the `else` is reported as misplaced. -/
theorem ifElse_effect (d : Dialect) (rounds depth : Nat) (f : IfElse) (rest : List Token) (s : State) (b : Bool)
    (h : s.EvaluatesTo f.condition (.bool b)) :
    SameEffect
        ((do
          onlyIf b (exec d rounds (depth + 2) f.yes.tokens)
          exec d rounds (depth + 1) f.no.tokens
          topLevel (exec d rounds (depth + 2)) true 0 [] rest : Run Unit).run s)
        ((topLevel (exec d rounds (depth + 2)) true 0 [] (f.tokens ++ rest) : Run Unit).run s) ∧
      SameEffect
        ((do
          onlyIf b (do exec d rounds (depth + 2) f.yes.tokens; report f.misplaced)
          sequence (exec d rounds (depth + 2)) 0 [] rest : Run Unit).run s)
        ((sequence (exec d rounds (depth + 2)) 0 [] (f.tokens ++ rest) : Run Unit).run s) := by
  have hinner : ∀ tokens, All (fun _ => True) tokens →
      likeness.Rel (exec d rounds (depth + 2) tokens) (exec d rounds (depth + 2) tokens) :=
    fun tokens _ => likeness.exec d rounds (depth + 2) tokens
  constructor
  · have hcondition : All IsInner f.condition := fun t ht => (isOperand_of_evaluatesTo h t ht).1
    rw [topLevel_ifElse _ f rest hcondition, exec_block]
    refine SameEffect.seq (sameEffect_ifThen h rfl) fun _ => ?_
    refine likeness.seq (likeness.exec d rounds (depth + 1) _) fun _ => ?_
    exact Simulation.topLevel hinner All.nil (All.trivial rest)
  · have hparts : f.ifPart ++ f.elsePart = headed "if" f.line f.condition (f.yes.tokens ++ f.elsePart) := by
      simp [IfElse.ifPart, headed]
    rw [sequence_ifElse, hparts, ← block_ifElse]
    refine SameEffect.seq (sameEffect_ifThen h rfl) fun _ => ?_
    exact Simulation.sequence hinner All.nil (All.trivial rest)

section Choice

def printing (text : String) (line : Int) : List Token :=
  [⟨.keyword, "print", line⟩, bracket "(" line, ⟨.number, text, line⟩, bracket ")" line]

theorem statementList_printing {text : String} {line : Int} (h : All IsPlain (printing text line)) :
    StatementList (printing text line ++ [bracket "!" line]) := by
  have hwhole : Whole (printing text line) := List.append_nil (printing text line) ▸ .plain_append h .nil
  exact .cons hwhole rfl .nil

def printBlock (text : String) (line : Int) (h : All IsPlain (printing text line)) : Block where
  opening := line
  closing := line + 1
  statements := printing text line ++ [bracket "!" line]
  list := statementList_printing h
  isInner := by simp [All, printing, IsInner, bracket]

/-- The tokens of `if(x<1){print(1)!}else{print(2)!}!`. -/
def choice : IfElse where
  line := 1
  condition := below "1" 1
  isPlain := by simp [All, below, IsPlain]; decide
  yes := printBlock "1" 1 (by simp [All, printing, IsPlain, bracket]; decide)
  elseLine := 2
  no := printBlock "2" 2 (by simp [All, printing, IsPlain, bracket]; decide)
  endLine := 3

theorem ifElse_effect_at_true :
    (counting 0).EvaluatesTo choice.condition (.bool true) ∧
      SameEffect
        ((do
          onlyIf true (exec .basic 9 3 choice.yes.tokens)
          exec .basic 9 2 choice.no.tokens
          topLevel (exec .basic 9 3) true 0 [] [] : Run Unit).run (counting 0))
        ((topLevel (exec .basic 9 3) true 0 [] (choice.tokens ++ []) : Run Unit).run (counting 0)) := by
  have htrue : (counting 0).EvaluatesTo choice.condition (.bool true) := by decide +kernel
  exact ⟨htrue, (ifElse_effect .basic 9 1 choice [] (counting 0) true htrue).1⟩

theorem ifElse_not_exclusive :
    let logs (code : String) := (Program.run .basic ⟨9, 9⟩ code {}).2.logs
    logs "INICIO x=1! if(x==1)\x7bprint(1)!\x7d else \x7bprint(2)!\x7d ! FIN" = ["1", "2"] ∧
      logs "INICIO x=1! \x7bprint(1)!\x7d FIN" = ["1"] ∧
      logs "INICIO x=1! \x7b if(x==2)\x7bprint(1)!\x7d else \x7bprint(2)!\x7d ! \x7d FIN" = [] ∧
      logs "INICIO x=1! \x7b \x7bprint(2)!\x7d ! \x7d FIN" = ["2"] := by
  decide +kernel

end Choice

end Bang.Statement
