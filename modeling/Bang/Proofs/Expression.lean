import Bang.Proofs.Alike
import Bang.Proofs.Formula.Spelling

/-! Expressions by their text. What an expression evaluates to depends on the text that its tokens give in the
table: a variable gives the text of its value, so a number or a truth value reads back as itself. -/

namespace Bang

open Machine Statement Run

def Scope.tokenText? (scope : Scope) (t : Token) : Option (List Char) :=
  match t.kind with
  | .identifier => (scope.get? t.text).bind fun binding => operandText? binding.toValue
  | .string | .number | .operator => some t.text.toList
  | _ => none

def Scope.formulaText? (scope : Scope) : List Token → Option (List Char)
  | [] => some []
  | t :: ts => do return (← scope.tokenText? t) ++ (← scope.formulaText? ts)

def Journal.reads (tokens : List Token) : Journal :=
  ((tokens.filter Token.isIdentifier).map (Event.read ·.text)).reverse

theorem Journal.mem_reads {event : Event} {tokens : List Token} :
    event ∈ reads tokens ↔ ∃ t ∈ tokens, t.isIdentifier ∧ event = .read t.text := by
  simp only [reads, List.mem_reverse, List.mem_map, List.mem_filter, and_assoc, eq_comm]

namespace State

variable {s : State} {t : Token} {tokens : List Token} {cs : List Char}

def noteRead (s : State) (t : Token) : State := if t.isIdentifier then s.note (.read t.text) else s

/-- The state behind an expression: the journal has the expression, and then the names it read. -/
def consult (s : State) (tokens : List Token) : State := tokens.foldl noteRead (s.note (.evaluating tokens))

theorem alike_noteRead (s : State) (t : Token) : s.Alike (s.noteRead t) := by
  unfold noteRead
  split
  · exact .note_passing s rfl
  · exact .refl s

theorem alike_consult (s : State) (tokens : List Token) : s.Alike (s.consult tokens) := by
  have hreads : ∀ s : State, s.Alike (tokens.foldl noteRead s) := by
    induction tokens with
    | nil => exact .refl
    | cons t ts ih => exact fun s => (s.alike_noteRead t).trans (ih _)
  exact (Alike.note_passing s rfl).trans (hreads _)

theorem run_tokenText (h : s.scope.tokenText? t = some cs) :
    (tokenText t : Run (List Char)).run s = (.ok cs, s.noteRead t) := by
  obtain ⟨kind, text, line⟩ := t
  cases kind with
  | identifier =>
    obtain ⟨binding, hbinding, htext⟩ := Option.bind_eq_some_iff.mp h
    simp only [tokenText]
    rw [run_bind_ok run_lookup?, hbinding]
    simp only [run_bind_ok (run_note (.read text)), htext]
    rfl
  | string | number | operator =>
    obtain rfl := Option.some.inj h
    rfl
  | _ => cases h

theorem run_formulaText (h : s.scope.formulaText? tokens = some cs) :
    (formulaText tokens : Run (List Char)).run s = (.ok cs, tokens.foldl noteRead s) := by
  induction tokens generalizing s cs with
  | nil =>
    obtain rfl := Option.some.inj h
    rfl
  | cons t ts ih =>
    obtain ⟨text, htext, h⟩ := Option.bind_eq_some_iff.mp h
    obtain ⟨rest, hrest, h⟩ := Option.bind_eq_some_iff.mp h
    obtain rfl := Option.some.inj h
    have hscope : (s.noteRead t).scope = s.scope := (s.alike_noteRead t).scope
    have hformula := ih (hscope ▸ hrest)
    unfold formulaText
    rw [run_bind_ok (run_tokenText htext), run_bind_ok hformula]
    rfl

def answer (text : List Char) : Except Fault Value :=
  (Formula.evaluate text).mapError (.ofFormula text)

theorem run_evaluate (h : s.scope.formulaText? tokens = some cs) :
    (evaluate tokens : Run Value).run s = (answer cs, s.consult tokens) := by
  have hformula : (formulaText tokens : Run (List Char)).run (s.note (.evaluating tokens)) =
      (.ok cs, s.consult tokens) := run_formulaText h
  unfold evaluate answer
  rw [run_bind_ok (run_note _), run_bind_ok hformula]
  cases Formula.evaluate cs with
  | ok v => rfl
  | error fault => cases fault <;> rfl

theorem tokenText?_of_run {u : State} (h : (tokenText t : Run (List Char)).run s = (.ok cs, u)) :
    s.scope.tokenText? t = some cs := by
  obtain ⟨kind, text, line⟩ := t
  cases kind with
  | identifier =>
    simp only [tokenText] at h
    rw [run_bind_ok run_lookup?] at h
    simp only [Scope.tokenText?]
    cases hbinding : s.scope.get? text with
    | none =>
      rw [hbinding] at h
      cases h
    | some binding =>
      rw [hbinding] at h
      simp only [run_bind_ok (run_note (.read text))] at h
      rw [Option.bind_some]
      cases htext : operandText? binding.toValue with
      | none =>
        rw [htext] at h
        cases h
      | some operand =>
        rw [htext] at h
        cases h
        rfl
  | string | number | operator =>
    cases h
    rfl
  | _ => cases h

theorem formulaText?_of_run {u : State} (h : (formulaText tokens : Run (List Char)).run s = (.ok cs, u)) :
    s.scope.formulaText? tokens = some cs := by
  induction tokens generalizing s cs with
  | nil =>
    cases h
    rfl
  | cons t ts ih =>
    obtain ⟨text, v, htoken, h⟩ := run_bind_eq_ok h
    obtain ⟨rest, w, hformula, h⟩ := run_bind_eq_ok h
    cases h
    have htext := tokenText?_of_run htoken
    -- Reading a token leaves the table as it was.
    obtain rfl : s.noteRead t = v := congrArg Prod.snd ((run_tokenText htext).symm.trans htoken)
    have hrest := ih hformula
    rw [(s.alike_noteRead t).scope] at hrest
    simp [Scope.formulaText?, htext, hrest]

theorem isSome_of_formulaText? {scope : Scope} (h : scope.formulaText? tokens = some cs) :
    ∀ t ∈ tokens, t.isIdentifier → (scope.get? t.text).isSome := by
  induction tokens generalizing cs with
  | nil => exact fun t ht => absurd ht List.not_mem_nil
  | cons t ts ih =>
    obtain ⟨text, htext, h⟩ := Option.bind_eq_some_iff.mp h
    obtain ⟨rest, hrest, _⟩ := Option.bind_eq_some_iff.mp h
    intro u hu hidentifier
    rcases List.mem_cons.mp hu with rfl | hu
    · have hkind : u.kind = .identifier := eq_of_beq hidentifier
      rw [Scope.tokenText?, hkind] at htext
      obtain ⟨binding, hbinding, _⟩ := Option.bind_eq_some_iff.mp htext
      exact Option.isSome_of_eq_some hbinding
    · exact ih hrest u hu hidentifier

theorem consult_of_run {v : Value} {u : State} (h : (evaluate tokens : Run Value).run s = (.ok v, u)) :
    u = s.consult tokens ∧ ∀ t ∈ tokens, t.isIdentifier → (s.scope.get? t.text).isSome := by
  obtain ⟨_, noted, hnote, hrest⟩ := run_bind_eq_ok h
  cases hnote
  obtain ⟨text, _, hformula, _⟩ := run_bind_eq_ok hrest
  have htext := formulaText?_of_run hformula
  change s.scope.formulaText? tokens = some text at htext
  exact ⟨(congrArg Prod.snd ((run_evaluate htext).symm.trans h)).symm, isSome_of_formulaText? htext⟩

theorem journal_consult (s : State) (tokens : List Token) :
    (s.consult tokens).journal = Journal.reads tokens ++ .evaluating tokens :: s.journal := by
  have hreads : ∀ s : State, (tokens.foldl noteRead s).journal = Journal.reads tokens ++ s.journal := by
    induction tokens with
    | nil => exact fun s => rfl
    | cons t ts ih =>
      intro s
      rw [List.foldl_cons, ih, noteRead]
      by_cases ht : t.isIdentifier <;> simp [Journal.reads, ht, note]
  exact hreads _

theorem evaluatesTo_iff {v : Value} (h : s.scope.formulaText? tokens = some cs) :
    s.EvaluatesTo tokens v ↔ Formula.evaluate cs = .ok v := by
  rw [EvaluatesTo, run_evaluate h, answer]
  cases Formula.evaluate cs <;> simp [Except.mapError]

end State

/-! ### Integers -/

namespace Scope

inductive Operand (scope : Scope) : Token → Scalar → Prop
  | number {text : String} {line : Int} (h : Formula.IsDecimal text.toList) :
    Operand scope ⟨.number, text, line⟩ (.int (Nat.ofDigitChars 10 text.toList 0))
  | bool {name : String} {line : Int} {b : Bool} (h : scope.get? name = some (.value (.bool b))) :
    Operand scope ⟨.identifier, name, line⟩ (.bool b)
  | int {name : String} {line : Int} {n : Int} (h : scope.get? name = some (.value (.int n)))
    (hlength : (Nat.toDigits 10 n.natAbs).length ≤ Text.digitLimit) :
    Operand scope ⟨.identifier, name, line⟩ (.int n)

inductive Reads (scope : Scope) : List Token → Chain Operator Scalar → Prop
  | single {t : Token} {a : Scalar} (h : scope.Operand t a) : Reads scope [t] ⟨a, []⟩
  | cons {t : Token} {a : Scalar} {tokens : List Token} {c : Chain Operator Scalar} (op : Operator) (line : Int)
    (h : scope.Operand t a) (hrest : Reads scope tokens c) :
    Reads scope (t :: ⟨.operator, op.text, line⟩ :: tokens) (c.cons a op)

variable {scope : Scope} {t : Token} {tokens : List Token} {a : Scalar} {c : Chain Operator Scalar}

theorem Operand.spells (h : scope.Operand t a) :
    ∃ text, scope.tokenText? t = some text ∧ Formula.Spells text a := by
  cases h with
  | number h => exact ⟨_, rfl, Formula.spells_decimal h⟩
  | @bool name _ b h =>
    refine ⟨Formula.boolText b, ?_, Formula.spells_bool b⟩
    simp [tokenText?, h, Binding.toValue, operandText?, Value.literal, Value.literalWith, Formula.boolText]
  | @int name _ n h hlength =>
    refine ⟨Value.intText n, ?_, Formula.spells_int hlength⟩
    simp [tokenText?, h, Binding.toValue, operandText?, Value.literal, Value.literalWith, Value.intText?, hlength]

theorem Reads.spells (h : scope.Reads tokens c) :
    ∃ text, scope.formulaText? tokens = some text ∧ Formula.SpellsChain text c := by
  induction h with
  | single h =>
    obtain ⟨text, htext, hspells⟩ := h.spells
    exact ⟨text, by simp [formulaText?, htext], hspells.single⟩
  | cons op line h _ ih =>
    obtain ⟨text, htext, hspells⟩ := h.spells
    obtain ⟨rest, hrest, hchain⟩ := ih
    have hop : scope.tokenText? ⟨.operator, op.text, line⟩ = some op.text.toList := rfl
    exact ⟨text ++ (op.text.toList ++ rest), by simp [formulaText?, htext, hop, hrest], .cons hspells op hchain⟩

theorem Operand.repr {n : Nat} (h : (Nat.toDigits 10 n).length ≤ Text.digitLimit) (line : Int) :
    scope.Operand ⟨.number, n.repr, line⟩ (.int n) := by
  have hdecimal : Formula.IsDecimal n.repr.toList := by
    rw [Nat.toList_repr]
    exact Formula.isDecimal_toDigits h
  have hnumber : scope.Operand ⟨.number, n.repr, line⟩ _ := .number hdecimal
  rwa [Nat.toList_repr, Nat.ofDigitChars_ten_toDigits] at hnumber

end Scope

theorem State.run_evaluate_of_reads {s : State} {tokens : List Token} {c : Chain Operator Scalar} {a : Scalar}
    (h : s.scope.Reads tokens c) (ha : c.eval = some a) :
    (evaluate tokens : Run Value).run s = (.ok a.toValue, s.consult tokens) := by
  obtain ⟨text, htext, hchain⟩ := h.spells
  rw [run_evaluate htext, answer, hchain.evaluate, ha]
  rfl

/-- An expression of integers evaluates to the value of its chain, and fails exactly if that takes a
remainder by zero. The chain may have any length; that a host reads expressions only up to a depth
of its own is put aside. -/
theorem State.evaluate_integers {s : State} {tokens : List Token} {c : Chain Operator Scalar}
    (h : s.scope.Reads tokens c) :
    ∃ text, s.scope.formulaText? tokens = some text ∧
      ((evaluate tokens : Run Value).run s).1 =
        match c.eval with
        | some a => .ok a.toValue
        | none => .error (.diagnostic (.evaluation (String.ofList text) (.value .zeroModulus))) := by
  obtain ⟨text, htext, hchain⟩ := h.spells
  refine ⟨text, htext, ?_⟩
  rw [run_evaluate htext, answer, hchain.evaluate]
  cases c.eval <;> rfl

section Mixed

def mixed : State := { scope := (({} : Scope).bind "x" (.int (-7))).bind "b" (.bool true) }

/-- `5-x*b&12|x%4<100>b` -/
def mixedTokens : List Token :=
  [⟨.number, "5", 1⟩, ⟨.operator, "-", 1⟩, ⟨.identifier, "x", 1⟩, ⟨.operator, "*", 1⟩, ⟨.identifier, "b", 1⟩,
    ⟨.operator, "&", 1⟩, ⟨.number, "12", 1⟩, ⟨.operator, "|", 1⟩, ⟨.identifier, "x", 1⟩, ⟨.operator, "%", 1⟩,
    ⟨.number, "4", 1⟩, ⟨.operator, "<", 1⟩, ⟨.number, "100", 1⟩, ⟨.operator, ">", 1⟩, ⟨.identifier, "b", 1⟩]

theorem State.evaluate_integers_mixed :
    mixed.EvaluatesTo mixedTokens (.bool true) ∧
      ∃ text, ((evaluate [⟨.identifier, "x", 1⟩, ⟨.operator, "%", 1⟩, ⟨.number, "0", 1⟩] : Run Value).run mixed).1 =
        .error (.diagnostic (.evaluation text (.value .zeroModulus))) := by
  have hx : mixed.scope.Operand ⟨.identifier, "x", 1⟩ (.int (-7)) := .int rfl (by decide)
  have hb : mixed.scope.Operand ⟨.identifier, "b", 1⟩ (.bool true) := .bool rfl
  have hmixed : mixed.scope.Reads mixedTokens _ :=
    .cons (.arithmetic .sub) 1 (.number (by decide)) <| .cons (.arithmetic .mul) 1 hx <|
      .cons (.arithmetic .bitAnd) 1 hb <| .cons (.arithmetic .bitOr) 1 (.number (by decide)) <|
        .cons (.arithmetic .mod) 1 hx <| .cons (.relation .lt) 1 (.number (by decide)) <|
          .cons (.relation .gt) 1 (.number (by decide)) <| .single hb
  have hzero : mixed.scope.Reads [⟨.identifier, "x", 1⟩, ⟨.operator, "%", 1⟩, ⟨.number, "0", 1⟩] _ :=
    .cons (.arithmetic .mod) 1 hx <| .single (.number (by decide))
  constructor
  · obtain ⟨_, _, hvalue⟩ := evaluate_integers hmixed
    exact hvalue
  · obtain ⟨text, _, hvalue⟩ := evaluate_integers hzero
    exact ⟨_, hvalue⟩

end Mixed

end Bang
