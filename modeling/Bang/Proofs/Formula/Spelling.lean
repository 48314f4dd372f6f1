import Bang.Proofs.Formula.Chain
import Bang.Proofs.Formula.Lexing

/-! Texts that write chains of integers. Operands and operators are put side by side without blanks, and each
keeps to itself: no operator grows longer by the sign of the number behind it, and no number runs on into the
operator. -/

namespace Bang.Formula

/-! ### Operators -/

def extenders : List Char := ['*', '<', '>', '=']

theorem symbol?_operator (op : Operator) {c : Char} (hc : c ∉ extenders) (rest : List Char) :
    symbol? (op.text.toList ++ c :: rest) = some (.symbol op.symbol, op.text.toList.length) := by
  simp only [extenders, List.mem_cons, List.not_mem_nil, or_false, not_or] at hc
  obtain ⟨hstar, hless, hgreater, hequal⟩ := hc
  rcases op with op | op <;> cases op <;>
    simp [symbol?, symbols, Operator.text, Operator.symbol, Arithmetic.toBinary, Relation.toComparison, Ne.symm hstar,
      Ne.symm hless, Ne.symm hgreater, Ne.symm hequal]

theorem lexeme?_operator (op : Operator) {c : Char} (hc : c ∉ extenders) (rest : List Char) :
    lexeme? (op.text.toList ++ c :: rest) = some (some (.symbol op.symbol), op.text.toList.length) := by
  have hsymbol := symbol?_operator op hc rest
  have hlexeme : lexeme? (op.text.toList ++ c :: rest) =
      (symbol? (op.text.toList ++ c :: rest)).map (Prod.map some id) := by
    rcases op with op | op <;> cases op <;> rfl
  rw [hlexeme, hsymbol]
  rfl

/-! ### Chains -/

/-- The text writes an operand, which an operator before it or behind it does not change. -/
structure Spells (text : List Char) (a : Scalar) : Prop where
  lexemes : ∀ tail, Separate tail →
    lexemesFrom 0 (text ++ tail) = (lexemesFrom 0 tail).map (scalarLexemes a ++ ·)
  head : ∃ c cs, text = c :: cs ∧ c ∉ extenders
  plain : '\x00' ∉ text ∧ '\r' ∉ text

theorem spells_decimal {digits : List Char} (h : IsDecimal digits) :
    Spells digits (.int (Nat.ofDigitChars 10 digits 0)) where
  lexemes tail htail := lexemesFrom_append h.ne_nil (lexeme?_decimal h htail)
  head := by
    obtain ⟨c, cs, rfl⟩ := List.exists_cons_of_ne_nil h.ne_nil
    have hc := h.isDigit c List.mem_cons_self
    exact ⟨c, cs, rfl, by simp [extenders, ne_of_isDigit hc]⟩
  plain := by
    constructor <;> intro hmem
    · exact absurd (h.isDigit _ hmem) (by decide)
    · exact absurd (h.isDigit _ hmem) (by decide)

theorem spells_bool (b : Bool) : Spells (boolText b) (.bool b) where
  lexemes tail htail := lexemesFrom_append (by cases b <;> decide) (lexeme?_bool b htail)
  head := by cases b <;> exact ⟨_, _, rfl, by decide⟩
  plain := by cases b <;> decide

theorem spells_int {n : Int} (h : (Nat.toDigits 10 n.natAbs).length ≤ Text.digitLimit) :
    Spells (Value.intText n) (.int n) := by
  have hsize := spells_decimal (isDecimal_toDigits h)
  rw [Nat.ofDigitChars_ten_toDigits] at hsize
  by_cases hn : n < 0
  · -- The sign is a lexeme of its own, and the size is read behind it.
    obtain ⟨c, cs, hdigits, hc⟩ := hsize.head
    rw [Value.intText, if_pos hn]
    refine ⟨fun tail htail => ?_, ⟨'-', _, rfl, by decide⟩, ?_⟩
    · have hminus : lexemesFrom 0 (['-'] ++ (Nat.toDigits 10 n.natAbs ++ tail)) =
          (lexemesFrom 0 (Nat.toDigits 10 n.natAbs ++ tail)).map (.symbol (.operator .sub) :: ·) := by
        refine lexemesFrom_append (by simp) ?_
        rw [hdigits]
        exact lexeme?_operator (.arithmetic .sub) hc _
      rw [← List.singleton_append, List.append_assoc, hminus, hsize.lexemes tail htail, Option.map_map]
      have hpositive : ¬ ((n.natAbs : Int) < 0) := by omega
      simp only [scalarLexemes, if_pos hn, if_neg hpositive, Int.natAbs_natCast]
      rfl
    · simpa using hsize.plain
  · have hnat : (n.natAbs : Int) = n := by omega
    rw [Value.intText, if_neg hn]
    rwa [hnat] at hsize

structure SpellsChain (text : List Char) (c : Chain Operator Scalar) : Prop where
  lexemes : lexemesFrom 0 text = some (chainLexemes c)
  head : ∃ c cs, text = c :: cs ∧ c ∉ extenders
  plain : '\x00' ∉ text ∧ '\r' ∉ text

variable {text rest : List Char} {a : Scalar} {c : Chain Operator Scalar}

theorem Spells.single (h : Spells text a) : SpellsChain text ⟨a, []⟩ := by
  have hlexemes := h.lexemes [] nofun
  rw [List.append_nil] at hlexemes
  exact ⟨hlexemes, h.head, h.plain⟩

theorem SpellsChain.cons (h : Spells text a) (op : Operator) (hrest : SpellsChain rest c) :
    SpellsChain (text ++ (op.text.toList ++ rest)) (c.cons a op) where
  lexemes := by
    obtain ⟨first, chars, rfl, hfirst⟩ := hrest.head
    have hseparate : Separate (op.text.toList ++ first :: chars) := by
      rcases op with op | op <;> cases op <;> rintro c ⟨⟩ <;> exact endsOperand_of_mem (by decide)
    have hne : op.text.toList ≠ [] := by
      rcases op with op | op <;> cases op <;> decide
    rw [h.lexemes _ hseparate, lexemesFrom_append hne (lexeme?_operator op hfirst chars), hrest.lexemes]
    rfl
  head := by
    obtain ⟨first, chars, rfl, hfirst⟩ := h.head
    exact ⟨first, _, rfl, hfirst⟩
  plain := by
    have hop : '\x00' ∉ op.text.toList ∧ '\r' ∉ op.text.toList := by
      rcases op with op | op <;> cases op <;> decide
    simp [h.plain, hop, hrest.plain]

theorem SpellsChain.evaluate (h : SpellsChain text c) : Formula.evaluate text = outcome c.eval := by
  obtain ⟨e, hread, heval⟩ := eval_read_chain c
  have hparse : parse? text = some e := by
    rw [parse?, Formula.lexemes, unifyLines_of_not_mem h.plain.2, h.lexemes]
    exact hread
  rw [Formula.evaluate, if_neg h.plain.1, hparse]
  exact heval

end Bang.Formula
