import Bang.Formula.Eval
import Mathlib.Data.Nat.Init

/-! Lexemes at the front of a text: numbers and truth values, as far as the operator that follows them. -/

namespace Bang.Formula

theorem lexemesFrom_eq_drop (skip : Nat) (cs : List Char) : lexemesFrom skip cs = lexemesFrom 0 (cs.drop skip) := by
  induction cs generalizing skip with
  | nil =>
    rw [List.drop_nil]
    cases skip <;> rfl
  | cons c cs ih =>
    cases skip with
    | zero => rfl
    | succ skip => exact ih skip

theorem lexemesFrom_append {text rest : List Char} {lexeme : Lexeme} (hne : text ≠ [])
    (h : lexeme? (text ++ rest) = some (some lexeme, text.length)) :
    lexemesFrom 0 (text ++ rest) = (lexemesFrom 0 rest).map (lexeme :: ·) := by
  obtain ⟨c, cs, rfl⟩ := List.exists_cons_of_ne_nil hne
  rw [List.cons_append] at h ⊢
  rw [lexemesFrom, h]
  simp only [List.length_cons, Nat.add_sub_cancel]
  rw [lexemesFrom_eq_drop, List.drop_left]

/-! ### Line breaks -/

theorem unifyLines_cons {c : Char} (h : c ≠ '\r') (cs : List Char) : unifyLines (c :: cs) = c :: unifyLines cs := by
  simp [unifyLines, h]

theorem unifyLines_of_not_mem {cs : List Char} (h : '\r' ∉ cs) : unifyLines cs = cs := by
  induction cs with
  | nil => rfl
  | cons c cs ih =>
    rw [List.mem_cons, not_or] at h
    rw [unifyLines_cons (Ne.symm h.1), ih h.2]

/-! ### Numbers and truth values -/

structure EndsOperand (c : Char) : Prop where
  digit : (c.isDigit || c == '_') = false
  point : c ≠ '.'
  exponent : Text.isExponentMark c = false
  base : base? c = none
  name : continuesName c = false
  quote : (c == '"' || c == '\'') = false

theorem endsOperand_of_mem {c : Char} (h : c ∈ ['+', '-', '*', '%', '&', '|', '=', '<', '>']) : EndsOperand c := by
  simp only [List.mem_cons, List.not_mem_nil, or_false] at h
  rcases h with rfl | rfl | rfl | rfl | rfl | rfl | rfl | rfl | rfl <;>
    exact ⟨by decide, by decide, by decide, by decide, by decide, by decide⟩

def Separate (tail : List Char) : Prop := ∀ c, tail.head? = some c → EndsOperand c

theorem takeWhile_append {p : Char → Bool} {text tail : List Char} (htext : ∀ c ∈ text, p c = true)
    (htail : ∀ c, tail.head? = some c → p c = false) : (text ++ tail).takeWhile p = text := by
  rw [List.takeWhile_append_of_pos htext]
  cases tail with
  | nil => simp
  | cons c cs => rw [List.takeWhile_cons_of_neg (by simp [htail c rfl]), List.append_nil]

/-- A decimal number without superfluous zeros that is not too long. -/
structure IsDecimal (digits : List Char) : Prop where
  ne_nil : digits ≠ []
  isDigit : ∀ c ∈ digits, c.isDigit = true
  zero : digits.head? = some '0' → digits = ['0']
  length : digits.length ≤ Text.digitLimit

instance (digits : List Char) : Decidable (IsDecimal digits) :=
  decidable_of_iff
    (digits ≠ [] ∧ digits.all Char.isDigit = true ∧ (digits.head? = some '0' → digits = ['0']) ∧
      digits.length ≤ Text.digitLimit)
    ⟨fun ⟨hne, hdigit, hzero, hlength⟩ => ⟨hne, List.all_eq_true.mp hdigit, hzero, hlength⟩,
      fun h => ⟨h.ne_nil, List.all_eq_true.mpr h.isDigit, h.zero, h.length⟩⟩

section Decimal

variable {digits tail : List Char}

theorem ne_of_isDigit {c x : Char} (hc : c.isDigit = true) (hx : x.isDigit = false) : c ≠ x := by
  rintro rfl
  rw [hc] at hx
  cases hx

theorem isGrouped_of_isDigit (h : ∀ c ∈ digits, c.isDigit = true) : isGrouped digits = true := by
  induction digits with
  | nil => rfl
  | cons c cs ih =>
    have hc : c ≠ '_' := ne_of_isDigit (h c List.mem_cons_self) rfl
    have hcs := ih fun c hc => h c (List.mem_cons_of_mem _ hc)
    simp [isGrouped, hc, hcs]

theorem withoutGroups_of_isDigit (h : ∀ c ∈ digits, c.isDigit = true) : withoutGroups digits = digits :=
  List.filter_eq_self.mpr fun c hc => bne_iff_ne.mpr (ne_of_isDigit (h c hc) rfl)

theorem integer?_of_isDecimal (h : IsDecimal digits) :
    integer? digits = some (.int (Nat.ofDigitChars 10 digits 0)) := by
  unfold integer?
  by_cases hzeros : digits.all (· == '0') = true
  · obtain ⟨c, cs, rfl⟩ := List.exists_cons_of_ne_nil h.ne_nil
    have hc : c = '0' := by simpa using List.all_eq_true.mp hzeros c List.mem_cons_self
    rw [if_pos hzeros, h.zero (by rw [hc]; rfl)]
    rfl
  · have hhead : digits.head? ≠ some '0' := fun hzero => hzeros (by rw [h.zero hzero]; rfl)
    have hlength : ¬ Text.digitLimit < digits.length := Nat.not_lt.mpr h.length
    rw [if_neg hzeros, if_neg (by simp [hhead, hlength])]

section Tail

variable (htail : Separate tail)

include htail

theorem fraction?_separate : fraction? tail = some [] := by
  cases tail with
  | nil => rfl
  | cons c cs => simp [fraction?, (htail c rfl).point]

theorem exponent?_separate : exponent? tail = some [] := by
  cases tail with
  | nil => rfl
  | cons c cs => simp [exponent?, (htail c rfl).exponent]

theorem finished_separate : finished tail = true := by
  cases tail with
  | nil => rfl
  | cons c cs => simp [finished, (htail c rfl).name]

theorem decimal?_append (h : IsDecimal digits) :
    decimal? (digits ++ tail) = some (.int (Nat.ofDigitChars 10 digits 0), digits.length) := by
  have hwhole : digitRun Char.isDigit (digits ++ tail) = digits :=
    takeWhile_append (fun c hc => by simp [h.isDigit c hc]) fun c hc => (htail c hc).digit
  simp [decimal?, hwhole, fraction?_separate htail, exponent?_separate htail, finished_separate htail,
    isGrouped_of_isDigit h.isDigit, withoutGroups_of_isDigit h.isDigit, integer?_of_isDecimal h]

theorem number?_append (h : IsDecimal digits) :
    number? (digits ++ tail) = some (.int (Nat.ofDigitChars 10 digits 0), digits.length) := by
  rw [← decimal?_append htail h]
  unfold number?
  split
  · -- Zero stands alone, so the mark behind it is the operator that follows.
    rename_i mark rest heq
    obtain ⟨c, cs, rfl⟩ := List.exists_cons_of_ne_nil h.ne_nil
    obtain ⟨rfl, hrest⟩ := List.cons.inj heq
    obtain rfl : cs = [] := List.tail_eq_of_cons_eq (h.zero rfl)
    have hmark : tail.head? = some mark := congrArg List.head? hrest
    rw [(htail mark hmark).base]
  · rfl

end Tail

theorem lexeme?_of_isDigit {c : Char} (hc : c.isDigit = true) (cs : List Char) :
    lexeme? (c :: cs) = (number? (c :: cs)).map fun (value, length) => (some (.constant value), length) := by
  simp [lexeme?, hc, ne_of_isDigit hc]

theorem lexeme?_decimal (h : IsDecimal digits) (htail : Separate tail) :
    lexeme? (digits ++ tail) =
      some (some (.constant (.int (Nat.ofDigitChars 10 digits 0))), digits.length) := by
  have hnumber := number?_append htail h
  obtain ⟨c, cs, rfl⟩ := List.exists_cons_of_ne_nil h.ne_nil
  rw [List.cons_append] at hnumber ⊢
  rw [lexeme?_of_isDigit (h.isDigit c List.mem_cons_self), hnumber]
  rfl

theorem head?_toDigits {n : Nat} (hn : n ≠ 0) : (Nat.toDigits 10 n).head? ≠ some '0' := by
  induction n using Nat.strong_induction_on with
  | _ n ih =>
    by_cases hsmall : n < 10
    · rw [Nat.toDigits_of_lt_base hsmall, List.head?_cons]
      simpa [Nat.digitChar_eq_zero] using hn
    · rw [Nat.toDigits_of_base_le (by decide) (Nat.not_lt.mp hsmall), List.head?_append, Option.or_of_isSome]
      · exact ih (n / 10) (by omega) (by omega)
      · simp [Nat.toDigits_ne_nil]

theorem isDecimal_toDigits {n : Nat} (h : (Nat.toDigits 10 n).length ≤ Text.digitLimit) :
    IsDecimal (Nat.toDigits 10 n) where
  ne_nil := Nat.toDigits_ne_nil
  isDigit c hc := Nat.isDigit_of_mem_toDigits (by decide) (by decide) hc
  zero hzero := by
    by_cases hn : n = 0
    · rw [hn]
      rfl
    · exact absurd hzero (head?_toDigits hn)
  length := h

end Decimal

def boolText (b : Bool) : List Char := if b then "True".toList else "False".toList

theorem lexeme?_bool (b : Bool) {tail : List Char} (htail : Separate tail) :
    lexeme? (boolText b ++ tail) = some (some (.constant (.bool b)), (boolText b).length) := by
  have hrun : (boolText b ++ tail).takeWhile continuesName = boolText b := by
    refine takeWhile_append ?_ fun c hc => (htail c hc).name
    exact List.all_eq_true.mp (by cases b <;> decide)
  have hquote : (tail.head?.any fun c => c == '"' || c == '\'') = false := by
    cases tail with
    | nil => rfl
    | cons c cs => exact (htail c rfl).quote
  have hname : name? (boolText b ++ tail) = some (.constant (.bool b), (boolText b).length) := by
    unfold name?
    simp only [hrun, List.drop_left, hquote]
    cases b <;> rfl
  have hlexeme : lexeme? (boolText b ++ tail) =
      (name? (boolText b ++ tail)).map (Prod.map some id) := by
    cases b <;> rfl
  rw [hlexeme, hname]
  rfl

end Bang.Formula
