import Bang.Proofs.Text.Digit
import Bang.Text.Numeral
import Mathlib.Data.List.TakeWhile

/-! Numbers without signs, blanks and underscores are always read: a text of digits is an integer, unless it
is longer than the limit, and two such texts with a point between them are a real number. -/

namespace Bang.Text

inductive IsNumeral : List Char → Prop
  | integer {digits : List Char} : IsDigits digits → IsNumeral digits
  | real {digits places : List Char} : IsDigits digits → IsDigits places → IsNumeral (digits ++ '.' :: places)

variable {digits places cs : List Char}

theorem groupedDigits?_eq_map {value : Char → Nat} (hne : digits ≠ []) (h : ∀ c ∈ digits, digit? c = some (value c)) :
    groupedDigits? digits = some (digits.map value) := by
  induction digits with
  | nil => exact absurd rfl hne
  | cons c cs ih =>
    have hc := h c List.mem_cons_self
    cases cs with
    | nil => rw [groupedDigits?, hc, Option.map_some, List.map_singleton]
    | cons next cs =>
      have hdigit : isDigit next = true := Option.isSome_of_eq_some (h next (by simp))
      have hnext : next ≠ '_' := ne_of_isDigit hdigit '_' (by decide)
      have hvalues := ih (List.cons_ne_nil next cs) fun c hc => h c (List.mem_cons_of_mem _ hc)
      rw [groupedDigits?.eq_4 c (next :: cs) (by simp) (by simp [hnext]), hc, hvalues]
      rfl

theorem groupedDigits?_of_isDigits (h : IsDigits digits) :
    ∃ values, groupedDigits? digits = some values ∧ values.length = digits.length := by
  have hvalue : ∀ c ∈ digits, digit? c = some ((digit? c).getD 0) := by
    intro c hc
    obtain ⟨value, hvalue⟩ := Option.isSome_iff_exists.mp (h.2 c hc)
    rw [hvalue, Option.getD_some]
  exact ⟨_, groupedDigits?_eq_map h.1 hvalue, List.length_map _⟩

theorem IsDigits.last (h : IsDigits digits) : digits.getLast?.any isDigit = true := by
  rw [List.getLast?_eq_some_getLast h.1]
  exact h.2 _ (List.getLast_mem h.1)

theorem dropWhile_isPadding (h : cs.head?.any isDigit = true) : cs.dropWhile isPadding = cs := by
  cases cs with
  | nil => rfl
  | cons c cs =>
    have hc : isPadding c = false := by rw [isPadding, isBlank_of_isDigit h, Bool.false_and]
    exact List.dropWhile_cons_of_neg (by simp [hc])

theorem withoutPadding_eq (hfirst : cs.head?.any isDigit = true) (hlast : cs.getLast?.any isDigit = true) :
    withoutPadding cs = cs := by
  rw [← List.head?_reverse] at hlast
  rw [withoutPadding, dropWhile_isPadding hfirst, dropWhile_isPadding hlast, List.reverse_reverse]

theorem signed_eq (h : cs.head?.any isDigit = true) : signed cs = (false, cs) := by
  unfold signed
  split
  · exact absurd rfl (ne_of_isDigit h '-' (by decide))
  · exact absurd rfl (ne_of_isDigit h '+' (by decide))
  · rfl

theorem readInteger_of_groupedDigits? (h : IsDigits digits) {values : List Nat}
    (hvalues : groupedDigits? digits = some values) :
    readInteger digits =
      if digitLimit < values.length then .error (.tooLong values.length) else .ok (ofDigits values) := by
  have hrun : digits.takeWhile (fun c => isDigit c || c == '_') = digits :=
    List.takeWhile_eq_self_iff.mpr fun c hc => by rw [h.2 c hc, Bool.true_or]
  rw [readInteger, withoutPadding_eq h.head h.last, signed_eq h.head]
  simp only [hrun, hvalues, Nat.lt_irrefl, Bool.false_eq_true, if_false]

theorem readInteger_of_isDigits (h : IsDigits digits) :
    (∃ n, readInteger digits = .ok n) ∨
      digitLimit < digits.length ∧ readInteger digits = .error (.tooLong digits.length) := by
  obtain ⟨values, hvalues, hlength⟩ := groupedDigits?_of_isDigits h
  rw [readInteger_of_groupedDigits? h hvalues, hlength]
  by_cases hlong : digitLimit < digits.length
  · exact .inr ⟨hlong, if_pos hlong⟩
  · exact .inl ⟨ofDigits values, if_neg hlong⟩

theorem readInteger_toDigits {n : Nat} (h : (Nat.toDigits 10 n).length ≤ digitLimit) :
    readInteger (Nat.toDigits 10 n) = .ok n := by
  have hdigit : ∀ c ∈ Nat.toDigits 10 n, digit? c = some (c.toNat - '0'.toNat) :=
    fun _ hc => if_pos (Nat.isDigit_of_mem_toDigits (by decide) (by decide) hc)
  have hdigits : IsDigits (Nat.toDigits 10 n) :=
    ⟨Nat.toDigits_ne_nil, fun c hc => Option.isSome_of_eq_some (hdigit c hc)⟩
  have hvalue : ofDigits ((Nat.toDigits 10 n).map fun c => c.toNat - '0'.toNat) = n := by
    rw [ofDigits, List.foldl_map]
    exact Nat.ofDigitChars_ten_toDigits
  rw [readInteger_of_groupedDigits? hdigits (groupedDigits?_eq_map hdigits.1 hdigit), List.length_map,
    if_neg (Nat.not_lt.mpr h), hvalue]

theorem isExponentMark_of_isDigit {c : Char} (h : isDigit c = true) : isExponentMark c = false := by
  have hlower := ne_of_isDigit h 'e' (by decide)
  have hupper := ne_of_isDigit h 'E' (by decide)
  simp [isExponentMark, hlower, hupper]

theorem isSome_size? (h : IsDigits digits) (hplaces : IsDigits places) :
    (size? (digits ++ '.' :: places)).isSome = true := by
  have hmantissa : ∀ c ∈ digits ++ '.' :: places, (!isExponentMark c) = true := by
    intro c hc
    rcases List.mem_append.mp hc with hc | hc
    · rw [isExponentMark_of_isDigit (h.2 c hc), Bool.not_false]
    · rcases List.mem_cons.mp hc with rfl | hc
      · rfl
      · rw [isExponentMark_of_isDigit (hplaces.2 c hc), Bool.not_false]
  have hpoint : ∀ c ∈ digits, (c != '.') = true := fun c hc => by
    simpa using ne_of_isDigit (h.2 c hc) '.' (by decide)
  have hwhole : (digits ++ '.' :: places).takeWhile (· != '.') = digits := by
    rw [List.takeWhile_append_of_pos hpoint, List.takeWhile_cons_of_neg (by simp), List.append_nil]
  have hfraction : ((digits ++ '.' :: places).dropWhile (· != '.')).drop 1 = places := by
    rw [List.dropWhile_append_of_pos hpoint, List.dropWhile_cons_of_neg (by simp), List.drop_one, List.tail_cons]
  obtain ⟨whole, hwholeDigits, hlength⟩ := groupedDigits?_of_isDigits h
  obtain ⟨fraction, hfractionDigits, _⟩ := groupedDigits?_of_isDigits hplaces
  have hne : whole ≠ [] := by
    rintro rfl
    exact h.1 (List.length_eq_zero_iff.mp hlength.symm)
  rw [size?, List.takeWhile_eq_self_iff.mpr hmantissa, List.dropWhile_eq_nil_iff.mpr hmantissa, hwhole, hfraction]
  simp [exponent?, optionalDigits?, h.1, hplaces.1, hwholeDigits, hfractionDigits, hne]

theorem readReal?_eq_size? (h : IsDigits digits) (hplaces : IsDigits places) :
    readReal? (digits ++ '.' :: places) = size? (digits ++ '.' :: places) := by
  have hfirst : (digits ++ '.' :: places).head?.any isDigit = true := by
    rw [List.head?_append, Option.or_of_isSome (List.isSome_head?.mpr h.1)]
    exact h.head
  have hlast : (digits ++ '.' :: places).getLast?.any isDigit = true := by
    rw [List.append_cons, List.getLast?_append, Option.or_of_isSome (List.getLast?_isSome.mpr hplaces.1)]
    exact hplaces.last
  rw [readReal?, withoutPadding_eq hfirst hlast, signed_eq hfirst]
  exact Option.map_id'

theorem isSome_readReal? (h : IsDigits digits) (hplaces : IsDigits places) :
    (readReal? (digits ++ '.' :: places)).isSome = true := by
  rw [readReal?_eq_size? h hplaces]
  exact isSome_size? h hplaces

end Bang.Text
