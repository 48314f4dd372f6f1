import Bang.Text.Blank
import Bang.Text.Digit
import Bang.Text.Word

/-! Digits of all scripts among the other classes of characters: they are word characters and no white
space, and those of ASCII are the usual ten. -/

namespace Bang.Text

variable {c : Char}

def IsDigits (digits : List Char) : Prop := digits ≠ [] ∧ ∀ c ∈ digits, isDigit c = true

theorem IsDigits.head {digits : List Char} (h : IsDigits digits) : digits.head?.any isDigit = true := by
  obtain ⟨c, cs, rfl⟩ := List.exists_cons_of_ne_nil h.1
  exact h.2 c List.mem_cons_self

theorem exists_interval_of_isDigit (h : isDigit c = true) :
    c.isDigit = true ∨ ∃ first ∈ scriptZeros, first ≤ c.toNat ∧ c.toNat < first + 10 := by
  unfold isDigit digit? at h
  split at h
  · exact .inl ‹_›
  · rw [Option.isSome_map, List.find?_isSome] at h
    obtain ⟨first, hmem, hbounds⟩ := h
    right
    exact ⟨first, hmem, by simpa using hbounds⟩

theorem isDigit_of_lt (h : c.toNat < 0x660) : isDigit c = c.isDigit := by
  have hfirsts : ∀ first ∈ scriptZeros, 0x660 ≤ first := by
    have hall : scriptZeros.all (0x660 ≤ ·) := by decide +kernel
    simpa using hall
  cases hc : c.isDigit with
  | true => simp [isDigit, digit?, hc]
  | false =>
    rw [Bool.eq_false_iff]
    intro hdigit
    rcases exists_interval_of_isDigit hdigit with hdigit | ⟨first, hmem, hle, _⟩
    · rw [hc] at hdigit
      cases hdigit
    · have hfirst := hfirsts first hmem
      omega

theorem toNat_of_isDigit (h : c.isDigit = true) : 0x30 ≤ c.toNat ∧ c.toNat ≤ 0x39 := by
  obtain ⟨hlow, hhigh⟩ := (Bool.and_eq_true _ _).mp h
  exact ⟨UInt32.le_iff_toNat_le.mp (of_decide_eq_true hlow), UInt32.le_iff_toNat_le.mp (of_decide_eq_true hhigh)⟩

theorem isWord_of_isDigit (h : isDigit c = true) : isWord c = true := by
  unfold isWord
  rcases exists_interval_of_isDigit h with hascii | ⟨first, hmem, hle, hlt⟩
  · have hbounds := toNat_of_isDigit hascii
    have hpart : c.isAlphanum = true := (Bool.or_eq_true _ _).mpr (.inr hascii)
    rw [if_pos (by omega), hpart, Bool.true_or]
  · have hfirsts : ∀ first ∈ scriptZeros, 0x80 ≤ first ∧
        ∃ interval ∈ wordIntervals, interval.1 ≤ first ∧ first + 9 ≤ interval.2 := by
      have hall : scriptZeros.all fun first => Nat.ble 0x80 first && wordIntervals.any fun interval =>
          Nat.ble interval.1 first && Nat.ble (first + 9) interval.2 := by decide +kernel
      simpa using hall
    obtain ⟨hlarge, interval, hinterval, hlow, hhigh⟩ := hfirsts first hmem
    rw [if_neg (by omega), within, List.any_eq_true]
    refine ⟨interval, hinterval, ?_⟩
    simp only [Bool.and_eq_true, decide_eq_true_eq]
    omega

theorem isBlank_of_isDigit (h : isDigit c = true) : isBlank c = false := by
  have hfirsts : ∀ interval ∈ blankIntervals, (interval.2 < 0x30 ∨ 0x39 < interval.1) ∧
      ∀ first ∈ scriptZeros, interval.2 < first ∨ first + 9 < interval.1 := by
    have hall : blankIntervals.all fun interval => (interval.2 < 0x30 || 0x39 < interval.1) &&
        scriptZeros.all fun first => interval.2 < first || first + 9 < interval.1 := by decide +kernel
    simpa using hall
  rw [isBlank, within, List.any_eq_false]
  intro interval hinterval
  obtain ⟨hascii, hscripts⟩ := hfirsts interval hinterval
  simp only [Bool.and_eq_true, decide_eq_true_eq]
  rcases exists_interval_of_isDigit h with hdigit | ⟨first, hmem, hle, hlt⟩
  · have hbounds := toNat_of_isDigit hdigit
    omega
  · have hfirst := hscripts first hmem
    omega

theorem ne_of_isDigit (h : isDigit c = true) (other : Char) (hother : isDigit other = false) : c ≠ other := by
  rintro rfl
  rw [hother] at h
  cases h

end Bang.Text
