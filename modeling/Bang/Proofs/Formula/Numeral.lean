import Bang.Proofs.Formula.Lexing
import Bang.Proofs.Text.Numeral

/-! Numerals in expressions. An expression reads fewer numerals than stand on their own: its digits are those of
ASCII, and an integer other than zero begins with none. Those that it reads have the same value. -/

namespace Bang.Formula

open Text

def IsPlain (text : List Char) : Prop :=
  (∀ c ∈ text, c.toNat < 0x80) ∧ ('.' ∈ text ∨ text.head? ≠ some '0' ∨ ∀ c ∈ text, c = '0')

instance (text : List Char) : Decidable (IsPlain text) :=
  decidable_of_iff
    (text.all (·.toNat < 0x80) = true ∧ ('.' ∈ text ∨ text.head? ≠ some '0' ∨ text.all (· == '0') = true))
    (by simp [IsPlain])

variable {c : Char} {cs digits places front rest text : List Char}

/-! ### Characters -/

theorem of_not_ascii (h : 0x80 ≤ c.toNat) :
    (c.isDigit || c == '_') = false ∧ c ≠ '.' ∧ isExponentMark c = false ∧ continuesName c = true := by
  have hne (other : Char) (hother : other.toNat < 0x80) : c ≠ other := by
    rintro rfl
    omega
  have hdigit : c.isDigit = false := by
    rw [Bool.eq_false_iff]
    intro hdigit
    have hbounds := toNat_of_isDigit hdigit
    omega
  have hname : continuesName c = true := by simp [continuesName, h]
  refine ⟨?_, hne '.' (by decide), ?_, hname⟩
  · simp [hdigit, hne '_' (by decide)]
  · simp [isExponentMark, hne 'e' (by decide), hne 'E' (by decide)]

theorem lt_of_isDigit (h : c.isDigit = true) : c.toNat < 0x80 := by
  have hbounds := toNat_of_isDigit h
  omega

theorem isDigit_of_ascii (hc : isDigit c = true) (hascii : c.toNat < 0x80) : c.isDigit = true := by
  rwa [← isDigit_of_lt (Nat.lt_trans hascii (by decide))]

theorem exists_not_ascii (h : ∀ c ∈ digits, isDigit c = true) :
    (∀ c ∈ digits, c.isDigit = true) ∨
      ∃ front c rest, digits = front ++ c :: rest ∧ (∀ c ∈ front, c.isDigit = true) ∧ 0x80 ≤ c.toNat := by
  induction digits with
  | nil => exact .inl nofun
  | cons c cs ih =>
    by_cases hc : c.toNat < 0x80
    · have hdigit := isDigit_of_ascii (h c List.mem_cons_self) hc
      rcases ih fun c hc => h c (List.mem_cons_of_mem _ hc) with hall | ⟨front, x, rest, rfl, hfront, hx⟩
      · exact .inl (List.forall_mem_cons.mpr ⟨hdigit, hall⟩)
      · exact .inr ⟨c :: front, x, rest, rfl, List.forall_mem_cons.mpr ⟨hdigit, hfront⟩, hx⟩
    · exact .inr ⟨[], c, cs, rfl, nofun, Nat.not_lt.mp hc⟩

theorem digitRun_append (h : ∀ c ∈ front, c.isDigit = true)
    (hrest : ∀ c, rest.head? = some c → (c.isDigit || c == '_') = false) :
    digitRun Char.isDigit (front ++ rest) = front :=
  takeWhile_append (fun c hc => by simp [h c hc]) hrest

/-! ### Numbers by their parts -/

theorem decimal?_parts {whole fraction : List Char} (hwhole : ∀ c ∈ whole, c.isDigit = true)
    (hrun : digitRun Char.isDigit (whole ++ (fraction ++ rest)) = whole)
    (hfraction : fraction? (fraction ++ rest) = some fraction) (hexponent : exponent? rest = some []) :
    decimal? (whole ++ (fraction ++ rest)) =
      if finished rest then
        if fraction.isEmpty then (integer? whole).map fun v => (v, whole.length)
        else (size? (whole ++ fraction)).map fun x => (.float x, whole.length + fraction.length)
      else none := by
  have hdrop : (whole ++ (fraction ++ rest)).drop (whole.length + fraction.length) = rest := by
    rw [← List.append_assoc, ← List.length_append, List.drop_left]
  have htake : (whole ++ (fraction ++ rest)).take (whole.length + fraction.length) = whole ++ fraction := by
    rw [← List.append_assoc, ← List.length_append, List.take_left]
  simp only [decimal?, hrun, List.drop_left, hfraction, Option.bind_eq_bind, Option.bind_some, hdrop, hexponent,
    List.length_nil, Nat.add_zero, htake, isGrouped_of_isDigit hwhole, withoutGroups_of_isDigit hwhole,
    List.isEmpty_nil, Bool.and_true, Bool.not_true, Bool.false_or]
  cases finished rest with
  | false => rfl
  | true =>
    cases hempty : fraction.isEmpty with
    | true =>
      obtain rfl := List.isEmpty_iff.mp hempty
      cases integer? whole <;> rfl
    | false => cases size? (whole ++ fraction) <;> rfl

theorem fraction?_of_head? (h : rest.head? ≠ some '.') : fraction? rest = some [] := by
  cases rest with
  | nil => rfl
  | cons c cs =>
    have hc : c ≠ '.' := by simpa using h
    simp [fraction?, hc]

theorem fraction?_places (h : ∀ c ∈ front, c.isDigit = true)
    (hrest : ∀ c, rest.head? = some c → (c.isDigit || c == '_') = false) :
    fraction? ('.' :: (front ++ rest)) = some ('.' :: front) := by
  have hrun := digitRun_append h hrest
  have hdigits : (front.isEmpty || isDigits front) = true := by
    cases front with
    | nil => rfl
    | cons c cs => simp [isDigits, h c List.mem_cons_self, isGrouped_of_isDigit h]
  simp only [fraction?, hrun, hdigits, if_true]

theorem number?_eq_decimal? (h : ∀ c ∈ cs, base? c = none) : number? cs = decimal? cs := by
  unfold number?
  split
  · rename_i mark rest
    rw [h mark (by simp)]
  · rfl

theorem base?_of_isDigit (h : isDigit c = true) : base? c = none := by
  have hne (other : Char) (hother : isDigit other = false) : c ≠ other := Text.ne_of_isDigit h other hother
  simp [base?, hne 'x' (by decide), hne 'X' (by decide), hne 'o' (by decide), hne 'O' (by decide), hne 'b' (by decide),
    hne 'B' (by decide)]

/-! ### Where a number stops at a digit of another script -/

section Alien

variable (hfront : ∀ c ∈ front, c.isDigit = true) (hc : 0x80 ≤ c.toNat)

include hfront hc

theorem decimal?_alien_whole : decimal? (front ++ c :: rest) = none := by
  obtain ⟨hdigit, hpoint, hexponent, hname⟩ := of_not_ascii hc
  have hrun : digitRun Char.isDigit (front ++ ([] ++ c :: rest)) = front := by
    refine digitRun_append hfront ?_
    rintro _ ⟨rfl⟩
    exact hdigit
  have hfraction : fraction? ([] ++ c :: rest) = some [] := fraction?_of_head? (by simpa using hpoint)
  have hnone : exponent? (c :: rest) = some [] := by simp [exponent?, hexponent]
  have hparts := decimal?_parts hfront hrun hfraction hnone
  rw [List.nil_append] at hparts
  rw [hparts]
  simp [finished, hname]

theorem decimal?_alien_places (hdigits : ∀ c ∈ digits, c.isDigit = true) :
    decimal? (digits ++ '.' :: (front ++ c :: rest)) = none := by
  obtain ⟨hdigit, _, hexponent, hname⟩ := of_not_ascii hc
  have hfraction : fraction? ('.' :: front ++ c :: rest) = some ('.' :: front) := by
    refine fraction?_places hfront ?_
    rintro _ ⟨rfl⟩
    exact hdigit
  have hrun : digitRun Char.isDigit (digits ++ ('.' :: front ++ c :: rest)) = digits := by
    refine digitRun_append hdigits ?_
    rintro _ ⟨rfl⟩
    decide
  have hnone : exponent? (c :: rest) = some [] := by simp [exponent?, hexponent]
  have hparts := decimal?_parts hdigits hrun hfraction hnone
  rw [List.cons_append] at hparts
  rw [hparts]
  simp [finished, hname]

end Alien

theorem lexeme?_alien (hdigit : isDigit c = true) (hc : 0x80 ≤ c.toNat) : lexeme? (c :: cs) = none := by
  have hne (other : Char) (hother : isDigit other = false) : c ≠ other := Text.ne_of_isDigit hdigit other hother
  obtain ⟨hrun, hpoint, _, hname⟩ := of_not_ascii hc
  have hascii : c.isDigit = false := (Bool.or_eq_false_iff.mp hrun).1
  have hnone : name? (c :: cs) = none := by simp [name?, hname, hdigit]
  simp [lexeme?, hascii, hpoint, hname, hnone, hne ' ' (by decide), hne '\t' (by decide), hne '\x0c' (by decide),
    hne '\n' (by decide), hne '#' (by decide), hne '\\' (by decide), hne '"' (by decide), hne '\'' (by decide)]

/-! ### Numerals -/

theorem isDigit_or_point_of_isNumeral (h : IsNumeral text) : ∀ c ∈ text, isDigit c = true ∨ c = '.' := by
  cases h with
  | integer h => exact fun c hc => .inl (h.2 c hc)
  | real h hplaces =>
    intro c hc
    rcases List.mem_append.mp hc with hc | hc
    · exact .inl (h.2 c hc)
    · rcases List.mem_cons.mp hc with rfl | hc
      · exact .inr rfl
      · exact .inl (hplaces.2 c hc)

theorem not_mem_of_isNumeral (h : IsNumeral text) {other : Char} (hdigit : isDigit other = false)
    (hpoint : other ≠ '.') : other ∉ text := by
  intro hmem
  rcases isDigit_or_point_of_isNumeral h other hmem with hother | hother
  · rw [hdigit] at hother
    cases hother
  · exact hpoint hother

theorem number?_of_isNumeral (h : IsNumeral text) : number? text = decimal? text := by
  apply number?_eq_decimal?
  intro c hc
  rcases isDigit_or_point_of_isNumeral h c hc with hdigit | rfl
  · exact base?_of_isDigit hdigit
  · rfl

theorem exists_digit_of_isNumeral (h : IsNumeral text) : ∃ c cs, text = c :: cs ∧ isDigit c = true := by
  have hhead {digits : List Char} (h : IsDigits digits) : ∃ c cs, digits = c :: cs ∧ isDigit c = true := by
    obtain ⟨c, cs, rfl⟩ := List.exists_cons_of_ne_nil h.1
    exact ⟨c, cs, rfl, h.2 c List.mem_cons_self⟩
  cases h with
  | integer h => exact hhead h
  | real h _ =>
    obtain ⟨c, cs, rfl, hc⟩ := hhead h
    exact ⟨c, _, List.cons_append, hc⟩

theorem isBadNumber_of_isNumeral (h : IsNumeral text) : isBadNumber text = true := by
  unfold isBadNumber
  cases hhead : (text.dropWhile fun c => c.isDigit || c == '_' || c == '.').head? with
  | none => rfl
  | some c =>
    have hletters : "abefijnoxBEJOX".toList.all (fun c => !isDigit c && c != '.') := by decide
    have hmem : c ∈ text := (List.dropWhile_suffix _).subset (List.mem_of_mem_head? hhead)
    have hletter : c ∉ "abefijnoxBEJOX".toList := by
      intro hin
      have hother := List.all_eq_true.mp hletters c hin
      rcases isDigit_or_point_of_isNumeral h c hmem with hdigit | rfl
      · simp [hdigit] at hother
      · simp at hother
    simpa using hletter

theorem isHopeless_of_isNumeral (h : IsNumeral (c :: cs)) (hdigit : isDigit c = true) :
    isHopeless (c :: cs) = true := by
  have hne (other : Char) (hother : isDigit other = false) : c ≠ other := Text.ne_of_isDigit hdigit other hother
  have hquote : (c == '"' || c == '\'') = false := by simp [hne '"' (by decide), hne '\'' (by decide)]
  cases hascii : c.isDigit with
  | true => simp [isHopeless, hne '\\' (by decide), hquote, hascii, isBadNumber_of_isNumeral h]
  | false =>
    have hname : continuesName c = true := by
      have hhigh : ¬ c.toNat < 0x660 := fun hlow => by simp [Text.isDigit_of_lt hlow, hascii] at hdigit
      have hhigh : 0x80 ≤ c.toNat := by omega
      simp [continuesName, hhigh]
    simp [isHopeless, isBadWord, hne '\\' (by decide), hquote, hascii, hne '.' (by decide), hname, hdigit]

theorem isMalformed_of_isNumeral (h : IsNumeral text) (hnone : lexeme? text = none) : isMalformed text = true := by
  have hreturn : '\r' ∉ text := not_mem_of_isNumeral h (by decide) (by decide)
  obtain ⟨c, cs, rfl, hdigit⟩ := exists_digit_of_isNumeral h
  have hunread : unread 0 (c :: cs) = c :: cs := by rw [unread, hnone]
  simp [isMalformed, unifyLines_of_not_mem hreturn, hunread, isHopeless_of_isNumeral h hdigit]

theorem evaluate_of_isNumeral (h : IsNumeral text) {value? : Option Value}
    (hlexeme : lexeme? text = value?.map fun v => (some (.constant v), text.length)) :
    evaluate text = value?.elim (.error .malformed) .ok := by
  have hnull : '\x00' ∉ text := not_mem_of_isNumeral h (by decide) (by decide)
  have hreturn : '\r' ∉ text := not_mem_of_isNumeral h (by decide) (by decide)
  have hne : text ≠ [] := by
    obtain ⟨c, cs, rfl, _⟩ := exists_digit_of_isNumeral h
    exact List.cons_ne_nil c cs
  rw [evaluate, if_neg hnull, parse?, lexemes, unifyLines_of_not_mem hreturn]
  cases value? with
  | none =>
    rw [isMalformed_of_isNumeral h hlexeme, if_pos rfl]
    obtain ⟨c, cs, rfl⟩ := List.exists_cons_of_ne_nil hne
    rw [lexemesFrom, hlexeme]
    rfl
  | some v =>
    have hfront : lexeme? (text ++ []) = some (some (.constant v), text.length) := by rwa [List.append_nil]
    have hlexemes := lexemesFrom_append hne hfront
    rw [List.append_nil] at hlexemes
    rw [hlexemes]
    rfl

theorem evaluate_malformed (h : IsNumeral text) (hnone : lexeme? text = none) : evaluate text = .error .malformed :=
  @evaluate_of_isNumeral text h none hnone

theorem lexeme?_alien_whole (h : IsNumeral (front ++ c :: rest)) (hfront : ∀ c ∈ front, c.isDigit = true)
    (hc : 0x80 ≤ c.toNat) : lexeme? (front ++ c :: rest) = none := by
  have hnumber := number?_of_isNumeral h
  rw [decimal?_alien_whole hfront hc] at hnumber
  cases front with
  | nil =>
    have hpoint := (of_not_ascii hc).2.1
    have hdigit := (isDigit_or_point_of_isNumeral h c List.mem_cons_self).resolve_right hpoint
    exact lexeme?_alien hdigit hc
  | cons first front =>
    rw [List.cons_append] at hnumber ⊢
    rw [lexeme?_of_isDigit (hfront first List.mem_cons_self), hnumber]
    rfl

theorem not_isPlain (h : c ∈ text) (hc : 0x80 ≤ c.toNat) : ¬ IsPlain text :=
  fun hplain => absurd (hplain.1 c h) (Nat.not_lt.mpr hc)

/-! ### Integers -/

theorem ofDigitChars_zeros (h : ∀ c ∈ digits, c = '0') : Nat.ofDigitChars 10 digits 0 = 0 := by
  induction digits with
  | nil => rfl
  | cons c cs ih =>
    rw [h c List.mem_cons_self, Nat.ofDigitChars_cons]
    exact ih fun c hc => h c (List.mem_cons_of_mem _ hc)

theorem integer?_of_isDigit (h : ∀ c ∈ digits, c.isDigit = true) (hlength : digits.length ≤ digitLimit) :
    integer? digits = if IsPlain digits then some (.int (Nat.ofDigitChars 10 digits 0)) else none := by
  have hascii : ∀ c ∈ digits, c.toNat < 0x80 := fun c hc => lt_of_isDigit (h c hc)
  have hpoint : '.' ∉ digits := fun hmem => absurd (h '.' hmem) (by decide)
  have hplain : IsPlain digits ↔ digits.head? ≠ some '0' ∨ ∀ c ∈ digits, c = '0' :=
    ⟨fun ⟨_, hplain⟩ => hplain.resolve_left hpoint, fun hplain => ⟨hascii, .inr hplain⟩⟩
  have hzeros : digits.all (· == '0') = true ↔ ∀ c ∈ digits, c = '0' := by simp
  have hlong : ¬ digitLimit < digits.length := Nat.not_lt.mpr hlength
  unfold integer?
  by_cases hall : ∀ c ∈ digits, c = '0'
  · rw [if_pos (hzeros.mpr hall), if_pos (hplain.mpr (.inr hall)), ofDigitChars_zeros hall]
    rfl
  · rw [if_neg (mt hzeros.mp hall)]
    by_cases hhead : digits.head? = some '0'
    · have hnot : ¬ IsPlain digits := fun h => (hplain.mp h).elim (absurd hhead) hall
      rw [if_neg hnot, if_pos (by simp [hhead])]
    · rw [if_pos (hplain.mpr (.inl hhead)), if_neg (by simp [hhead, hlong])]

theorem readInteger_of_isDigit (h : IsDigits digits) (hascii : ∀ c ∈ digits, c.isDigit = true)
    (hlength : digits.length ≤ digitLimit) : readInteger digits = .ok (Nat.ofDigitChars 10 digits 0) := by
  have hdigit : ∀ c ∈ digits, digit? c = some (c.toNat - '0'.toNat) := fun c hc => if_pos (hascii c hc)
  rw [readInteger_of_groupedDigits? h (groupedDigits?_eq_map h.1 hdigit), List.length_map,
    if_neg (Nat.not_lt.mpr hlength), ofDigits, List.foldl_map]
  rfl

theorem lexeme?_whole (h : IsDigits digits) (hascii : ∀ c ∈ digits, c.isDigit = true) :
    lexeme? digits = (integer? digits).map fun v => (some (.constant v), digits.length) := by
  have hrun : digitRun Char.isDigit (digits ++ ([] ++ [])) = digits := digitRun_append hascii nofun
  have hparts := decimal?_parts hascii hrun rfl rfl
  rw [List.append_nil, List.append_nil, ← number?_of_isNumeral (.integer h)] at hparts
  obtain ⟨c, cs, rfl⟩ := List.exists_cons_of_ne_nil h.1
  rw [lexeme?_of_isDigit (hascii c List.mem_cons_self), hparts]
  cases integer? (c :: cs) <;> rfl

theorem evaluate_integer (h : IsDigits digits) (hlength : digits.length ≤ digitLimit) :
    ∃ n, readInteger digits = .ok n ∧
      evaluate digits = if IsPlain digits then .ok (.int n) else .error .malformed := by
  rcases exists_not_ascii h.2 with hascii | ⟨front, c, rest, rfl, hfront, hc⟩
  · refine ⟨_, readInteger_of_isDigit h hascii hlength, ?_⟩
    rw [evaluate_of_isNumeral (.integer h) (lexeme?_whole h hascii), integer?_of_isDigit hascii hlength]
    split <;> rfl
  · obtain ⟨n, hn⟩ := (readInteger_of_isDigits h).resolve_right fun hlong => absurd hlong.1 (Nat.not_lt.mpr hlength)
    have hnone := lexeme?_alien_whole (.integer h) hfront hc
    refine ⟨n, hn, ?_⟩
    rw [evaluate_malformed (.integer h) hnone, if_neg (not_isPlain (by simp) hc)]

/-! ### Real numbers -/

theorem lexeme?_real (h : IsDigits digits) (hascii : ∀ c ∈ digits, c.isDigit = true) (hplaces : IsDigits places) :
    lexeme? (digits ++ '.' :: places) =
      (decimal? (digits ++ '.' :: places)).map fun (value, length) => (some (.constant value), length) := by
  rw [← number?_of_isNumeral (.real h hplaces)]
  obtain ⟨c, cs, rfl⟩ := List.exists_cons_of_ne_nil h.1
  rw [List.cons_append, lexeme?_of_isDigit (hascii c List.mem_cons_self)]

theorem decimal?_real (hdigits : ∀ c ∈ digits, c.isDigit = true) (hplaces : ∀ c ∈ places, c.isDigit = true) :
    decimal? (digits ++ '.' :: places) =
      (size? (digits ++ '.' :: places)).map fun x => (.float x, (digits ++ '.' :: places).length) := by
  have hfraction : fraction? ('.' :: places ++ []) = some ('.' :: places) := fraction?_places hplaces nofun
  have hrun : digitRun Char.isDigit (digits ++ ('.' :: places ++ [])) = digits := by
    refine digitRun_append hdigits ?_
    rintro _ ⟨rfl⟩
    decide
  have hparts := decimal?_parts hdigits hrun hfraction rfl
  rw [List.append_nil] at hparts
  rw [hparts, List.length_append]
  rfl

theorem isPlain_real (hdigits : ∀ c ∈ digits, c.isDigit = true) (hplaces : ∀ c ∈ places, c.isDigit = true) :
    IsPlain (digits ++ '.' :: places) := by
  refine ⟨?_, .inl (by simp)⟩
  intro c hc
  rcases List.mem_append.mp hc with hc | hc
  · exact lt_of_isDigit (hdigits c hc)
  · rcases List.mem_cons.mp hc with rfl | hc
    · decide
    · exact lt_of_isDigit (hplaces c hc)

theorem evaluate_real (h : IsDigits digits) (hplaces : IsDigits places) :
    ∃ x, readReal? (digits ++ '.' :: places) = some x ∧
      evaluate (digits ++ '.' :: places) =
        if IsPlain (digits ++ '.' :: places) then .ok (.float x) else .error .malformed := by
  obtain ⟨x, hx⟩ := Option.isSome_iff_exists.mp (isSome_size? h hplaces)
  have hnumeral : IsNumeral (digits ++ '.' :: places) := .real h hplaces
  refine ⟨x, (readReal?_eq_size? h hplaces).trans hx, ?_⟩
  rcases exists_not_ascii h.2 with hascii | ⟨front, c, rest, rfl, hfront, hc⟩
  · have hlexeme := lexeme?_real h hascii hplaces
    rcases exists_not_ascii hplaces.2 with hascii' | ⟨front, c, rest, rfl, hfront, hc⟩
    · rw [decimal?_real hascii hascii', hx] at hlexeme
      rw [@evaluate_of_isNumeral _ hnumeral (some (.float x)) hlexeme, if_pos (isPlain_real hascii hascii')]
      rfl
    · rw [decimal?_alien_places hfront hc hascii] at hlexeme
      rw [evaluate_malformed hnumeral hlexeme, if_neg (not_isPlain (by simp) hc)]
  · rw [List.append_assoc, List.cons_append] at hnumeral ⊢
    rw [evaluate_malformed hnumeral (lexeme?_alien_whole hnumeral hfront hc), if_neg (not_isPlain (by simp) hc)]

end Bang.Formula
