import Bang.Proofs.Text.Numeral
import Bang.Proofs.Token.Pieces

/-! The shapes of tokens. A rule that leaves a token takes a text exactly if the text has the shape of the rule
and what stands behind it does not go on with it: a word or a number ends where the word ends, a sign is not
the first half of a longer one. -/

namespace Bang.Token

open Text

namespace Rule

def IsName (word : List Char) : Prop := word.head?.any isNameStart = true ∧ ∀ c ∈ word, isNamePart c = true

def ofName (d : Dialect) (word : List Char) : Rule :=
  if word = "INICIO".toList then start
  else if word = "FIN".toList then finish
  else if String.ofList word ∈ keywords d then keyword
  else identifier

def openSigns : List (List Char) := [['='], ['<'], ['>']]

inductive Takes (d : Dialect) : Rule → (text rest : List Char) → Prop
  | name {word rest : List Char} : IsName word → endsWord rest = true → Takes d (ofName d word) word rest
  | operator {text : String} {rest : List Char} : text ∈ operators →
      (text.toList ∈ openSigns → rest.head? ≠ some '=') → Takes d operator text.toList rest
  | integer {digits rest : List Char} : IsDigits digits → endsWord rest = true → fraction? rest = none →
      Takes d number digits rest
  | real {digits places rest : List Char} : IsDigits digits → IsDigits places → endsWord rest = true →
      Takes d number (digits ++ '.' :: places) rest
  | string {body rest : List Char} : (∀ c ∈ body, isQuotable c = true) → Takes d string ('"' :: body ++ ['"']) rest
  | symbol {c : Char} {rest : List Char} : c ∈ symbols → Takes d symbol [c] rest

section Classes

variable {c : Char} {text rest : List Char}

theorem isNamePart_of_isNameStart (h : isNameStart c = true) : isNamePart c = true := by
  rcases (Bool.or_eq_true _ _).mp h with hletter | hunderscore
  · have hpart : c.isAlphanum = true := (Bool.or_eq_true _ _).mpr (.inl hletter)
    rw [isNamePart, hpart, Bool.true_or]
  · rw [isNamePart, hunderscore, Bool.or_true]

theorem isDigit_of_isNameStart (h : isNameStart c = true) : isDigit c = false := by
  have hletter : c.isDigit = false := by
    rw [Bool.eq_false_iff]
    intro hdigit
    have hbounds := toNat_of_isDigit hdigit
    rcases (Bool.or_eq_true _ _).mp h with hletter | hunderscore
    · rcases (Bool.or_eq_true _ _).mp hletter with hupper | hlower
      · have hle : 0x41 ≤ c.toNat := UInt32.le_iff_toNat_le.mp (of_decide_eq_true hupper).1
        omega
      · have hle : 0x61 ≤ c.toNat := UInt32.le_iff_toNat_le.mp (of_decide_eq_true ((Bool.and_eq_true _ _).mp hlower).1)
        omega
    · rw [eq_of_beq hunderscore] at hbounds
      exact absurd hbounds (by decide)
  have hascii := toNat_lt_of_isNamePart (isNamePart_of_isNameStart h)
  rw [isDigit_of_lt (by omega), hletter]

theorem not_word_of_endsWord (h : endsWord rest = true) (hc : rest.head? = some c) : isWord c = false := by
  cases rest with
  | nil => cases hc
  | cons first cs =>
    obtain rfl : first = c := Option.some.inj hc
    simpa [endsWord] using h

theorem runs_append {p : Char → Bool} (htext : ∀ c ∈ text, p c = true)
    (hrest : ∀ c, rest.head? = some c → p c = false) :
    (text ++ rest).takeWhile p = text ∧ (text ++ rest).dropWhile p = rest := by
  have hstop : rest.takeWhile p = [] ∧ rest.dropWhile p = rest := by
    cases rest with
    | nil => exact ⟨rfl, rfl⟩
    | cons c cs =>
      have hc : ¬ p c = true := by simp [hrest c rfl]
      exact ⟨List.takeWhile_cons_of_neg hc, List.dropWhile_cons_of_neg hc⟩
  rw [List.takeWhile_append_of_pos htext, List.dropWhile_append_of_pos htext, hstop.1, hstop.2, List.append_nil]
  exact ⟨rfl, rfl⟩

theorem runs_name (htext : ∀ c ∈ text, isNamePart c = true) (hends : endsWord rest = true) :
    (text ++ rest).takeWhile isNamePart = text ∧ (text ++ rest).dropWhile isNamePart = rest := by
  refine runs_append htext fun c hc => ?_
  have hword := not_word_of_endsWord hends hc
  rw [Bool.eq_false_iff]
  intro hpart
  rw [isWord_of_isNamePart hpart] at hword
  cases hword

theorem runs_digits (htext : ∀ c ∈ text, isDigit c = true) (hends : endsWord rest = true) :
    (text ++ rest).takeWhile isDigit = text ∧ (text ++ rest).dropWhile isDigit = rest := by
  refine runs_append htext fun c hc => ?_
  have hword := not_word_of_endsWord hends hc
  rw [Bool.eq_false_iff]
  intro hdigit
  rw [isWord_of_isDigit hdigit] at hword
  cases hword

end Classes

/-! ### Words -/

section Words

variable {d : Dialect} {word rest : List Char}

theorem word?_name {text : String} (htext : ∀ c ∈ text.toList, isNamePart c = true)
    (hword : ∀ c ∈ word, isNamePart c = true) (hends : endsWord rest = true) :
    word? text (word ++ rest) = if word = text.toList then some word else none := by
  split
  · rename_i heq
    subst heq
    have hdrop : (text.toList ++ rest).drop text.length = rest := by rw [← String.length_toList, List.drop_left]
    have hfront : text.toList.isPrefixOf (text.toList ++ rest) = true :=
      List.isPrefixOf_iff_prefix.mpr (List.prefix_append _ _)
    rw [word?, hdrop, hends, if_pos rfl, literal?, hfront, if_pos rfl]
  · rename_i hne
    cases hfound : word? text (word ++ rest) with
    | none => rfl
    | some found =>
      obtain ⟨rest', heq, hends', _⟩ := eq_of_word?_eq_some hfound
      have hrun := (runs_name hword hends).1
      rw [heq, (runs_name htext hends').1] at hrun
      exact absurd hrun.symm hne

theorem isNamePart_of_keyword {text : String} (h : text ∈ keywords d) : ∀ c ∈ text.toList, isNamePart c = true := by
  have hall : (keywords d).all fun text => text.toList.all isNamePart := by cases d <;> decide
  exact List.all_eq_true.mp (List.all_eq_true.mp hall text h)

theorem take?_keyword_name (hword : ∀ c ∈ word, isNamePart c = true) (hends : endsWord rest = true) :
    take? d keyword (word ++ rest) = if String.ofList word ∈ keywords d then some word else none := by
  have heach (text : String) (htext : text ∈ keywords d) :
      word? text (word ++ rest) = if word = text.toList then some word else none :=
    word?_name (isNamePart_of_keyword htext) hword hends
  cases hfound : take? d keyword (word ++ rest) with
  | some found =>
    obtain ⟨text, htext, htaken⟩ := List.exists_of_findSome?_eq_some hfound
    rw [heach text htext, Option.ite_none_right_eq_some] at htaken
    obtain ⟨rfl, hsame⟩ := htaken
    rw [String.ofList_toList, if_pos htext, hsame]
  | none =>
    have hnone := List.findSome?_eq_none_iff.mp hfound
    rw [if_neg]
    intro hmem
    have htaken := hnone _ hmem
    rw [heach _ hmem, String.toList_ofList, if_pos rfl] at htaken
    cases htaken

theorem take?_operator_of_isWord {c : Char} (h : isWord c = true) (cs : List Char) :
    take? d operator (c :: cs) = none := by
  have hheads : operators.all fun text => text.toList.head?.any (!isWord ·) := by decide
  refine List.findSome?_eq_none_iff.mpr fun text htext => literal?_of_head ?_ cs
  have hhead := List.all_eq_true.mp hheads text htext
  cases hfirst : text.toList.head? with
  | none => simp [hfirst] at hhead
  | some first =>
    have hne : first ≠ c := by
      rintro rfl
      simp [hfirst, h] at hhead
    simpa using hne

theorem first?_name (h : IsName word) (hends : endsWord rest = true) :
    first? d (word ++ rest) = some (ofName d word, word) := by
  have hstart : take? d start (word ++ rest) = if word = "INICIO".toList then some word else none :=
    word?_name (List.all_eq_true.mp (by decide)) h.2 hends
  have hfinish : take? d finish (word ++ rest) = if word = "FIN".toList then some word else none :=
    word?_name (List.all_eq_true.mp (by decide)) h.2 hends
  have hkeyword := take?_keyword_name (d := d) h.2 hends
  obtain ⟨hhead, hparts⟩ := h
  cases word with
  | nil => cases hhead
  | cons c cs =>
    have hc : isNameStart c = true := hhead
    have hoperator : take? d operator (c :: cs ++ rest) = none :=
      take?_operator_of_isWord (isWord_of_isNamePart (isNamePart_of_isNameStart hc)) _
    have hidentifier : take? d identifier (c :: cs ++ rest) = some (c :: cs) := by
      obtain ⟨htake, hdrop⟩ := runs_name (fun c hc => hparts c (List.mem_cons_of_mem _ hc)) hends
      rw [take?, List.cons_append, identifier?, hc, htake, hdrop, hends]
      rfl
    simp only [first?, order, List.findSome?_cons, hstart, hfinish, hkeyword, hoperator, hidentifier, ofName]
    split_ifs <;> rfl

theorem isName_of_word? {text : String} (htext : text.toList.head?.any isNameStart && text.toList.all isNamePart)
    {found : List Char} (h : word? text (found ++ rest) = some found) : IsName found ∧ endsWord rest = true := by
  obtain ⟨rest', heq, hends, rfl⟩ := eq_of_word?_eq_some h
  obtain rfl : rest = rest' := List.append_cancel_left heq
  rw [Bool.and_eq_true, List.all_eq_true] at htext
  exact ⟨htext, hends⟩

theorem isName_of_identifier? (h : identifier? (word ++ rest) = some word) : IsName word ∧ endsWord rest = true := by
  cases hcs : word ++ rest with
  | nil =>
    rw [hcs] at h
    cases h
  | cons c cs =>
    rw [hcs, identifier?, Option.ite_none_right_eq_some, Bool.and_eq_true, Option.some.injEq] at h
    obtain ⟨⟨hstart, hends⟩, rfl⟩ := h
    have hrest : cs.dropWhile isNamePart = rest := by
      have hcut : cs.takeWhile isNamePart ++ rest = cs := (List.cons.inj hcs).2
      exact List.append_cancel_left (List.takeWhile_append_dropWhile.trans hcut.symm)
    have hparts : ∀ part ∈ cs.takeWhile isNamePart, isNamePart part = true := fun part hpart =>
      List.all_eq_true.mp List.all_takeWhile part hpart
    rw [hrest] at hends
    refine ⟨⟨hstart, fun part hpart => ?_⟩, hends⟩
    rcases List.mem_cons.mp hpart with rfl | hpart
    · exact isNamePart_of_isNameStart hstart
    · exact hparts part hpart

theorem takes_name {rule : Rule} (h : first? d (word ++ rest) = some (rule, word))
    (hname : IsName word ∧ endsWord rest = true) : Takes d rule word rest := by
  have hsame := first?_name (d := d) hname.1 hname.2
  rw [h] at hsame
  rw [(Prod.mk.inj (Option.some.inj hsame)).1]
  exact .name hname.1 hname.2

end Words

/-! ### Numbers -/

section Numbers

variable {d : Dialect} {digits places rest : List Char}

theorem first?_of_number? {text : List Char} (hdigits : digits.head?.any isDigit = true)
    (h : number? (digits ++ rest) = some text) : first? d (digits ++ rest) = some (number, text) := by
  cases digits with
  | nil => cases hdigits
  | cons c cs =>
    have hc : isDigit c = true := hdigits
    have hhead : c ∉ wordHeads := by
      have hheads : wordHeads.all (!isDigit ·) := by decide
      intro hmem
      have hnot := List.all_eq_true.mp hheads c hmem
      simp [hc] at hnot
    have hoperator : take? d operator (c :: cs ++ rest) = none := take?_operator_of_isWord (isWord_of_isDigit hc) _
    have hidentifier : take? d identifier (c :: cs ++ rest) = none := by
      have hstart : isNameStart c = false := by
        rw [Bool.eq_false_iff]
        intro hstart
        rw [isDigit_of_isNameStart hstart] at hc
        cases hc
      simp [take?, identifier?, hstart]
    have hnumber : take? d number (c :: cs ++ rest) = some text := h
    rw [List.cons_append] at hoperator hidentifier hnumber ⊢
    rw [first?_of_not_wordHead d hhead]
    simp only [List.findSome?_cons, hoperator, hidentifier, hnumber, Option.map_none, Option.map_some]

theorem fraction?_places (h : IsDigits places) (hends : endsWord rest = true) :
    fraction? ('.' :: places ++ rest) = some ('.' :: places) := by
  obtain ⟨htake, hdrop⟩ := runs_digits h.2 hends
  rw [List.cons_append, fraction?, htake, hdrop, hends]
  simp [h.1]

theorem exists_places_of_fraction? {cs found : List Char} (h : fraction? cs = some found) :
    ∃ places rest, cs = '.' :: places ++ rest ∧ found = '.' :: places ∧ IsDigits places ∧ endsWord rest = true := by
  unfold fraction? at h
  split at h
  · rename_i cs
    simp only [Option.ite_none_right_eq_some, Option.some.injEq, Bool.and_eq_true, Bool.not_eq_true',
      List.isEmpty_eq_false_iff] at h
    obtain ⟨⟨hne, hends⟩, rfl⟩ := h
    refine ⟨cs.takeWhile isDigit, cs.dropWhile isDigit, ?_, rfl, ⟨hne, fun c hc => ?_⟩, hends⟩
    · rw [List.cons_append, List.takeWhile_append_dropWhile]
    · exact List.all_eq_true.mp List.all_takeWhile c hc
  · cases h

theorem first?_integer (h : IsDigits digits) (hends : endsWord rest = true) (hfraction : fraction? rest = none) :
    first? d (digits ++ rest) = some (number, digits) := by
  obtain ⟨htake, hdrop⟩ := runs_digits h.2 hends
  have hnumber : number? (digits ++ rest) = some digits := by
    rw [number?, htake, hdrop, hfraction, hends]
    simp [h.1]
  exact first?_of_number? h.head hnumber

theorem first?_real (h : IsDigits digits) (hplaces : IsDigits places) (hends : endsWord rest = true) :
    first? d (digits ++ '.' :: places ++ rest) = some (number, digits ++ '.' :: places) := by
  obtain ⟨htake, hdrop⟩ : (digits ++ ('.' :: places ++ rest)).takeWhile isDigit = digits ∧
      (digits ++ ('.' :: places ++ rest)).dropWhile isDigit = '.' :: places ++ rest := by
    refine runs_append h.2 fun c hc => ?_
    obtain rfl : '.' = c := Option.some.inj hc
    decide
  have hnumber : number? (digits ++ ('.' :: places ++ rest)) = some (digits ++ '.' :: places) := by
    rw [number?, htake, hdrop, fraction?_places hplaces hends]
    simp [h.1]
  rw [List.append_assoc]
  exact first?_of_number? h.head hnumber

theorem takes_number {text : List Char} (h : number? (text ++ rest) = some text) : Takes d number text rest := by
  have hcut : (text ++ rest).takeWhile isDigit ++ (text ++ rest).dropWhile isDigit = text ++ rest :=
    List.takeWhile_append_dropWhile
  have hall : ∀ c ∈ (text ++ rest).takeWhile isDigit, isDigit c = true := fun c hc =>
    List.all_eq_true.mp List.all_takeWhile c hc
  rw [number?] at h
  generalize (text ++ rest).takeWhile isDigit = digits at h hcut hall
  generalize (text ++ rest).dropWhile isDigit = behind at h hcut
  rw [Option.ite_none_left_eq_some, List.isEmpty_iff] at h
  obtain ⟨hne, h⟩ := h
  cases hfraction : fraction? behind with
  | some fraction =>
    rw [hfraction] at h
    obtain rfl : digits ++ fraction = text := Option.some.inj h
    obtain ⟨places, rest', rfl, rfl, hplaces, hends⟩ := exists_places_of_fraction? hfraction
    rw [← List.append_assoc] at hcut
    obtain rfl : rest' = rest := List.append_cancel_left hcut
    exact .real ⟨hne, hall⟩ hplaces hends
  | none =>
    simp only [hfraction, Option.ite_none_right_eq_some, Option.some.injEq] at h
    obtain ⟨hends, rfl⟩ := h
    obtain rfl : behind = rest := List.append_cancel_left hcut
    exact .integer ⟨hne, hall⟩ hends hfraction

end Numbers

/-! ### Signs, strings and symbols -/

section Signs

variable {d : Dialect} {rest : List Char}

theorem take?_openSign {c : Char} (hc : [c] ∈ openSigns) (hrest : rest.head? ≠ some '=') :
    take? d operator (c :: rest) = some [c] := by
  simp only [openSigns, List.mem_cons, List.cons.injEq, and_true, List.not_mem_nil, or_false] at hc
  cases rest with
  | nil => rcases hc with rfl | rfl | rfl <;> rfl
  | cons r rs =>
    have hne : ¬ '=' = r := fun h => hrest (h ▸ rfl)
    rcases hc with rfl | rfl | rfl <;> simp [take?, operators, literal?, hne]

theorem take?_operator {text : String} (h : text ∈ operators)
    (hrest : text.toList ∈ openSigns → rest.head? ≠ some '=') :
    take? d operator (text.toList ++ rest) = some text.toList := by
  by_cases hopen : text.toList ∈ openSigns
  · have hhead := hrest hopen
    simp only [openSigns, List.mem_cons, List.not_mem_nil, or_false] at hopen
    rcases hopen with heq | heq | heq <;> rw [heq] <;> exact take?_openSign (by decide) hhead
  · have hclosed : text ∈ ["+", "-", "*", "/", "==", "<=", ">=", "%", "&", "|"] := by
      have hall : operators.all fun text =>
          text.toList ∈ openSigns || text ∈ ["+", "-", "*", "/", "==", "<=", ">=", "%", "&", "|"] := by decide
      have htext := List.all_eq_true.mp hall text h
      rw [decide_eq_false hopen, Bool.false_or] at htext
      exact of_decide_eq_true htext
    simp only [List.mem_cons, List.not_mem_nil, or_false] at hclosed
    rcases hclosed with rfl | rfl | rfl | rfl | rfl | rfl | rfl | rfl | rfl | rfl <;> rfl

theorem first?_operator {text : String} (h : text ∈ operators)
    (hrest : text.toList ∈ openSigns → rest.head? ≠ some '=') :
    first? d (text.toList ++ rest) = some (operator, text.toList) := by
  have hheads : operators.all fun text => text.toList.head?.any (· ∉ wordHeads) := by decide
  have hhead := List.all_eq_true.mp hheads text h
  have htake := take?_operator (d := d) h hrest
  generalize text.toList = sign at hhead htake
  cases sign with
  | nil => cases hhead
  | cons c cs =>
    rw [List.cons_append] at htake ⊢
    rw [first?_of_not_wordHead d (by simpa using hhead), List.findSome?_cons, htake]
    rfl

theorem takes_operator {text : List Char} (h : take? d operator (text ++ rest) = some text) :
    Takes d operator text rest := by
  obtain ⟨sign, hsign, hliteral⟩ := List.exists_of_findSome?_eq_some h
  rw [literal?, Option.ite_none_right_eq_some] at hliteral
  obtain rfl : sign.toList = text := Option.some.inj hliteral.2
  refine .operator hsign fun hopen hrest => ?_
  -- The longer sign would have been taken.
  obtain ⟨rest', rfl⟩ := List.head?_eq_some_iff.mp hrest
  simp only [openSigns, List.mem_cons, List.not_mem_nil, or_false] at hopen
  rcases hopen with heq | heq | heq <;> rw [heq] at h <;> cases h

theorem first?_symbol {c : Char} (h : c ∈ symbols) : first? d (c :: rest) = some (symbol, [c]) := by
  simp only [symbols, List.mem_cons, List.not_mem_nil, or_false] at h
  rcases h with rfl | rfl | rfl | rfl | rfl | rfl <;> exact (first?_of_not_wordHead d (by decide) _).trans rfl

theorem takes_symbol {text : List Char} (h : oneOf? symbols (text ++ rest) = some text) :
    Takes d symbol text rest := by
  cases hcs : text ++ rest with
  | nil =>
    rw [hcs] at h
    cases h
  | cons c cs =>
    rw [hcs, oneOf?, Option.ite_none_right_eq_some] at h
    obtain rfl : [c] = text := Option.some.inj h.2
    exact .symbol h.1

theorem takes_string {text : List Char} (h : string? (text ++ rest) = some text) : Takes d string text rest := by
  unfold string? at h
  split at h
  · rename_i cs heq
    rw [Option.ite_none_right_eq_some] at h
    obtain rfl := Option.some.inj h.2
    exact .string fun c hc => List.all_eq_true.mp List.all_takeWhile c hc
  · cases h

end Signs

section Taken

variable {d : Dialect} {rule : Rule} {text rest : List Char}

theorem takes_of_first? (h : first? d (text ++ rest) = some (rule, text)) (hsilent : rule.isSilent = false) :
    Takes d rule text rest := by
  obtain ⟨htake, hnone⟩ := first?_eq_some_iff.mp h
  cases rule with
  | start => exact takes_name h (isName_of_word? (by decide) htake)
  | finish => exact takes_name h (isName_of_word? (by decide) htake)
  | keyword =>
    obtain ⟨word, hword, hfound⟩ := List.exists_of_findSome?_eq_some htake
    have hall : (keywords d).all fun word => word.toList.head?.any isNameStart && word.toList.all isNamePart := by
      cases d <;> decide
    exact takes_name h (isName_of_word? (List.all_eq_true.mp hall word hword) hfound)
  | operator => exact takes_operator htake
  | identifier => exact takes_name h (isName_of_identifier? htake)
  | number => exact takes_number htake
  | string => exact takes_string htake
  | symbol => exact takes_symbol htake
  | comment => cases hsilent
  | blank => cases hsilent
  | newline => exact absurd (hnone symbol (by decide)) (take?_symbol_ne_none (by decide) htake)
  | leftBrace => exact absurd (hnone symbol (by decide)) (take?_symbol_ne_none (by decide) htake)
  | rightBrace => exact absurd (hnone symbol (by decide)) (take?_symbol_ne_none (by decide) htake)
  | bracket => exact absurd (hnone symbol (by decide)) (take?_symbol_ne_none (by decide) htake)

theorem first?_iff_takes :
    first? d (text ++ rest) = some (rule, text) ∧ rule.isSilent = false ↔ Takes d rule text rest := by
  constructor
  · rintro ⟨h, hsilent⟩
    exact takes_of_first? h hsilent
  · intro h
    cases h with
    | name hname hends => exact ⟨first?_name hname hends, by unfold ofName; split_ifs <;> rfl⟩
    | operator hsign hrest => exact ⟨first?_operator hsign hrest, rfl⟩
    | integer hdigits hends hfraction => exact ⟨first?_integer hdigits hends hfraction, rfl⟩
    | real hdigits hplaces hends => exact ⟨first?_real hdigits hplaces hends, rfl⟩
    | string hbody => exact ⟨first?_string d hbody rest, rfl⟩
    | symbol hc => exact ⟨first?_symbol hc, rfl⟩

theorem Takes.isNumeral (h : Takes d rule text rest) (hkind : rule.kind = .number) : IsNumeral text := by
  cases h with
  | name _ _ =>
    unfold ofName at hkind
    split_ifs at hkind <;> cases hkind
  | operator _ _ => cases hkind
  | integer hdigits _ _ => exact .integer hdigits
  | real hdigits hplaces _ => exact .real hdigits hplaces
  | string _ => cases hkind
  | symbol _ => cases hkind

end Taken

end Rule

theorem isNumeral_of_tokenize {d : Dialect} {code : String} {tokens : List Token} (h : tokenize d code = .ok tokens)
    {t : Token} (ht : t ∈ tokens) (hkind : t.kind = .number) : IsNumeral t.text.toList := by
  obtain ⟨rule, text, rest, hfirst, hsilent, hrule, htext⟩ := exists_taken_of_tokenize h ht
  rw [htext, String.toList_ofList]
  exact (Rule.takes_of_first? hfirst hsilent).isNumeral (hrule.symm.trans hkind)

end Bang.Token
