import Bang.Token.Scan
import Mathlib.Data.List.Forall2

/-! The two dialects cut every text into the same pieces. They differ only in the word `func`, which is a
keyword of the extended dialect and an identifier of the basic one. -/

namespace Bang.Token

open Text

theorem toNat_lt_of_isNamePart {c : Char} (h : Rule.isNamePart c = true) : c.toNat < 0x80 := by
  have hbelow {high : Char} (hle : c.val ≤ high.val) (hhigh : high.toNat < 0x80) : c.toNat < 0x80 :=
    Nat.lt_of_le_of_lt (UInt32.le_iff_toNat_le.mp hle) hhigh
  simp only [Rule.isNamePart, Char.isAlphanum, Bool.or_eq_true, beq_iff_eq] at h
  rcases h with (hletter | hdigit) | rfl
  · rcases (Bool.or_eq_true _ _).mp hletter with hupper | hlower
    · exact hbelow (of_decide_eq_true hupper).2 (by decide)
    · exact hbelow (of_decide_eq_true ((Bool.and_eq_true _ _).mp hlower).2) (by decide)
  · exact hbelow (of_decide_eq_true ((Bool.and_eq_true _ _).mp hdigit).2) (by decide)
  · decide

theorem isWord_of_isNamePart {c : Char} (h : Rule.isNamePart c = true) : isWord c = true := by
  rw [isWord, if_pos (toNat_lt_of_isNamePart h)]
  exact h

theorem isNamePart_of_endsWord {rest : List Char} (h : endsWord rest = true) :
    rest.takeWhile Rule.isNamePart = [] ∧ rest.dropWhile Rule.isNamePart = rest := by
  cases rest with
  | nil => exact ⟨rfl, rfl⟩
  | cons c cs =>
    have hc : ¬ Rule.isNamePart c = true := by
      intro hpart
      simp [endsWord, isWord_of_isNamePart hpart] at h
    exact ⟨List.takeWhile_cons_of_neg hc, List.dropWhile_cons_of_neg hc⟩

namespace Rule

theorem take?_keyword (cs : List Char) :
    take? .extended keyword cs = (take? .basic keyword cs).or (word? "func" cs) := by
  change (keywords .basic ++ ["func"]).findSome? (word? · cs) = _
  have hlast : ["func"].findSome? (word? · cs) = word? "func" cs := by
    cases hword : word? "func" cs <;> simp [hword]
  rw [List.findSome?_append, hlast]
  rfl

theorem eq_of_word?_eq_some {text : String} {cs found : List Char} (h : word? text cs = some found) :
    ∃ rest, cs = text.toList ++ rest ∧ endsWord rest = true ∧ found = text.toList := by
  simp only [word?, literal?, Option.ite_none_right_eq_some, Option.some.injEq,
    List.isPrefixOf_iff_prefix] at h
  obtain ⟨hends, ⟨rest, rfl⟩, rfl⟩ := h
  refine ⟨rest, rfl, ?_, rfl⟩
  rwa [← String.length_toList, List.drop_left] at hends

theorem literal?_of_head {text : String} {c : Char} (h : text.toList.head?.any (· != c)) (cs : List Char) :
    literal? text (c :: cs) = none := by
  unfold literal?
  cases htext : text.toList with
  | nil =>
    rw [htext] at h
    cases h
  | cons first rest =>
    rw [htext] at h
    have hne : (first == c) = false := by simpa using h
    rw [List.isPrefixOf_cons_cons, hne, Bool.false_and]
    rfl

theorem word?_of_head {text : String} {c : Char} (h : text.toList.head?.any (· != c)) (cs : List Char) :
    word? text (c :: cs) = none := by
  unfold word?
  rw [literal?_of_head h, ite_self]

section Func

variable {rest : List Char}

theorem take?_marks_func (d : Dialect) (rest : List Char) :
    take? d start ("func".toList ++ rest) = none ∧ take? d finish ("func".toList ++ rest) = none :=
  ⟨word?_of_head (by decide) _, word?_of_head (by decide) _⟩

theorem take?_keyword_basic_func (rest : List Char) : take? .basic keyword ("func".toList ++ rest) = none := by
  have hheads : ∀ text ∈ keywords .basic, text.toList.head?.any (· != 'f') :=
    List.all_eq_true.mp (by decide)
  exact List.findSome?_eq_none_iff.mpr fun text htext => word?_of_head (hheads text htext) _

theorem take?_operator_func (d : Dialect) (rest : List Char) :
    take? d operator ("func".toList ++ rest) = none := by
  have hheads : ∀ text ∈ operators, text.toList.head?.any (· != 'f') := List.all_eq_true.mp (by decide)
  exact List.findSome?_eq_none_iff.mpr fun text htext => literal?_of_head (hheads text htext) _

theorem take?_identifier_func (d : Dialect) (h : endsWord rest = true) :
    take? d identifier ("func".toList ++ rest) = some "func".toList := by
  obtain ⟨htake, hdrop⟩ := isNamePart_of_endsWord h
  have hpart : ∀ c ∈ ['u', 'n', 'c'], isNamePart c := List.all_eq_true.mp (by decide)
  have hstart : isNameStart 'f' = true := by decide
  change identifier? ('f' :: (['u', 'n', 'c'] ++ rest)) = _
  rw [identifier?, List.takeWhile_append_of_pos hpart, List.dropWhile_append_of_pos hpart, htake, hdrop, h, hstart]
  rfl

end Func

theorem first?_dialects (cs : List Char) :
    first? .basic cs = first? .extended cs ∨
      first? .basic cs = some (identifier, "func".toList) ∧
        first? .extended cs = some (keyword, "func".toList) := by
  cases hword : word? "func" cs with
  | none =>
    left
    have htake (rule : Rule) : take? .basic rule cs = take? .extended rule cs := by
      cases rule with
      | keyword => rw [take?_keyword, hword, Option.or_none]
      | _ => rfl
    simp only [first?, htake]
  | some text =>
    right
    obtain ⟨rest, rfl, hends, rfl⟩ := eq_of_word?_eq_some hword
    have hmarks (d : Dialect) := take?_marks_func d rest
    have hbasic := take?_keyword_basic_func rest
    have hkeyword : take? .extended keyword ("func".toList ++ rest) = some "func".toList := by
      rw [take?_keyword, hbasic, hword, Option.none_or]
    constructor
    · simp only [first?, order, List.findSome?_cons, (hmarks .basic).1, (hmarks .basic).2, hbasic,
        take?_operator_func, take?_identifier_func .basic hends, Option.map_none, Option.map_some]
    · simp only [first?, order, List.findSome?_cons, (hmarks .extended).1, (hmarks .extended).2, hkeyword,
        Option.map_none, Option.map_some]

end Rule

def Recast (t u : Token) : Prop :=
  t = u ∨ t = { u with kind := .identifier } ∧ u.kind = .keyword ∧ u.text = "func"

theorem eq_of_forall₂_recast {tokens tokens' : List Token} (h : List.Forall₂ Recast tokens tokens')
    (hne : ∀ t ∈ tokens', t.text ≠ "func") : tokens = tokens' := by
  induction h with
  | nil => rfl
  | @cons t u ts us hhead _ ih =>
    rw [ih fun v hv => hne v (List.mem_cons_of_mem u hv)]
    rcases hhead with rfl | ⟨_, _, hfunc⟩
    · rfl
    · exact absurd hfunc (hne u List.mem_cons_self)

theorem scanFrom_dialects {found found' : List Token} (hfound : List.Forall₂ Recast found found')
    (line position skip : Nat) (cs : List Char) :
    List.Forall₂ Recast (scanFrom .basic found line position skip cs).tokens
        (scanFrom .extended found' line position skip cs).tokens ∧
      (scanFrom .basic found line position skip cs).stuck =
        (scanFrom .extended found' line position skip cs).stuck := by
  induction cs generalizing found found' line position skip with
  | nil =>
    simp only [scanFrom]
    exact ⟨List.forall₂_reverse_iff.mpr hfound, trivial⟩
  | cons c cs ih =>
    cases skip with
    | succ skip => exact ih hfound line (position + 1) skip
    | zero =>
      simp only [scanFrom]
      rcases Rule.first?_dialects (c :: cs) with hsame | ⟨hbasic, hextended⟩
      · rw [hsame]
        cases Rule.first? .extended (c :: cs) with
        | none => exact ⟨List.forall₂_reverse_iff.mpr hfound, rfl⟩
        | some taken =>
          obtain ⟨rule, text⟩ := taken
          refine ih ?_ _ _ _
          split
          · exact hfound
          · exact .cons (.inl rfl) hfound
      · rw [hbasic, hextended]
        have hcast : Recast ⟨.identifier, String.ofList "func".toList, line⟩
            ⟨.keyword, String.ofList "func".toList, line⟩ := .inr ⟨rfl, rfl, String.ofList_toList⟩
        exact ih (.cons hcast hfound) _ _ _

theorem tokenize_dialects (code : String) :
    (∃ stuck, tokenize .basic code = .error stuck ∧ tokenize .extended code = .error stuck) ∨
      ∃ tokens tokens', tokenize .basic code = .ok tokens ∧ tokenize .extended code = .ok tokens' ∧
        List.Forall₂ Recast tokens tokens' := by
  obtain ⟨htokens, hstuck⟩ := scanFrom_dialects .nil 1 0 0 code.toList
  unfold tokenize scan
  rcases hb : scanFrom .basic [] 1 0 0 code.toList with ⟨tokens, stuck⟩
  rcases he : scanFrom .extended [] 1 0 0 code.toList with ⟨tokens', stuck'⟩
  rw [hb, he] at htokens hstuck
  obtain rfl : stuck = stuck' := hstuck
  cases stuck with
  | none => exact .inr ⟨tokens, tokens', rfl, rfl, htokens⟩
  | some stuck => exact .inl ⟨stuck, rfl, rfl⟩

theorem tokenize_basic_eq {code : String}
    (h : ∀ tokens, tokenize .extended code = .ok tokens → ∀ t ∈ tokens, t.text ≠ "func") :
    tokenize .basic code = tokenize .extended code := by
  rcases tokenize_dialects code with ⟨stuck, hb, he⟩ | ⟨tokens, tokens', hb, he, hall⟩
  · rw [hb, he]
  · rw [hb, he, eq_of_forall₂_recast hall (h tokens' he)]

end Bang.Token
