import Bang.Proofs.Token.Dialects

/-! Scanning a text that is put together from pieces: a piece that a rule takes is passed over as a whole. -/

namespace Bang.Token

namespace Rule

section Deciding

variable {d : Dialect} {cs found : List Char}

theorem order_eq (rule : Rule) : ∃ behind, order = order.takeWhile (· != rule) ++ rule :: behind := by
  cases rule <;> exact ⟨_, rfl⟩

theorem first?_eq_some_iff {rule : Rule} :
    first? d cs = some (rule, found) ↔
      take? d rule cs = some found ∧ ∀ other ∈ order.takeWhile (· != rule), take? d other cs = none := by
  rw [first?, List.findSome?_eq_some_iff]
  constructor
  · rintro ⟨before, other, behind, horder, htaken, hnone⟩
    obtain ⟨text, htake, heq⟩ := Option.map_eq_some_iff.mp htaken
    obtain ⟨rfl, rfl⟩ := Prod.mk.inj heq
    refine ⟨htake, fun earlier hearlier => ?_⟩
    have hbefore : earlier ∈ before := by
      rw [horder, List.takeWhile_append] at hearlier
      split at hearlier
      · simpa using hearlier
      · exact (List.takeWhile_prefix _).subset hearlier
    exact Option.map_eq_none_iff.mp (hnone earlier hbefore)
  · rintro ⟨htake, hnone⟩
    obtain ⟨behind, horder⟩ := order_eq rule
    refine ⟨_, rule, behind, horder, ?_, fun other hother => ?_⟩
    · rw [htake, Option.map_some]
    · rw [hnone other hother, Option.map_none]

/-- The rules that come too late: what they look for is a symbol. -/
def idleRules : List Rule := [newline, leftBrace, rightBrace, bracket]

def symbols : List Char := ['!', '(', ')', '\x7b', '\x7d', ';']

theorem take?_symbol_ne_none {rule : Rule} {cs found : List Char}
    (hrule : rule ∈ idleRules) (h : take? d rule cs = some found) :
    take? d symbol cs ≠ none := by
  simp only [idleRules, List.mem_cons, List.not_mem_nil, or_false] at hrule
  cases cs with
  | nil => rcases hrule with rfl | rfl | rfl | rfl <;> cases h
  | cons c cs =>
    have hc : c ∈ symbols := by
      rcases hrule with rfl | rfl | rfl | rfl <;>
        simp only [take?, literal?, oneOf?, Option.ite_none_right_eq_some] at h
      case inr.inr.inr =>
        have hbrackets : ['!', '(', ')'].all (· ∈ symbols) := by decide
        simpa using List.all_eq_true.mp hbrackets c h.1
      all_goals
        obtain ⟨rest, hrest⟩ := List.isPrefixOf_iff_prefix.mp h.1
        rw [← (List.cons.inj hrest).1]
        decide
    have htake : take? d symbol (c :: cs) = some [c] := if_pos hc
    rw [htake]
    exact Option.some_ne_none _

end Deciding

end Rule

theorem not_idle_of_first? {d : Dialect} {cs text : List Char} {rule : Rule}
    (h : Rule.first? d cs = some (rule, text)) :
    rule ∉ Rule.idleRules := by
  intro hidle
  obtain ⟨htake, hnone⟩ := Rule.first?_eq_some_iff.mp h
  have hsymbol : Rule.symbol ∈ Rule.order.takeWhile (· != rule) := by
    have hall : Rule.idleRules.all fun rule => Rule.symbol ∈ Rule.order.takeWhile (· != rule) := by decide
    exact of_decide_eq_true (List.all_eq_true.mp hall rule hidle)
  exact Rule.take?_symbol_ne_none hidle htake (hnone _ hsymbol)

variable {d : Dialect} {found : List Token} {line position : Nat} {text rest : List Char}

theorem scanFrom_skip (d : Dialect) (found : List Token) (line position : Nat) (text rest : List Char) :
    scanFrom d found line position text.length (text ++ rest) =
      scanFrom d found line (position + text.length) 0 rest := by
  induction text generalizing position with
  | nil => rfl
  | cons c cs ih =>
    rw [List.cons_append, List.length_cons, scanFrom, ih, Nat.add_assoc, Nat.add_comm 1]

theorem scanFrom_cons {rule : Rule} {c : Char} {cs : List Char} (h : Rule.first? d (c :: cs) = some (rule, text)) :
    scanFrom d found line position 0 (c :: cs) =
      scanFrom d (if rule.isSilent then found else ⟨rule.kind, String.ofList text, line⟩ :: found)
        (line + text.count '!') (position + 1) (text.length - 1) cs := by
  have hline : rule ≠ .newline := fun he => not_idle_of_first? h (he ▸ by decide)
  rw [scanFrom, h]
  simp only [if_neg hline]

theorem scanFrom_append {rule : Rule} (hne : text ≠ []) (h : Rule.first? d (text ++ rest) = some (rule, text)) :
    scanFrom d found line position 0 (text ++ rest) =
      scanFrom d (if rule.isSilent then found else ⟨rule.kind, String.ofList text, line⟩ :: found)
        (line + text.count '!') (position + text.length) 0 rest := by
  obtain ⟨c, cs, rfl⟩ := List.exists_cons_of_ne_nil hne
  rw [List.cons_append] at h ⊢
  rw [scanFrom_cons h, List.length_cons, Nat.add_sub_cancel, scanFrom_skip, Nat.add_assoc, Nat.add_comm 1]

inductive Pieces (d : Dialect) : List (Rule × List Char) → Prop
  | nil : Pieces d []
  | cons {rule : Rule} {text : List Char} {pieces : List (Rule × List Char)} (hne : text ≠ [])
    (h : Rule.first? d (text ++ pieces.flatMap Prod.snd) = some (rule, text)) (hrest : Pieces d pieces) :
    Pieces d ((rule, text) :: pieces)

def tokensOf (line : Nat) : List (Rule × List Char) → List Token
  | [] => []
  | (rule, text) :: pieces =>
    (if rule.isSilent then [] else [⟨rule.kind, String.ofList text, line⟩]) ++ tokensOf (line + text.count '!') pieces

theorem scanFrom_pieces {pieces : List (Rule × List Char)} (h : Pieces d pieces) (found : List Token)
    (line position : Nat) :
    scanFrom d found line position 0 (pieces.flatMap Prod.snd) = ⟨found.reverse ++ tokensOf line pieces, none⟩ := by
  induction h generalizing found line position with
  | nil => simp [scanFrom, tokensOf]
  | @cons rule text pieces hne h _ ih =>
    rw [List.flatMap_cons, scanFrom_append hne h, ih, tokensOf]
    cases rule.isSilent <;> simp

theorem tokenize_pieces {pieces : List (Rule × List Char)} (h : Pieces d pieces) {code : String}
    (hcode : code.toList = pieces.flatMap Prod.snd) : tokenize d code = .ok (tokensOf 1 pieces) := by
  rw [tokenize, scan, hcode, scanFrom_pieces h]
  rfl

namespace Rule

def wordHeads : List Char := ['I', 'F', 'i', 'e', 'p', 's', 'w', 'd', 'f']

theorem first?_of_not_wordHead (d : Dialect) {c : Char} (h : c ∉ wordHeads) (cs : List Char) :
    first? d (c :: cs) =
      [operator, identifier, number, string, symbol, comment, blank, newline, leftBrace, rightBrace, bracket].findSome?
        fun rule => (rule.take? d (c :: cs)).map (rule, ·) := by
  have hhead (text : String) (htext : text.toList.head?.any (· ∈ wordHeads) = true) :
      word? text (c :: cs) = none := by
    refine word?_of_head ?_ cs
    cases hfirst : text.toList.head? with
    | none => simp [hfirst] at htext
    | some first =>
      have hmem : first ∈ wordHeads := by simpa [hfirst] using htext
      have hne : first ≠ c := fun he => h (he ▸ hmem)
      simpa using hne
  have hkeywords : ∀ text ∈ keywords d, text.toList.head?.any (· ∈ wordHeads) = true :=
    List.all_eq_true.mp (by cases d <;> decide)
  have hstart : take? d start (c :: cs) = none := hhead "INICIO" (by decide)
  have hfinish : take? d finish (c :: cs) = none := hhead "FIN" (by decide)
  have hkeyword : take? d keyword (c :: cs) = none :=
    List.findSome?_eq_none_iff.mpr fun text htext => hhead text (hkeywords text htext)
  rw [first?, order, List.findSome?_cons, hstart, List.findSome?_cons, hfinish, List.findSome?_cons, hkeyword]
  rfl

theorem first?_string (d : Dialect) {body : List Char} (h : ∀ c ∈ body, isQuotable c = true) (rest : List Char) :
    first? d ('"' :: body ++ ['"'] ++ rest) = some (string, '"' :: body ++ ['"']) := by
  have hbody : (body ++ '"' :: rest).takeWhile isQuotable = body ∧
      (body ++ '"' :: rest).dropWhile isQuotable = '"' :: rest := by
    rw [List.takeWhile_append_of_pos h, List.dropWhile_append_of_pos h]
    simp [isQuotable]
  have hstring : take? d string ('"' :: (body ++ '"' :: rest)) = some ('"' :: body ++ ['"']) := by
    simp [take?, string?, hbody.1, hbody.2]
  have hoperator : take? d operator ('"' :: (body ++ '"' :: rest)) = none := by
    have hheads : ∀ text ∈ operators, text.toList.head?.any (· != '"') := List.all_eq_true.mp (by decide)
    exact List.findSome?_eq_none_iff.mpr fun text htext => literal?_of_head (hheads text htext) _
  have hidentifier : take? d identifier ('"' :: (body ++ '"' :: rest)) = none := rfl
  have hnumber : take? d number ('"' :: (body ++ '"' :: rest)) = none := rfl
  have happend : '"' :: body ++ ['"'] ++ rest = '"' :: (body ++ '"' :: rest) := by simp
  rw [happend, first?_of_not_wordHead d (by decide), List.findSome?_cons, hoperator, List.findSome?_cons, hidentifier,
    List.findSome?_cons, hnumber, List.findSome?_cons, hstring]
  rfl

end Rule

end Bang.Token
