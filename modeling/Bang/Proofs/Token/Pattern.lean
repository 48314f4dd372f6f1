import Bang.Proofs.Token.Shape

/-! The patterns behind the rules. A pattern matches a text between what stands before and behind it; the texts
that it matches on their own are its language. What a rule takes is in the language of its own pattern, and in
that of no rule tried before it. -/

namespace Bang.Token

open Text

inductive Pattern where
  | empty
  /-- A place with a word character on one side only. -/
  | bound
  | char (accepts : Char → Bool)
  | seq (p q : Pattern)
  | alt (p q : Pattern)
  | many (p : Pattern)

namespace Pattern

inductive Repeats (matched : List Char → List Char → List Char → Prop) : List Char → List Char → List Char → Prop
  | none {before behind : List Char} : Repeats matched before [] behind
  | more {before text rest behind : List Char} : matched before text (rest ++ behind) →
      Repeats matched (before ++ text) rest behind → Repeats matched before (text ++ rest) behind

def Matches : Pattern → (before text behind : List Char) → Prop
  | empty, _, text, _ => text = []
  | bound, before, text, behind => text = [] ∧ before.getLast?.any isWord ≠ behind.head?.any isWord
  | char accepts, _, text, _ => ∃ c, text = [c] ∧ accepts c = true
  | seq p q, before, text, behind => ∃ front rest, text = front ++ rest ∧
      p.Matches before front (rest ++ behind) ∧ q.Matches (before ++ front) rest behind
  | alt p q, before, text, behind => p.Matches before text behind ∨ q.Matches before text behind
  | many p, before, text, behind => Repeats p.Matches before text behind

def Accepts (p : Pattern) (text : List Char) : Prop := p.Matches [] text []

def literal (text : String) : Pattern := text.toList.foldr (fun c p => seq (char (· == c)) p) empty

def oneOf (texts : List String) : Pattern := texts.foldr (fun text p => alt (literal text) p) (char fun _ => false)

def run (accepts : Char → Bool) : Pattern := seq (char accepts) (many (char accepts))

def optional (p : Pattern) : Pattern := alt p empty

def word (p : Pattern) : Pattern := seq bound (seq p bound)

end Pattern

namespace Rule

open Pattern in
def pattern (d : Dialect) : Rule → Pattern
  | start => word (literal "INICIO")
  | finish => word (literal "FIN")
  | keyword => word (oneOf (keywords d))
  | operator => oneOf operators
  | identifier => word (seq (char isNameStart) (many (char isNamePart)))
  | number => word (seq (run isDigit) (optional (seq (literal ".") (run isDigit))))
  | string => seq (literal "\"") (seq (many (char (· != '\n'))) (literal "\""))
  | symbol => char (· ∈ ['!', '(', ')', '\x7b', '\x7d', ';'])
  | comment => seq (literal "#") (many (char (· != '\n')))
  | blank => run isBlank
  | newline => literal "!"
  | leftBrace => literal "\x7b"
  | rightBrace => literal "\x7d"
  | bracket => char (· ∈ ['!', '(', ')'])

def earlier (rule : Rule) : List Rule := order.takeWhile (· != rule)

def tokenRules : List Rule := [start, finish, keyword, operator, identifier, number, string, symbol]

end Rule

/-! ### Languages -/

namespace Pattern

variable {accepts : Char → Bool} {before text behind : List Char}

theorem matches_many_char : (many (char accepts)).Matches before text behind ↔ ∀ c ∈ text, accepts c = true := by
  constructor
  · intro h
    change Repeats (char accepts).Matches before text behind at h
    induction h with
    | none => simp
    | more hfirst _ ih =>
      obtain ⟨c, rfl, hc⟩ := hfirst
      simpa [hc] using ih
  · intro h
    change Repeats (char accepts).Matches before text behind
    induction text generalizing before with
    | nil => exact .none
    | cons c cs ih =>
      have hfirst : (char accepts).Matches before [c] (cs ++ behind) := ⟨c, rfl, h c List.mem_cons_self⟩
      exact .more hfirst (ih fun c hc => h c (List.mem_cons_of_mem _ hc))

theorem matches_run : (run accepts).Matches before text behind ↔ text ≠ [] ∧ ∀ c ∈ text, accepts c = true := by
  constructor
  · rintro ⟨_, rest, rfl, ⟨c, rfl, hc⟩, hrest⟩
    refine ⟨List.cons_ne_nil c rest, ?_⟩
    simpa [hc] using matches_many_char.mp hrest
  · rintro ⟨hne, hall⟩
    obtain ⟨c, cs, rfl⟩ := List.exists_cons_of_ne_nil hne
    refine ⟨[c], cs, rfl, ⟨c, rfl, hall c List.mem_cons_self⟩, matches_many_char.mpr ?_⟩
    exact fun c hc => hall c (List.mem_cons_of_mem _ hc)

theorem matches_literal {word : String} : (literal word).Matches before text behind ↔ text = word.toList := by
  unfold literal
  generalize word.toList = cs
  induction cs generalizing before text with
  | nil => exact Iff.rfl
  | cons c cs ih =>
    constructor
    · rintro ⟨_, rest, rfl, ⟨first, rfl, hfirst⟩, hrest⟩
      rw [ih.mp hrest, eq_of_beq hfirst]
      rfl
    · rintro rfl
      exact ⟨[c], cs, rfl, ⟨c, rfl, beq_self_eq_true c⟩, ih.mpr rfl⟩

theorem matches_oneOf {words : List String} :
    (oneOf words).Matches before text behind ↔ ∃ word ∈ words, text = word.toList := by
  induction words with
  | nil =>
    constructor
    · rintro ⟨c, _, hc⟩
      cases hc
    · rintro ⟨_, hmem, _⟩
      cases hmem
  | cons word words ih =>
    have hcons : (oneOf (word :: words)).Matches before text behind ↔
        (literal word).Matches before text behind ∨ (oneOf words).Matches before text behind := Iff.rfl
    rw [hcons, matches_literal, ih]
    simp

theorem accepts_word {p : Pattern} : (word p).Accepts text ↔
    text.head?.any isWord = true ∧ text.getLast?.any isWord = true ∧ p.Matches [] text [] := by
  constructor
  · rintro ⟨_, _, rfl, ⟨rfl, hhead⟩, front, _, rfl, hp, rfl, hlast⟩
    simp only [List.append_nil, List.nil_append] at hhead hp hlast ⊢
    refine ⟨?_, ?_, hp⟩
    · simpa using hhead
    · simpa using hlast
  · rintro ⟨hhead, hlast, hp⟩
    refine ⟨[], text, rfl, ⟨rfl, ?_⟩, text, [], (List.append_nil text).symm, ?_, rfl, ?_⟩
    · simpa using hhead
    · simpa using hp
    · simpa using hlast

end Pattern

namespace Rule

open Pattern

variable {d : Dialect} {text : List Char}

theorem accepts_start : (pattern d start).Accepts text ↔ text = "INICIO".toList := by
  rw [pattern, accepts_word, matches_literal]
  constructor
  · exact fun h => h.2.2
  · rintro rfl
    exact ⟨by decide, by decide, rfl⟩

theorem accepts_finish : (pattern d finish).Accepts text ↔ text = "FIN".toList := by
  rw [pattern, accepts_word, matches_literal]
  constructor
  · exact fun h => h.2.2
  · rintro rfl
    exact ⟨by decide, by decide, rfl⟩

theorem accepts_keyword : (pattern d keyword).Accepts text ↔ String.ofList text ∈ keywords d := by
  rw [pattern, accepts_word, matches_oneOf]
  constructor
  · rintro ⟨_, _, word, hword, rfl⟩
    rwa [String.ofList_toList]
  · intro hword
    have hall : (keywords d).all fun word =>
        word.toList.head?.any isWord && word.toList.getLast?.any isWord := by cases d <;> decide
    have hends := List.all_eq_true.mp hall _ hword
    rw [String.toList_ofList, Bool.and_eq_true] at hends
    exact ⟨hends.1, hends.2, _, hword, String.toList_ofList.symm⟩

theorem accepts_operator : (pattern d operator).Accepts text ↔ String.ofList text ∈ operators := by
  rw [pattern, Accepts, matches_oneOf]
  constructor
  · rintro ⟨sign, hsign, rfl⟩
    rwa [String.ofList_toList]
  · exact fun hsign => ⟨_, hsign, String.toList_ofList.symm⟩

theorem accepts_identifier : (pattern d identifier).Accepts text ↔ IsName text := by
  rw [pattern, accepts_word]
  constructor
  · rintro ⟨_, _, _, rest, rfl, ⟨c, rfl, hc⟩, hrest⟩
    refine ⟨hc, ?_⟩
    simpa [isNamePart_of_isNameStart hc] using matches_many_char.mp hrest
  · intro h
    obtain ⟨hstart, hparts⟩ := h
    cases text with
    | nil => cases hstart
    | cons c cs =>
      have hword : ∀ part ∈ c :: cs, isWord part = true := fun part hpart => isWord_of_isNamePart (hparts part hpart)
      refine ⟨hword c List.mem_cons_self, ?_, [c], cs, rfl, ⟨c, rfl, hstart⟩, matches_many_char.mpr ?_⟩
      · rw [List.getLast?_eq_some_getLast (List.cons_ne_nil c cs)]
        exact hword _ (List.getLast_mem _)
      · exact fun part hpart => hparts part (List.mem_cons_of_mem _ hpart)

theorem ends_of_isDigits {front digits : List Char} (h : IsDigits digits) :
    (front ++ digits).getLast?.any isWord = true := by
  rw [List.getLast?_append_of_ne_nil _ h.1, List.getLast?_eq_some_getLast h.1]
  exact isWord_of_isDigit (h.2 _ (List.getLast_mem h.1))

theorem starts_of_isDigits {digits behind : List Char} (h : IsDigits digits) :
    (digits ++ behind).head?.any isWord = true := by
  obtain ⟨c, cs, rfl⟩ := List.exists_cons_of_ne_nil h.1
  exact isWord_of_isDigit (h.2 c List.mem_cons_self)

theorem accepts_number : (pattern d number).Accepts text ↔ IsNumeral text := by
  rw [pattern, accepts_word]
  constructor
  · rintro ⟨_, _, digits, rest, rfl, hdigits, hrest⟩
    have hwhole : IsDigits digits := matches_run.mp hdigits
    rcases hrest with ⟨point, places, rfl, hpoint, hplaces⟩ | rfl
    · rw [matches_literal.mp hpoint]
      exact .real hwhole (matches_run.mp hplaces)
    · rw [List.append_nil]
      exact .integer hwhole
  · intro h
    cases h with
    | integer hdigits =>
      have hstarts : (text ++ []).head?.any isWord = true := starts_of_isDigits hdigits
      have hends : ([] ++ text).getLast?.any isWord = true := ends_of_isDigits hdigits
      rw [List.append_nil] at hstarts
      exact ⟨hstarts, hends, text, [], (List.append_nil text).symm, matches_run.mpr hdigits, .inr rfl⟩
    | @real digits places hdigits hplaces =>
      refine ⟨starts_of_isDigits hdigits, ?_, digits, '.' :: places, rfl, matches_run.mpr hdigits, .inl ?_⟩
      · rw [← List.singleton_append, ← List.append_assoc]
        exact ends_of_isDigits hplaces
      · exact ⟨['.'], places, rfl, matches_literal.mpr rfl, matches_run.mpr hplaces⟩

theorem accepts_string : (pattern d string).Accepts text ↔
    ∃ body : List Char, text = '"' :: body ++ ['"'] ∧ ∀ c ∈ body, c ≠ '\n' := by
  have hbody {before body behind : List Char} :
      (many (char (· != '\n'))).Matches before body behind ↔ ∀ c ∈ body, c ≠ '\n' := by
    simp [matches_many_char]
  constructor
  · rintro ⟨opening, _, rfl, hopening, body, closing, rfl, hmany, hclosing⟩
    rw [matches_literal.mp hopening, matches_literal.mp hclosing]
    exact ⟨body, rfl, hbody.mp hmany⟩
  · rintro ⟨body, rfl, hall⟩
    exact ⟨['"'], body ++ ['"'], rfl, matches_literal.mpr rfl, body, ['"'], rfl, hbody.mpr hall,
      matches_literal.mpr rfl⟩

theorem accepts_symbol : (pattern d symbol).Accepts text ↔ ∃ c ∈ symbols, text = [c] := by
  constructor
  · rintro ⟨c, rfl, hc⟩
    exact ⟨c, of_decide_eq_true hc, rfl⟩
  · rintro ⟨c, hc, rfl⟩
    exact ⟨c, rfl, decide_eq_true hc⟩

/-! ### What rules take -/

/-- Rules whose texts may begin with the same character have the same lead. -/
def lead : Rule → Rule
  | start | finish | keyword => identifier
  | rule => rule

def leadOf (c : Char) : Rule :=
  if isNameStart c then identifier
  else if isDigit c then number
  else if c = '"' then string
  else if c ∈ symbols then symbol
  else operator

theorem leadOf_head {first : Char → Bool} {rule : Rule} (h : text.head?.any first = true)
    (hfirst : ∀ c, first c = true → leadOf c = rule) : text.head?.map leadOf = some rule := by
  cases text with
  | nil => cases h
  | cons c cs => exact congrArg some (hfirst c h)

theorem leadOf_of_isNameStart {c : Char} (h : isNameStart c = true) : leadOf c = identifier := if_pos h

theorem leadOf_of_isDigit {c : Char} (h : isDigit c = true) : leadOf c = number := by
  have hstart : ¬ isNameStart c = true := by
    intro hstart
    rw [isDigit_of_isNameStart hstart] at h
    cases h
  rw [leadOf, if_neg hstart, if_pos h]

theorem leadOf_of_accepts {rule : Rule} (hrule : rule ∈ tokenRules)
    (h : (pattern d rule).Accepts text) : text.head?.map leadOf = some (lead rule) := by
  have hname (hname : IsName text) : text.head?.map leadOf = some identifier :=
    leadOf_head hname.1 fun _ => leadOf_of_isNameStart
  cases rule with
  | start =>
    rw [accepts_start.mp h]
    decide
  | finish =>
    rw [accepts_finish.mp h]
    decide
  | keyword =>
    have hall : (keywords d).all fun word => word.toList.head?.any isNameStart := by cases d <;> decide
    have hhead := List.all_eq_true.mp hall _ (accepts_keyword.mp h)
    rw [String.toList_ofList] at hhead
    exact leadOf_head hhead fun _ => leadOf_of_isNameStart
  | operator =>
    have hall : operators.all fun sign => sign.toList.head?.any (leadOf · = operator) := by decide
    have hhead := List.all_eq_true.mp hall _ (accepts_operator.mp h)
    rw [String.toList_ofList] at hhead
    exact leadOf_head hhead fun _ => of_decide_eq_true
  | identifier => exact hname (accepts_identifier.mp h)
  | number =>
    have hhead : text.head?.any isDigit = true := by
      cases accepts_number.mp h with
      | integer hdigits => exact hdigits.head
      | real hdigits _ =>
        obtain ⟨c, cs, rfl⟩ := List.exists_cons_of_ne_nil hdigits.1
        exact hdigits.2 c List.mem_cons_self
    exact leadOf_head hhead fun _ => leadOf_of_isDigit
  | string =>
    obtain ⟨body, rfl, _⟩ := accepts_string.mp h
    have hquote : leadOf '"' = string := by decide
    exact congrArg some hquote
  | symbol =>
    obtain ⟨c, hc, rfl⟩ := accepts_symbol.mp h
    have hall : symbols.all (leadOf · = symbol) := by decide
    exact congrArg some (of_decide_eq_true (List.all_eq_true.mp hall c hc))
  | comment | blank | newline | leftBrace | rightBrace | bracket => exact absurd hrule (by decide)

section Taken

variable {rule other : Rule} {rest : List Char}

theorem Takes.accepts (h : Takes d rule text rest) : (pattern d rule).Accepts text := by
  cases h with
  | name hname _ =>
    unfold ofName
    split_ifs with hstart hfinish hkeyword
    · exact accepts_start.mpr hstart
    · exact accepts_finish.mpr hfinish
    · exact accepts_keyword.mpr hkeyword
    · exact accepts_identifier.mpr hname
  | operator hsign _ => exact accepts_operator.mpr (by rwa [String.ofList_toList])
  | integer hdigits _ _ => exact accepts_number.mpr (.integer hdigits)
  | real hdigits hplaces _ => exact accepts_number.mpr (.real hdigits hplaces)
  | string hbody =>
    refine accepts_string.mpr ⟨_, rfl, fun c hc => ?_⟩
    have hquotable := hbody c hc
    rw [isQuotable, Bool.and_eq_true] at hquotable
    simpa using hquotable.2
  | symbol hc => exact accepts_symbol.mpr ⟨_, hc, rfl⟩

theorem Takes.mem_tokenRules (h : Takes d rule text rest) : rule ∈ tokenRules := by
  cases h with
  | name _ _ =>
    unfold ofName
    split_ifs <;> decide
  | operator _ _ => decide
  | integer _ _ _ => decide
  | real _ _ _ => decide
  | string _ => decide
  | symbol _ => decide

theorem not_accepts_of_lead (hrule : rule ∈ tokenRules) (h : (pattern d rule).Accepts text)
    (hother : other ∈ rule.earlier) (hlead : lead other ≠ lead rule) : ¬ (pattern d other).Accepts text := by
  intro haccepts
  have hmem : other ∈ tokenRules := by
    have hall : tokenRules.all fun rule => rule.earlier.all (· ∈ tokenRules) := by decide
    exact of_decide_eq_true (List.all_eq_true.mp (List.all_eq_true.mp hall rule hrule) other hother)
  have hsame := (leadOf_of_accepts hmem haccepts).symm.trans (leadOf_of_accepts hrule h)
  exact hlead (Option.some.inj hsame)

theorem Takes.not_accepts (h : Takes d rule text rest) (hother : other ∈ rule.earlier) :
    ¬ (pattern d other).Accepts text := by
  have hapart (hleads : rule.earlier.all (lead · ≠ lead rule) = true) : ¬ (pattern d other).Accepts text :=
    not_accepts_of_lead h.mem_tokenRules h.accepts hother (of_decide_eq_true (List.all_eq_true.mp hleads other hother))
  cases h with
  | name hname hends =>
    have hname : (pattern d identifier).Accepts text := accepts_identifier.mpr hname
    unfold ofName at hother
    split_ifs at hother with hstart hfinish hkeyword
    · cases hother
    · obtain rfl : other = start := by simpa [earlier, order] using hother
      exact fun h => hstart (accepts_start.mp h)
    · have hcases : other = start ∨ other = finish := by simpa [earlier, order] using hother
      rcases hcases with rfl | rfl
      · exact fun h => hstart (accepts_start.mp h)
      · exact fun h => hfinish (accepts_finish.mp h)
    · have hcases : other = start ∨ other = finish ∨ other = keyword ∨ other = Rule.operator := by
        simpa [earlier, order] using hother
      rcases hcases with rfl | rfl | rfl | rfl
      · exact fun h => hstart (accepts_start.mp h)
      · exact fun h => hfinish (accepts_finish.mp h)
      · exact fun h => hkeyword (accepts_keyword.mp h)
      · exact not_accepts_of_lead (by decide) hname hother (by decide)
  | operator _ _ => exact hapart (by decide)
  | integer _ _ _ => exact hapart (by decide)
  | real _ _ _ => exact hapart (by decide)
  | string _ => exact hapart (by decide)
  | symbol _ => exact hapart (by decide)

end Taken

end Rule

end Bang.Token
