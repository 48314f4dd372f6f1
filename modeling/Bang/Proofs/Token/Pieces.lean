import Bang.Proofs.Token.Scan

/-! How a text is cut into pieces. What a rule takes is never empty and stands in front of what is left, so a
text has tokens exactly if it is a list of pieces that the rules take one after the other. -/

namespace Bang.Token

namespace Rule

def IsFront (text cs : List Char) : Prop := text ≠ [] ∧ text <+: cs

section Fronts

variable {d : Dialect} {cs found : List Char}

theorem isFront_literal? {text : String} (hne : text.toList ≠ []) (h : literal? text cs = some found) :
    IsFront found cs := by
  simp only [literal?, Option.ite_none_right_eq_some, Option.some.injEq, List.isPrefixOf_iff_prefix] at h
  obtain ⟨hfront, rfl⟩ := h
  exact ⟨hne, hfront⟩

theorem isFront_word? {text : String} (hne : text.toList ≠ []) (h : word? text cs = some found) :
    IsFront found cs := by
  obtain ⟨rest, rfl, _, rfl⟩ := eq_of_word?_eq_some h
  exact ⟨hne, List.prefix_append _ _⟩

theorem isFront_oneOf? {chars : List Char} (h : oneOf? chars cs = some found) : IsFront found cs := by
  cases cs with
  | nil => cases h
  | cons c cs =>
    simp only [oneOf?, Option.ite_none_right_eq_some, Option.some.injEq] at h
    obtain ⟨_, rfl⟩ := h
    exact ⟨List.cons_ne_nil _ _, List.prefix_append [c] cs⟩

theorem isFront_identifier? (h : identifier? cs = some found) : IsFront found cs := by
  cases cs with
  | nil => cases h
  | cons c cs =>
    simp only [identifier?, Option.ite_none_right_eq_some, Option.some.injEq] at h
    obtain ⟨_, rfl⟩ := h
    exact ⟨List.cons_ne_nil _ _, List.cons_prefix_cons.mpr ⟨rfl, List.takeWhile_prefix _⟩⟩

theorem isFront_fraction? (h : fraction? cs = some found) : IsFront found cs := by
  unfold fraction? at h
  split at h
  · rename_i cs
    simp only [Option.ite_none_right_eq_some, Option.some.injEq] at h
    obtain ⟨_, rfl⟩ := h
    exact ⟨List.cons_ne_nil _ _, List.cons_prefix_cons.mpr ⟨rfl, List.takeWhile_prefix _⟩⟩
  · cases h

theorem isFront_number? (h : number? cs = some found) : IsFront found cs := by
  unfold number? at h
  split at h
  · cases h
  · rename_i hdigits
    have hne : cs.takeWhile Text.isDigit ≠ [] := by simpa using hdigits
    split at h
    · rename_i fraction hfraction
      obtain rfl : _ = found := Option.some.inj h
      obtain ⟨rest, hrest⟩ := (isFront_fraction? hfraction).2
      refine ⟨by simp [hne], rest, ?_⟩
      rw [List.append_assoc, hrest, List.takeWhile_append_dropWhile]
    · simp only [Option.ite_none_right_eq_some, Option.some.injEq] at h
      obtain ⟨_, rfl⟩ := h
      exact ⟨hne, List.takeWhile_prefix _⟩

theorem isFront_string? (h : string? cs = some found) : IsFront found cs := by
  unfold string? at h
  split at h
  · rename_i cs
    simp only [Option.ite_none_right_eq_some, Option.some.injEq] at h
    obtain ⟨hclosing, rfl⟩ := h
    obtain ⟨rest, hrest⟩ : ∃ rest, cs.dropWhile isQuotable = '"' :: rest := by
      cases hdrop : cs.dropWhile isQuotable with
      | nil => simp [hdrop] at hclosing
      | cons c rest => exact ⟨rest, by simpa [hdrop] using hclosing⟩
    refine ⟨List.cons_ne_nil _ _, rest, ?_⟩
    rw [List.append_assoc, List.singleton_append, List.cons_append, ← hrest, List.takeWhile_append_dropWhile]
  · cases h

theorem isFront_comment? (h : comment? cs = some found) : IsFront found cs := by
  unfold comment? at h
  split at h
  · obtain rfl : _ = found := Option.some.inj h
    exact ⟨List.cons_ne_nil _ _, List.cons_prefix_cons.mpr ⟨rfl, List.takeWhile_prefix _⟩⟩
  · cases h

theorem isFront_blank? (h : blank? cs = some found) : IsFront found cs := by
  simp only [blank?, Option.ite_none_left_eq_some, Option.some.injEq] at h
  obtain ⟨hne, rfl⟩ := h
  exact ⟨by simpa using hne, List.takeWhile_prefix _⟩

theorem keyword_ne_nil {text : String} (h : text ∈ keywords d) : text.toList ≠ [] := by
  have hall : (keywords d).all (·.toList ≠ []) := by cases d <;> decide
  simpa using List.all_eq_true.mp hall text h

theorem operator_ne_nil {text : String} (h : text ∈ operators) : text.toList ≠ [] := by
  have hall : operators.all (·.toList ≠ []) := by decide
  simpa using List.all_eq_true.mp hall text h

theorem isFront_take? {rule : Rule} (h : take? d rule cs = some found) : IsFront found cs := by
  cases rule with
  | start => exact isFront_word? (by decide) h
  | finish => exact isFront_word? (by decide) h
  | keyword =>
    obtain ⟨text, htext, hword⟩ := List.exists_of_findSome?_eq_some h
    exact isFront_word? (keyword_ne_nil htext) hword
  | operator =>
    obtain ⟨text, htext, hliteral⟩ := List.exists_of_findSome?_eq_some h
    exact isFront_literal? (operator_ne_nil htext) hliteral
  | identifier => exact isFront_identifier? h
  | number => exact isFront_number? h
  | string => exact isFront_string? h
  | symbol => exact isFront_oneOf? h
  | comment => exact isFront_comment? h
  | blank => exact isFront_blank? h
  | newline => exact isFront_literal? (by decide) h
  | leftBrace => exact isFront_literal? (by decide) h
  | rightBrace => exact isFront_literal? (by decide) h
  | bracket => exact isFront_oneOf? h

end Fronts

end Rule

/-! ### From tokens to pieces -/

variable {d : Dialect}

theorem exists_pieces_scanFrom {found tokens : List Token} {line position skip : Nat} {cs : List Char}
    (h : scanFrom d found line position skip cs = ⟨tokens, none⟩) :
    ∃ pieces, Pieces d pieces ∧ cs.drop skip = pieces.flatMap Prod.snd ∧
      tokens = found.reverse ++ tokensOf line pieces := by
  induction cs generalizing found line position skip with
  | nil =>
    simp only [scanFrom, Scan.mk.injEq, and_true] at h
    exact ⟨[], .nil, by simp, by simp [tokensOf, h]⟩
  | cons c cs ih =>
    cases skip with
    | succ skip =>
      obtain ⟨pieces, hpieces, hcs, htokens⟩ := ih h
      exact ⟨pieces, hpieces, by rwa [List.drop_succ_cons], htokens⟩
    | zero =>
      cases hfirst : Rule.first? d (c :: cs) with
      | none =>
        rw [scanFrom, hfirst] at h
        cases h
      | some taken =>
        obtain ⟨rule, text⟩ := taken
        rw [scanFrom_cons hfirst] at h
        obtain ⟨hne, rest, hrest⟩ := Rule.isFront_take? (Rule.first?_eq_some_iff.mp hfirst).1
        obtain ⟨pieces, hpieces, hcs, htokens⟩ := ih h
        -- The characters still to be passed over are those of the text just taken.
        have hdrop : cs.drop (text.length - 1) = rest := by
          have hlength : text.length - 1 + 1 = text.length :=
            Nat.sub_add_cancel (List.length_pos_iff.mpr hne)
          rw [← List.drop_succ_cons (a := c), hlength, ← hrest, List.drop_left]
        rw [hdrop] at hcs
        refine ⟨(rule, text) :: pieces, .cons hne ?_ hpieces, ?_, ?_⟩
        · rw [← hcs, hrest, hfirst]
        · rw [List.flatMap_cons, ← hcs, hrest, List.drop_zero]
        · rw [htokens, tokensOf]
          cases rule.isSilent <;> simp

theorem tokenize_eq_ok_iff {code : String} {tokens : List Token} :
    tokenize d code = .ok tokens ↔
      ∃ pieces, Pieces d pieces ∧ code.toList = pieces.flatMap Prod.snd ∧ tokens = tokensOf 1 pieces := by
  constructor
  · intro h
    rcases hscan : scan d code with ⟨found, stuck⟩
    cases stuck with
    | some stuck =>
      rw [tokenize, hscan] at h
      cases h
    | none =>
      rw [tokenize, hscan] at h
      obtain rfl : found = tokens := Except.ok.inj h
      obtain ⟨pieces, hpieces, hcode, htokens⟩ := exists_pieces_scanFrom hscan
      exact ⟨pieces, hpieces, hcode, htokens⟩
  · rintro ⟨pieces, hpieces, hcode, rfl⟩
    exact tokenize_pieces hpieces hcode

theorem Pieces.exists_rest {pieces : List (Rule × List Char)} (h : Pieces d pieces) {rule : Rule} {text : List Char}
    (hmem : (rule, text) ∈ pieces) : ∃ rest, Rule.first? d (text ++ rest) = some (rule, text) := by
  induction h with
  | nil => cases hmem
  | cons _ hfirst _ ih =>
    rcases List.mem_cons.mp hmem with heq | hmem
    · obtain ⟨rfl, rfl⟩ := Prod.mk.inj heq
      exact ⟨_, hfirst⟩
    · exact ih hmem

theorem mem_tokensOf {t : Token} {line : Nat} {pieces : List (Rule × List Char)} (h : t ∈ tokensOf line pieces) :
    ∃ rule text, (rule, text) ∈ pieces ∧ rule.isSilent = false ∧ t.kind = rule.kind ∧ t.text = String.ofList text := by
  induction pieces generalizing line with
  | nil => cases h
  | cons piece pieces ih =>
    obtain ⟨rule, text⟩ := piece
    rw [tokensOf] at h
    rcases List.mem_append.mp h with hfirst | hrest
    · cases hsilent : rule.isSilent with
      | true => simp [hsilent] at hfirst
      | false =>
        obtain rfl : t = ⟨rule.kind, String.ofList text, line⟩ := by simpa [hsilent] using hfirst
        exact ⟨rule, text, List.mem_cons_self, hsilent, rfl, rfl⟩
    · obtain ⟨rule', text', hmem, hpiece⟩ := ih hrest
      exact ⟨rule', text', List.mem_cons_of_mem _ hmem, hpiece⟩

theorem exists_taken_of_tokenize {code : String} {tokens : List Token} (h : tokenize d code = .ok tokens) {t : Token}
    (ht : t ∈ tokens) :
    ∃ rule text rest, Rule.first? d (text ++ rest) = some (rule, text) ∧ rule.isSilent = false ∧
      t.kind = rule.kind ∧ t.text = String.ofList text := by
  obtain ⟨pieces, hpieces, _, rfl⟩ := tokenize_eq_ok_iff.mp h
  obtain ⟨rule, text, hmem, hsilent, hkind, htext⟩ := mem_tokensOf ht
  obtain ⟨rest, hfirst⟩ := hpieces.exists_rest hmem
  exact ⟨rule, text, rest, hfirst, hsilent, hkind, htext⟩

end Bang.Token
