import Bang.Proofs.Token.Shape
import Mathlib.Data.List.Chain
import Mathlib.Data.List.Flatten

/-! When minified code is the same program. The texts of all tokens, written without blanks, have the same
tokens again exactly if no two neighbours glue together. -/

namespace Bang.Token

open Text Rule

def Kind.isWordlike (kind : Kind) : Bool := kind ∈ [start, finish, keyword, identifier, number]

def lexeme (t : Token) : Kind × String := (t.kind, t.text)

/-- Two lexemes that run together where nothing stands between them. -/
def Glue (t u : Kind × String) : Prop :=
  (t.1.isWordlike = true ∧ u.1.isWordlike = true) ∨ (t.2.toList ∈ openSigns ∧ u.2.toList.head? = some '=')
  deriving Decidable

def lexemeOf (piece : Rule × List Char) : Kind × String := (piece.1.kind, String.ofList piece.2)

def loud (pieces : List (Rule × List Char)) : List (Rule × List Char) := pieces.filter (!·.1.isSilent)

section Lexemes

theorem loud_cons (piece : Rule × List Char) (pieces : List (Rule × List Char)) :
    loud (piece :: pieces) = if piece.1.isSilent then loud pieces else piece :: loud pieces := by
  cases hsilent : piece.1.isSilent <;> simp [loud, hsilent]

theorem map_lexeme_tokensOf (line : Nat) (pieces : List (Rule × List Char)) :
    (tokensOf line pieces).map lexeme = (loud pieces).map lexemeOf := by
  induction pieces generalizing line with
  | nil => rfl
  | cons piece pieces ih =>
    obtain ⟨rule, text⟩ := piece
    rw [tokensOf, List.map_append, ih, loud_cons]
    cases rule.isSilent <;> rfl

theorem toList_minified (tokens : List Token) :
    (minified tokens).toList = (tokens.map lexeme).flatMap (·.2.toList) := by
  rw [minified, String.toList_join, List.flatMap_map, List.flatMap_map]
  rfl

theorem flatMap_lexemeOf (pieces : List (Rule × List Char)) :
    (pieces.map lexemeOf).flatMap (·.2.toList) = pieces.flatMap Prod.snd := by
  rw [List.flatMap_map]
  simp only [lexemeOf, String.toList_ofList]

end Lexemes

section Neighbours

variable {d : Dialect} {rule : Rule} {text rest rest' : List Char}

theorem Rule.isWordlike_ofName (d : Dialect) (word : List Char) : (ofName d word).kind.isWordlike = true := by
  unfold ofName
  split_ifs <;> rfl

theorem ne_dot_of_isWord {c : Char} (h : isWord c = true) : c ≠ '.' := by
  have hdot : isWord '.' = false := by decide
  rintro rfl
  rw [hdot] at h
  cases h

theorem Rule.Takes.head (h : Takes d rule text rest) :
    ∃ c cs, text = c :: cs ∧ isWord c = rule.kind.isWordlike ∧ c ≠ '.' := by
  cases h with
  | name hname hends =>
    obtain ⟨hstart, hparts⟩ := hname
    cases text with
    | nil => cases hstart
    | cons c cs =>
      have hc : isWord c = true := isWord_of_isNamePart (hparts c List.mem_cons_self)
      exact ⟨c, cs, rfl, hc.trans (isWordlike_ofName d _).symm, ne_dot_of_isWord hc⟩
  | @operator sign _ hsign _ =>
    have hall : operators.all fun text => text.toList.head?.any fun c => !isWord c && c != '.' := by decide
    have hhead := List.all_eq_true.mp hall sign hsign
    cases hsigns : sign.toList with
    | nil => simp [hsigns] at hhead
    | cons c cs =>
      rw [hsigns] at hhead
      obtain ⟨hword, hdot⟩ : isWord c = false ∧ c ≠ '.' := by simpa using hhead
      exact ⟨c, cs, rfl, hword, hdot⟩
  | integer hdigits _ _ =>
    obtain ⟨c, cs, rfl⟩ := List.exists_cons_of_ne_nil hdigits.1
    have hc : isWord c = true := isWord_of_isDigit (hdigits.2 c List.mem_cons_self)
    exact ⟨c, cs, rfl, hc, ne_dot_of_isWord hc⟩
  | @real digits places _ hdigits _ _ =>
    obtain ⟨c, cs, rfl⟩ := List.exists_cons_of_ne_nil hdigits.1
    have hc : isWord c = true := isWord_of_isDigit (hdigits.2 c List.mem_cons_self)
    exact ⟨c, cs ++ '.' :: places, rfl, hc, ne_dot_of_isWord hc⟩
  | @string body _ _ => exact ⟨'"', body ++ ['"'], rfl, by decide, by decide⟩
  | @symbol c _ hc =>
    have hall : symbols.all fun c => !isWord c && c != '.' := by decide
    obtain ⟨hword, hdot⟩ : isWord c = false ∧ c ≠ '.' := by simpa using List.all_eq_true.mp hall c hc
    exact ⟨c, [], rfl, hword, hdot⟩

theorem Rule.Takes.ends (h : Takes d rule text rest) (hlike : rule.kind.isWordlike = true) : endsWord rest = true := by
  cases h with
  | name _ hends => exact hends
  | operator _ _ => cases hlike
  | integer _ hends _ => exact hends
  | real _ _ hends => exact hends
  | string _ => cases hlike
  | symbol _ => cases hlike

theorem Rule.Takes.not_equals (h : Takes d rule text rest) (hopen : text ∈ openSigns) : rest.head? ≠ some '=' := by
  intro hrest
  obtain ⟨rest, rfl⟩ := List.head?_eq_some_iff.mp hrest
  have hfirst := (first?_iff_takes.mpr h).1
  have hlonger (sign : String) (hsign : sign ∈ operators) (hclosed : sign.toList ∉ openSigns) :
      first? d (sign.toList ++ rest) = some (Rule.operator, sign.toList) :=
    first?_operator hsign fun hmem => absurd hmem hclosed
  simp only [openSigns, List.mem_cons, List.not_mem_nil, or_false] at hopen
  rcases hopen with rfl | rfl | rfl
  · cases hfirst.symm.trans (hlonger "==" (by decide) (by decide))
  · cases hfirst.symm.trans (hlonger "<=" (by decide) (by decide))
  · cases hfirst.symm.trans (hlonger ">=" (by decide) (by decide))

theorem Rule.Takes.of_rest (h : Takes d rule text rest)
    (hword : rule.kind.isWordlike = true → endsWord rest' = true ∧ fraction? rest' = none)
    (hsign : text ∈ openSigns → rest'.head? ≠ some '=') : Takes d rule text rest' := by
  cases h with
  | name hname _ => exact .name hname (hword (isWordlike_ofName d _)).1
  | operator hmem _ => exact .operator hmem hsign
  | integer hdigits _ _ => exact .integer hdigits (hword rfl).1 (hword rfl).2
  | real hdigits hplaces _ => exact .real hdigits hplaces (hword rfl).1
  | string hbody => exact .string hbody
  | symbol hc => exact .symbol hc

end Neighbours

section Chains

variable {d : Dialect} {pieces : List (Rule × List Char)}

theorem glue_lexemeOf {p q : Rule × List Char} :
    Glue (lexemeOf p) (lexemeOf q) ↔
      (p.1.kind.isWordlike = true ∧ q.1.kind.isWordlike = true) ∨ (p.2 ∈ openSigns ∧ q.2.head? = some '=') := by
  rw [Glue, lexemeOf, lexemeOf, String.toList_ofList, String.toList_ofList]

theorem pieces_of_isChain (htaken : ∀ piece ∈ pieces, ∃ rest, Takes d piece.1 piece.2 rest)
    (hchain : pieces.IsChain fun p q => ¬ Glue (lexemeOf p) (lexemeOf q)) : Pieces d pieces := by
  induction pieces with
  | nil => exact .nil
  | cons piece pieces ih =>
    obtain ⟨rule, text⟩ := piece
    obtain ⟨rest, htakes⟩ := htaken _ List.mem_cons_self
    obtain ⟨c, cs, rfl, -⟩ := htakes.head
    refine .cons (List.cons_ne_nil c cs) (first?_iff_takes.mpr ?_).1
      (ih (fun piece hmem => htaken piece (List.mem_cons_of_mem _ hmem)) hchain.of_cons)
    cases pieces with
    | nil => exact htakes.of_rest (fun _ => ⟨rfl, rfl⟩) fun _ => by simp
    | cons next pieces =>
      have hapart := (List.isChain_cons_cons.mp hchain).1
      rw [glue_lexemeOf, not_or, not_and, not_and] at hapart
      obtain ⟨hwords, hsigns⟩ := hapart
      obtain ⟨_, hnext⟩ := htaken next (by simp)
      obtain ⟨first, behind, htext, hfirst, hdot⟩ := hnext.head
      rw [List.flatMap_cons, htext, List.cons_append]
      rw [htext] at hsigns
      refine htakes.of_rest (fun hlike => ⟨?_, ?_⟩) hsigns
      · rw [Bool.eq_false_iff.mpr (hwords hlike)] at hfirst
        simp [endsWord, hfirst]
      · simp [fraction?, hdot]

theorem isChain_of_pieces (h : Pieces d pieces) (hloud : ∀ piece ∈ pieces, piece.1.isSilent = false) :
    pieces.IsChain fun p q => ¬ Glue (lexemeOf p) (lexemeOf q) := by
  have htaken : ∀ piece ∈ pieces, ∃ rest, Takes d piece.1 piece.2 rest := fun piece hmem => by
    obtain ⟨rest, hfirst⟩ := h.exists_rest hmem
    exact ⟨rest, takes_of_first? hfirst (hloud piece hmem)⟩
  induction h with
  | nil => exact .nil
  | @cons rule text pieces hne hfirst hrest ih =>
    have htakes := takes_of_first? hfirst (hloud _ List.mem_cons_self)
    have hchain := ih (fun piece hmem => hloud piece (List.mem_cons_of_mem _ hmem))
      (fun piece hmem => htaken piece (List.mem_cons_of_mem _ hmem))
    cases pieces with
    | nil => exact .singleton _
    | cons next pieces =>
      obtain ⟨_, hnext⟩ := htaken next (by simp)
      obtain ⟨first, behind, htext, hhead, _⟩ := hnext.head
      refine List.isChain_cons_cons.mpr ⟨?_, hchain⟩
      rw [glue_lexemeOf]
      rw [List.flatMap_cons, htext, List.cons_append] at htakes
      rintro (⟨hlike, hnextLike⟩ | ⟨hopen, hequals⟩)
      · have hends := htakes.ends hlike
        simp [endsWord, hhead, hnextLike] at hends
      · rw [htext] at hequals
        exact htakes.not_equals hopen hequals

theorem Pieces.not_silent (h : Pieces d pieces) (hsame : (loud pieces).flatMap Prod.snd = pieces.flatMap Prod.snd) :
    ∀ piece ∈ pieces, piece.1.isSilent = false := by
  induction h with
  | nil => simp
  | @cons rule text pieces hne _ _ ih =>
    cases hsilent : rule.isSilent with
    | true =>
      have hle : ((loud pieces).flatMap Prod.snd).length ≤ (pieces.flatMap Prod.snd).length :=
        (List.filter_sublist.flatMap Prod.snd).length_le
      rw [loud_cons, hsilent, if_pos rfl] at hsame
      rw [hsame, List.flatMap_cons, List.length_append] at hle
      have hpos : 0 < (rule, text).2.length := List.length_pos_iff.mpr hne
      omega
    | false =>
      rw [loud_cons, hsilent, if_neg Bool.false_ne_true, List.flatMap_cons, List.flatMap_cons] at hsame
      intro piece hmem
      rcases List.mem_cons.mp hmem with rfl | hmem
      · exact hsilent
      · exact ih (List.append_cancel_left hsame) piece hmem

theorem tokenize_minified_iff {code : String} {tokens : List Token} (h : tokenize d code = .ok tokens) :
    (∃ again, tokenize d (minified tokens) = .ok again ∧ again.map lexeme = tokens.map lexeme) ↔
      (tokens.map lexeme).IsChain fun t u => ¬ Glue t u := by
  obtain ⟨pieces, hpieces, _, rfl⟩ := tokenize_eq_ok_iff.mp h
  constructor
  · rintro ⟨again, hagain, hsame⟩
    obtain ⟨pieces', hpieces', hcode, rfl⟩ := tokenize_eq_ok_iff.mp hagain
    have hloud : ∀ piece ∈ pieces', piece.1.isSilent = false := by
      apply hpieces'.not_silent
      rw [← hcode, toList_minified, ← hsame, map_lexeme_tokensOf, flatMap_lexemeOf]
    have hself : loud pieces' = pieces' := List.filter_eq_self.mpr fun piece hmem => by simp [hloud piece hmem]
    rw [← hsame, map_lexeme_tokensOf, hself]
    exact (List.isChain_map lexemeOf).mpr (isChain_of_pieces hpieces' hloud)
  · intro hchain
    rw [map_lexeme_tokensOf, List.isChain_map] at hchain
    have hloud : ∀ piece ∈ loud pieces, piece ∈ pieces ∧ piece.1.isSilent = false := fun piece hmem => by
      simpa [loud] using hmem
    have htaken : ∀ piece ∈ loud pieces, ∃ rest, Takes d piece.1 piece.2 rest := fun piece hmem => by
      obtain ⟨rest, hfirst⟩ := hpieces.exists_rest (hloud piece hmem).1
      exact ⟨rest, takes_of_first? hfirst (hloud piece hmem).2⟩
    have hself : loud (loud pieces) = loud pieces := List.filter_eq_self.mpr fun piece hmem => by
      simp [(hloud piece hmem).2]
    refine ⟨tokensOf 1 (loud pieces), tokenize_pieces (pieces_of_isChain htaken hchain) ?_, ?_⟩
    · rw [toList_minified, map_lexeme_tokensOf, flatMap_lexemeOf]
    · rw [map_lexeme_tokensOf, map_lexeme_tokensOf, hself]

theorem tokenize_minified_loop :
    tokenize .basic "while ( x <= 1.5 ) # loop" = .ok [⟨.keyword, "while", 1⟩, ⟨.symbol, "(", 1⟩,
      ⟨.identifier, "x", 1⟩, ⟨.operator, "<=", 1⟩, ⟨.number, "1.5", 1⟩, ⟨.symbol, ")", 1⟩] ∧
    ∃ again, tokenize .basic (minified [⟨.keyword, "while", 1⟩, ⟨.symbol, "(", 1⟩, ⟨.identifier, "x", 1⟩,
        ⟨.operator, "<=", 1⟩, ⟨.number, "1.5", 1⟩, ⟨.symbol, ")", 1⟩]) = .ok again ∧
      again.map lexeme = [(.keyword, "while"), (.symbol, "("), (.identifier, "x"), (.operator, "<="),
        (.number, "1.5"), (.symbol, ")")] :=
  have h : tokenize .basic "while ( x <= 1.5 ) # loop" = .ok [⟨.keyword, "while", 1⟩, ⟨.symbol, "(", 1⟩,
      ⟨.identifier, "x", 1⟩, ⟨.operator, "<=", 1⟩, ⟨.number, "1.5", 1⟩, ⟨.symbol, ")", 1⟩] := by decide +kernel
  ⟨h, (tokenize_minified_iff h).mpr (by decide)⟩

end Chains

end Bang.Token
