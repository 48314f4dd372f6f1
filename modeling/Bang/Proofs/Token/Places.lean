import Bang.Proofs.Lines

/-! Where tokens stand. The line of a token is one more than the number of `!` before it in the text, whether they
stand in strings, in comments or for themselves. -/

namespace Bang.Token

open Text Rule

/-- A text seen as tokens, with a gap before each of them and behind the last. -/
structure IsLayout (tokens : List Token) (cs gap : List Char) (links : List (Token × List Char)) : Prop where
  tokens : links.map Prod.fst = tokens
  text : cs = gap ++ woven links
  gap : Gap gap (woven links)
  spaced : Spaced links

variable {d : Dialect} {line : Nat} {c : Char} {cs gap rest : List Char} {t : Token} {tokens : List Token}

theorem woven_cons (t : Token) (gap : List Char) (links : List (Token × List Char)) :
    woven ((t, gap) :: links) = t.text.toList ++ (gap ++ woven links) := by
  rw [woven, List.flatMap_cons, List.append_assoc]
  rfl

/-! ### Over a gap -/

theorem lexes_iff_scanFrom (position : Nat) :
    Lexes d line cs tokens ↔ scanFrom d [] line position 0 cs = ⟨tokens, none⟩ := by
  constructor
  · rintro ⟨pieces, hpieces, rfl, rfl⟩
    exact scanFrom_pieces hpieces [] line position
  · intro h
    obtain ⟨pieces, hpieces, hcs, htokens⟩ := exists_pieces_scanFrom h
    exact ⟨pieces, hpieces, hcs, htokens⟩

theorem lexes_blank (hc : isBlank c = true) : Lexes d line (c :: cs) tokens ↔ Lexes d line cs tokens := by
  rw [lexes_iff_scanFrom 0, lexes_iff_scanFrom 1, scanFrom_blank hc]

theorem lexes_blanks {run : List Char} (hrun : ∀ c ∈ run, isBlank c = true) :
    Lexes d line (run ++ cs) tokens ↔ Lexes d (line + run.count '!') cs tokens := by
  induction run with
  | nil => rfl
  | cons c run ih =>
    have hc : isBlank c = true := hrun c List.mem_cons_self
    have hbang : c ≠ '!' := by
      rintro rfl
      exact absurd hc (by decide)
    have hrest := ih fun a ha => hrun a (List.mem_cons_of_mem c ha)
    rw [List.cons_append, lexes_blank hc, hrest, List.count_cons_of_ne hbang]

theorem Gap.lexes (h : Gap gap rest) :
    Lexes d line (gap ++ rest) tokens ↔ Lexes d (line + gap.count '!') rest tokens := by
  induction h generalizing line with
  | nil => rfl
  | @blank run gap rest _ hrun _ ih =>
    rw [List.append_assoc, lexes_blanks hrun, ih, List.count_append, Nat.add_assoc]
  | @comment body gap rest hbody hend _ ih =>
    have hline : '\n' ∉ body := fun hmem => hbody '\n' hmem rfl
    have hcount : ('#' :: body).count '!' = body.count '!' := List.count_cons_of_ne (by decide)
    rw [List.append_assoc, lexes_comment hline hend, ih, List.count_append, hcount, Nat.add_assoc]

/-! ### Over a token -/

theorem Lexes.text_head (h : Lexes d line cs tokens) (ht : t ∈ tokens) :
    ∃ c text, t.text.toList = c :: text ∧ startsGap c = false := by
  obtain ⟨pieces, hpieces, _, rfl⟩ := h
  obtain ⟨rule, text, hmem, hsilent, _, htext⟩ := mem_tokensOf ht
  obtain ⟨rest, hfirst⟩ := hpieces.exists_rest hmem
  have htakes := takes_of_first? hfirst hsilent
  obtain ⟨c, text, rfl, _⟩ := htakes.head
  exact ⟨c, text, by rw [htext, String.toList_ofList], htakes.not_startsGap⟩

theorem Lexes.token (h : Lexes d line (t.text.toList ++ rest) (t :: tokens)) :
    t.line = line ∧ Lexes d (line + t.text.toList.count '!') rest tokens := by
  obtain ⟨c, text, htext, hgap⟩ := h.text_head List.mem_cons_self
  obtain ⟨pieces, hpieces, hcs, htokens⟩ := h
  rw [htext, List.cons_append] at hcs
  cases hpieces with
  | nil => cases hcs
  | @cons rule taken pieces _ hfirst hrest =>
    rw [List.flatMap_cons] at hcs
    rw [← hcs] at hfirst
    have hsilent : rule.isSilent = false := isSilent_of_first? hgap hfirst
    rw [tokensOf, hsilent, if_neg Bool.false_ne_true, List.singleton_append] at htokens
    obtain ⟨rfl, rfl⟩ := List.cons.inj htokens
    rw [String.toList_ofList] at htext ⊢
    refine ⟨rfl, pieces, hrest, ?_, rfl⟩
    rw [htext, List.cons_append] at hcs
    exact List.append_cancel_left (List.cons.inj hcs).2

/-! ### Lines -/

section Links

variable {behind : List Char} {links before after : List (Token × List Char)}

theorem Lexes.link (h : Lexes d line (gap ++ woven ((t, behind) :: links)) (t :: tokens))
    (hgap : Gap gap (woven ((t, behind) :: links))) :
    t.line = line + gap.count '!' ∧
      Lexes d (line + (gap ++ t.text.toList).count '!') (behind ++ woven links) tokens := by
  rw [hgap.lexes, woven_cons] at h
  obtain ⟨hline, hrest⟩ := h.token
  rw [List.count_append, ← Nat.add_assoc]
  exact ⟨by rw [hline, Int.natCast_add], hrest⟩

theorem Lexes.line_eq (h : Lexes d line (gap ++ woven (before ++ (t, behind) :: after))
      ((before ++ (t, behind) :: after).map Prod.fst))
    (hgap : Gap gap (woven (before ++ (t, behind) :: after))) (hspaced : Spaced (before ++ (t, behind) :: after)) :
    t.line = line + (gap ++ woven before).count '!' := by
  induction before generalizing gap line with
  | nil =>
    have hnone : gap ++ woven [] = gap := List.append_nil gap
    rw [hnone]
    exact (h.link hgap).1
  | cons link before ih =>
    obtain ⟨u, between⟩ := link
    obtain ⟨_, hrest⟩ := h.link hgap
    have hcount : (gap ++ woven ((u, between) :: before)).count '!' =
        (gap ++ u.text.toList).count '!' + (between ++ woven before).count '!' := by
      rw [woven_cons, ← List.append_assoc, List.count_append]
    rw [ih hrest hspaced.1 hspaced.2, hcount, Int.natCast_add, Int.natCast_add, Int.add_assoc]

end Links

theorem pairwise_line_tokensOf (line : Nat) (pieces : List (Rule × List Char)) :
    (tokensOf line pieces).Pairwise fun t u => t.line ≤ u.line := by
  induction pieces generalizing line with
  | nil => exact .nil
  | cons piece pieces ih =>
    obtain ⟨rule, text⟩ := piece
    have hlater := ih (line + text.count '!')
    rw [tokensOf]
    cases rule.isSilent with
    | true => exact hlater
    | false =>
      refine .cons (fun t ht => ?_) hlater
      have hline := (line_of_mem_tokensOf ht).1
      show (line : Int) ≤ t.line
      omega

/-- A text that can be lexed is made of its tokens and of gaps. However it is seen so, the line of
each token is one more than the number of `!` in the text before the token. A `!` counts once: the
rule that would count it again never decides. So lines do not fall from one token to the next. -/
theorem line_eq_count {code : String} (h : tokenize d code = .ok tokens) :
    (∃ gap links, IsLayout tokens code.toList gap links) ∧
      (∀ (gap behind : List Char) (links before after : List (Token × List Char)) (t : Token),
        IsLayout tokens code.toList gap links → links = before ++ (t, behind) :: after →
          t.line = 1 + (gap ++ woven before).count '!') ∧
      (∀ cs rule text, first? d cs = some (rule, text) → rule ≠ .newline) ∧
      tokens.Pairwise fun t u => t.line ≤ u.line := by
  obtain ⟨pieces, hpieces, hcode, rfl⟩ := tokenize_eq_ok_iff.mp h
  refine ⟨?_, ?_, ?_, pairwise_line_tokensOf 1 pieces⟩
  · obtain ⟨gap, links, htokens, htext, hgap, hspaced⟩ := covers_of_pieces hpieces 1
    exact ⟨gap, links, htokens, hcode.trans htext, hgap, hspaced⟩
  · rintro gap behind _ before after t ⟨htokens, htext, hgap, hspaced⟩ rfl
    have hlexes : Lexes d 1 (gap ++ woven (before ++ (t, behind) :: after))
        ((before ++ (t, behind) :: after).map Prod.fst) :=
      ⟨pieces, hpieces, htext.symm.trans hcode, htokens⟩
    exact hlexes.line_eq hgap hspaced
  · rintro cs _ text hfirst rfl
    exact not_idle_of_first? hfirst (by decide)

def bangs : String := "INICIO # ojo!\nprint(\"a!b\")! FIN"

def bangLinks : List (Token × List Char) :=
  [(⟨.start, "INICIO", 1⟩, [' ', '#', ' ', 'o', 'j', 'o', '!', '\n']), (⟨.keyword, "print", 2⟩, []),
    (⟨.symbol, "(", 2⟩, []), (⟨.string, "\"a!b\"", 2⟩, []), (⟨.symbol, ")", 3⟩, []), (⟨.symbol, "!", 3⟩, [' ']),
    (⟨.finish, "FIN", 4⟩, [])]

theorem isLayout_bangs : IsLayout (bangLinks.map Prod.fst) bangs.toList [] bangLinks where
  tokens := rfl
  text := by decide +kernel
  gap := .nil
  spaced := by
    have hblank {c : Char} (hc : isBlank c = true) {gap rest : List Char} (h : Gap gap rest) : Gap (c :: gap) rest :=
      .blank (List.cons_ne_nil c []) (by simpa using hc) h
    have hcomment {rest : List Char} : Gap ('#' :: [' ', 'o', 'j', 'o', '!'] ++ ['\n']) rest :=
      .comment (by simp) (by simp) (hblank (by decide) .nil)
    exact ⟨hblank (by decide) hcomment, .nil, .nil, .nil, .nil, hblank (by decide) .nil, .nil, trivial⟩

theorem line_eq_count_bangs :
    tokenize .basic bangs = .ok (bangLinks.map Prod.fst) ∧
      (⟨.finish, "FIN", 4⟩ : Token).line = 1 + ([] ++ woven (bangLinks.take 6)).count '!' := by
  have h : tokenize .basic bangs = .ok (bangLinks.map Prod.fst) := by decide +kernel
  exact ⟨h, (line_eq_count h).2.1 [] [] bangLinks (bangLinks.take 6) [] _ isLayout_bangs rfl⟩

end Bang.Token
