import Bang.Proofs.Lines

/-! Where a scan is stuck. The report of a failure names the first place where no pattern matches. The text before
that place is lexed on its own into the tokens found so far: no piece of it had taken anything from what comes
behind. -/

namespace Bang.Token

open Text

/-! ### Patterns that match -/

namespace Pattern

variable {before text behind : List Char}

theorem matches_of_word {p : Pattern} (h : (word p).Matches before text behind) :
    p.Matches before text behind ∧ (text.getLast?.any isWord = true → endsWord behind = true) := by
  obtain ⟨_, _, rfl, ⟨rfl, _⟩, front, _, rfl, hp, rfl, hbound⟩ := h
  simp only [List.append_nil, List.nil_append] at hp hbound ⊢
  refine ⟨hp, fun hlast => ?_⟩
  have hne : front ≠ [] := by
    rintro rfl
    cases hlast
  rw [List.getLast?_append_of_ne_nil _ hne, hlast] at hbound
  cases behind with
  | nil => rfl
  | cons c cs => simpa [endsWord] using hbound.symm

end Pattern

namespace Rule

open Pattern

variable {d : Dialect} {rule : Rule} {before text behind : List Char}

theorem isSome_identifier? (h : IsName text) (hends : endsWord behind = true) :
    (identifier? (text ++ behind)).isSome = true := by
  obtain ⟨hstart, hparts⟩ := h
  cases text with
  | nil => cases hstart
  | cons c cs =>
    have hc : isNameStart c = true := hstart
    have hruns := runs_name (fun part hpart => hparts part (List.mem_cons_of_mem c hpart)) hends
    rw [List.cons_append, identifier?, hc, hruns.1, hruns.2, hends]
    rfl

theorem isSome_number? (h : IsNumeral text) (hends : endsWord behind = true) :
    (number? (text ++ behind)).isSome = true := by
  cases h with
  | integer hdigits =>
    obtain ⟨htake, hdrop⟩ := runs_digits hdigits.2 hends
    rw [number?, htake, hdrop, hends]
    cases fraction? behind <;> simp [hdigits.1]
  | @real digits places hdigits hplaces =>
    have hruns : (digits ++ ('.' :: places ++ behind)).takeWhile isDigit = digits ∧
        (digits ++ ('.' :: places ++ behind)).dropWhile isDigit = '.' :: places ++ behind := by
      refine runs_append hdigits.2 fun c hc => ?_
      obtain rfl : '.' = c := Option.some.inj hc
      decide
    rw [List.append_assoc, number?, hruns.1, hruns.2, fraction?_places hplaces hends]
    simp [hdigits.1]

theorem head?_dropWhile_isQuotable {body : List Char} (h : ∀ c ∈ body, c ≠ '\n') (behind : List Char) :
    ((body ++ '"' :: behind).dropWhile isQuotable).head? = some '"' := by
  induction body with
  | nil => rfl
  | cons c body ih =>
    have hrest := ih fun c hc => h c (List.mem_cons_of_mem _ hc)
    cases hc : isQuotable c with
    | true => rwa [List.cons_append, List.dropWhile_cons_of_pos hc]
    | false =>
      have hquote : c = '"' := by simpa [isQuotable, h c List.mem_cons_self] using hc
      rw [List.cons_append, List.dropWhile_cons_of_neg (by simp [hc]), List.head?_cons, hquote]

theorem isSome_literal? (word : String) (behind : List Char) :
    (literal? word (word.toList ++ behind)).isSome = true := by
  have hfront : word.toList.isPrefixOf (word.toList ++ behind) = true :=
    List.isPrefixOf_iff_prefix.mpr (List.prefix_append _ _)
  rw [literal?, if_pos hfront]
  rfl

theorem isSome_word? (word : String) (hends : endsWord behind = true) :
    (word? word (word.toList ++ behind)).isSome = true := by
  rw [word?, ← String.length_toList, List.drop_left, hends, if_pos rfl]
  exact isSome_literal? word behind

theorem isSome_take?_of_matches (h : (rule.pattern d).Matches before text behind) :
    (take? d rule (text ++ behind)).isSome = true := by
  cases rule with
  | start =>
    obtain ⟨hword, hends⟩ := matches_of_word h
    rw [matches_literal.mp hword] at hends ⊢
    exact isSome_word? "INICIO" (hends (by decide))
  | finish =>
    obtain ⟨hword, hends⟩ := matches_of_word h
    rw [matches_literal.mp hword] at hends ⊢
    exact isSome_word? "FIN" (hends (by decide))
  | keyword =>
    obtain ⟨hword, hends⟩ := matches_of_word h
    obtain ⟨word, hmem, rfl⟩ := matches_oneOf.mp hword
    have hlast : (keywords d).all fun word => word.toList.getLast?.any isWord := by cases d <;> decide
    have htaken := isSome_word? word (hends (List.all_eq_true.mp hlast word hmem))
    exact List.findSome?_isSome_iff.mpr ⟨word, hmem, htaken⟩
  | operator =>
    obtain ⟨sign, hmem, rfl⟩ := matches_oneOf.mp h
    exact List.findSome?_isSome_iff.mpr ⟨sign, hmem, isSome_literal? sign behind⟩
  | identifier =>
    obtain ⟨hword, hends⟩ := matches_of_word h
    obtain ⟨_, rest, rfl, ⟨c, rfl, hc⟩, hrest⟩ := hword
    have hname : IsName (c :: rest) := by
      refine ⟨hc, ?_⟩
      simpa [isNamePart_of_isNameStart hc] using matches_many_char.mp hrest
    refine isSome_identifier? hname (hends ?_)
    rw [List.singleton_append, List.getLast?_eq_some_getLast (List.cons_ne_nil c rest)]
    exact isWord_of_isNamePart (hname.2 _ (List.getLast_mem _))
  | number =>
    obtain ⟨hword, hends⟩ := matches_of_word h
    obtain ⟨digits, rest, rfl, hdigits, hrest⟩ := hword
    have hwhole : IsDigits digits := matches_run.mp hdigits
    rcases hrest with ⟨_, places, rfl, hpoint, hplaces⟩ | rfl
    · obtain rfl := matches_literal.mp hpoint
      have hfraction : IsDigits places := matches_run.mp hplaces
      refine isSome_number? (.real hwhole hfraction) (hends ?_)
      rw [← List.append_assoc]
      exact ends_of_isDigits hfraction
    · rw [List.append_nil] at hends ⊢
      have hlast : ([] ++ digits).getLast?.any isWord = true := ends_of_isDigits hwhole
      exact isSome_number? (.integer hwhole) (hends hlast)
  | string =>
    obtain ⟨_, _, rfl, hopening, body, _, rfl, hbody, hclosing⟩ := h
    rw [matches_literal.mp hopening, matches_literal.mp hclosing]
    have hline : ∀ c ∈ body, c ≠ '\n' := by simpa using matches_many_char.mp hbody
    have hquote := head?_dropWhile_isQuotable hline behind
    simp [take?, string?, hquote]
  | symbol =>
    obtain ⟨c, rfl, hc⟩ := h
    have hmem : c ∈ symbols := of_decide_eq_true hc
    exact Option.isSome_of_eq_some (if_pos hmem)
  | comment =>
    obtain ⟨_, body, rfl, hopening, _⟩ := h
    rw [matches_literal.mp hopening]
    rfl
  | blank =>
    obtain ⟨hne, hall⟩ := matches_run.mp h
    obtain ⟨c, cs, rfl⟩ := List.exists_cons_of_ne_nil hne
    have hc : isBlank c = true := hall c List.mem_cons_self
    simp [take?, blank?, hc]
  | newline | leftBrace | rightBrace =>
    rw [matches_literal.mp h]
    exact isSome_literal? _ behind
  | bracket =>
    obtain ⟨c, rfl, hc⟩ := h
    have hmem : c ∈ ['!', '(', ')'] := of_decide_eq_true hc
    exact Option.isSome_of_eq_some (if_pos hmem)

end Rule

/-! ### The text before the place -/

section Before

open Rule

variable {d : Dialect} {rule : Rule} {text later rest : List Char}

theorem head_ne_point {cs : List Char} (h : first? d cs = some (rule, text)) : cs.head? ≠ some '.' := by
  obtain ⟨hne, rest, rfl⟩ := isFront_take? (first?_eq_some_iff.mp h).1
  obtain ⟨c, text, rfl⟩ := List.exists_cons_of_ne_nil hne
  rw [List.cons_append, List.head?_cons]
  rintro ⟨⟩
  have hsilent : rule.isSilent = false := isSilent_of_first? (by decide) h
  obtain ⟨_, _, htext, _, hpoint⟩ := (takes_of_first? h hsilent).head
  exact hpoint (List.cons.inj htext).1.symm

theorem first?_of_append (h : first? d (text ++ (later ++ rest)) = some (rule, text))
    (hpoint : later.head? ≠ some '.') :
    first? d (text ++ later) = some (rule, text) := by
  have hhead {c : Char} (hc : later.head? = some c) : (later ++ rest).head? = some c := by
    rw [List.head?_append, hc, Option.some_or]
  cases hsilent : rule.isSilent with
  | true =>
    obtain ⟨htake, _⟩ := first?_eq_some_iff.mp h
    obtain ⟨c, cs, rfl⟩ := List.exists_cons_of_ne_nil (isFront_take? htake).1
    obtain ⟨hgap, rfl⟩ := gapRule_of_take? htake hsilent
    rw [List.cons_append, first?_gap d hgap] at h
    have hrun : (cs ++ (later ++ rest)).takeWhile (gapPart c) = cs :=
      (List.cons.inj (Prod.mk.inj (Option.some.inj h)).2).2
    have hall : ∀ a ∈ cs, gapPart c a = true := fun a ha =>
      List.all_eq_true.mp List.all_takeWhile a (hrun.symm ▸ ha)
    have hstop : (later ++ rest).takeWhile (gapPart c) = [] := by
      rw [List.takeWhile_append_of_pos hall] at hrun
      exact List.append_right_eq_self.mp hrun
    have hshort : (cs ++ later).takeWhile (gapPart c) = cs := by
      refine (runs_append hall fun a ha => ?_).1
      obtain ⟨later, rfl⟩ := List.head?_eq_some_iff.mp ha
      simpa [List.takeWhile_cons] using hstop
    rw [List.cons_append, first?_gap d hgap, hshort]
  | false =>
    have htakes := takes_of_first? h hsilent
    refine (first?_iff_takes.mpr (htakes.of_rest (fun hlike => ⟨?_, ?_⟩) fun hopen hequals => ?_)).1
    · have hends := htakes.ends hlike
      cases later with
      | nil => rfl
      | cons c later => exact hends
    · cases later with
      | nil => rfl
      | cons c later =>
        have hc : c ≠ '.' := by simpa using hpoint
        simp [fraction?, hc]
    · exact htakes.not_equals hopen (hhead hequals)

theorem Passes.pieces {pieces : List (Rule × List Char)} (h : Passes d rest pieces) : Pieces d pieces := by
  induction h with
  | nil => exact .nil
  | @cons rule text pieces hne hfirst hrest ih =>
    refine .cons hne (first?_of_append hfirst ?_) ih
    cases ih with
    | nil => simp
    | cons _ hnext _ => exact head_ne_point hnext

theorem exists_passes_of_error {code : String} {stuck : Stuck} (h : tokenize d code = .error stuck) :
    ∃ pieces cs, code.toList = pieces.flatMap Prod.snd ++ stuck.char :: cs ∧ Passes d (stuck.char :: cs) pieces ∧
      first? d (stuck.char :: cs) = none ∧ scan d code = ⟨tokensOf 1 pieces, some stuck⟩ ∧
      stuck.line = 1 + (pieces.flatMap Prod.snd).count '!' ∧ stuck.position = (pieces.flatMap Prod.snd).length := by
  obtain ⟨pieces, rest, hcode, hpasses, hend⟩ := exists_passes d code.toList
  have hscan := scan_passes hcode hpasses hend
  rw [tokenize_eq, hscan] at h
  cases rest with
  | nil => cases h
  | cons c cs =>
    have hnone : first? d (c :: cs) = none := hend.resolve_left (List.cons_ne_nil c cs)
    obtain rfl := Except.error.inj h
    exact ⟨pieces, cs, hcode, hpasses, hnone, hscan, rfl, rfl⟩

/-- A failure to lex is reported where it is. The place lies in the text and holds the character
that is named, on the line that the text before it ends on. No rule applies there and no pattern
matches. The text before the place is lexed into the tokens that were found. -/
theorem stuck_localised {code : String} {stuck : Stuck} (h : tokenize d code = .error stuck) :
    stuck.position < code.length ∧ code.toList[stuck.position]? = some stuck.char ∧
      stuck.line = 1 + (code.toList.take stuck.position).count '!' ∧
      first? d (code.toList.drop stuck.position) = none ∧
      (∀ rule ∈ order, ∀ text behind, code.toList.drop stuck.position = text ++ behind →
        ¬ (rule.pattern d).Matches (code.toList.take stuck.position) text behind) ∧
      (scan d code).stuck = some stuck ∧
      tokenize d (String.ofList (code.toList.take stuck.position)) = .ok (scan d code).tokens := by
  obtain ⟨pieces, cs, hcode, hpasses, hnone, hscan, hline, hposition⟩ := exists_passes_of_error h
  have hbefore : code.toList.take stuck.position = pieces.flatMap Prod.snd := by
    rw [hcode, hposition, List.take_left]
  have hbehind : code.toList.drop stuck.position = stuck.char :: cs := by
    rw [hcode, hposition, List.drop_left]
  have hchar : code.toList[stuck.position]? = some stuck.char := by
    rw [← List.head?_drop, hbehind, List.head?_cons]
  refine ⟨?_, hchar, ?_, ?_, fun rule hrule text behind htext hmatches => ?_, ?_, ?_⟩
  · rw [← String.length_toList]
    exact (List.getElem?_eq_some_iff.mp hchar).1
  · rw [hbefore, hline]
  · rw [hbehind, hnone]
  · have htaken := isSome_take?_of_matches hmatches
    have huntaken : take? d rule (stuck.char :: cs) = none :=
      Option.map_eq_none_iff.mp (List.findSome?_eq_none_iff.mp hnone rule hrule)
    rw [← htext, hbehind, huntaken] at htaken
    cases htaken
  · rw [hscan]
  · rw [hbefore, hscan]
    exact tokenize_pieces hpasses.pieces String.toList_ofList

def brokenNumber : String := "INICIO print(\"!\")! x = 12.34abc! FIN"

theorem stuck_localised_at_point :
    tokenize .basic brokenNumber = .error ⟨3, 25, '.'⟩ ∧
      tokenize .basic "INICIO print(\"!\")! x = 12" = .ok (scan .basic brokenNumber).tokens := by
  have h : tokenize .basic brokenNumber = .error ⟨3, 25, '.'⟩ := by decide +kernel
  have hbefore : String.ofList (brokenNumber.toList.take 25) = "INICIO print(\"!\")! x = 12" := by decide +kernel
  rw [← hbefore]
  exact ⟨h, (stuck_localised h).2.2.2.2.2.2⟩

end Before

end Bang.Token
