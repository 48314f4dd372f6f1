import Bang.Proofs.Lines
import Bang.Proofs.Session

/-! White space at the ends of a program, which a service takes away before it runs the program. No token begins or
ends with white space, and none goes on with it; at most a comment does, and that leaves no token. So the tokens are
those of the whole text, and a failure is found in the same place. -/

namespace Bang

namespace Text

variable {c : Char}

theorem isBlank_of_isWord (h : isWord c = true) : isBlank c = false := by
  by_cases hascii : c.toNat < 0x80
  · rw [isWord, if_pos hascii] at h
    rcases (Bool.or_eq_true _ _).mp h with halphanum | hunderscore
    · rcases (Bool.or_eq_true _ _).mp halphanum with hletter | hdigit
      · exact Token.Rule.isBlank_of_isNameStart ((Bool.or_eq_true _ _).mpr (.inl hletter))
      · exact isBlank_of_isDigit ((isDigit_of_lt (by omega)).trans hdigit)
    · exact Token.Rule.isBlank_of_isNameStart ((Bool.or_eq_true _ _).mpr (.inr hunderscore))
  · have hintervals : ∀ word ∈ wordIntervals, ∀ blank ∈ blankIntervals, blank.2 < word.1 ∨ word.2 < blank.1 := by
      have hall : wordIntervals.all fun word => blankIntervals.all fun blank =>
          blank.2 < word.1 || word.2 < blank.1 := by decide +kernel
      simpa using hall
    rw [isWord, if_neg hascii, within, List.any_eq_true] at h
    obtain ⟨word, hword, hbounds⟩ := h
    rw [isBlank, within, List.any_eq_false]
    intro blank hblank
    have hapart := hintervals word hword blank hblank
    simp only [Bool.and_eq_true, decide_eq_true_eq] at hbounds ⊢
    omega

theorem exists_trail (cs : List Char) :
    ∃ trail, (∀ c ∈ trail, isBlank c = true) ∧ cs.dropWhile isBlank = trim cs ++ trail := by
  refine ⟨((cs.dropWhile isBlank).reverse.takeWhile isBlank).reverse, fun c hc => ?_, ?_⟩
  · exact List.all_eq_true.mp List.all_takeWhile c (List.mem_reverse.mp hc)
  · rw [trim, ← List.reverse_append, List.takeWhile_append_dropWhile, List.reverse_reverse]

theorem isBlank_of_head_dropWhile {cs : List Char} (h : (cs.dropWhile isBlank).head? = some c) : isBlank c = false := by
  have hstop := List.head?_dropWhile_not isBlank cs
  rw [h] at hstop
  simpa using hstop

theorem isBlank_of_end_trim {cs : List Char} (h : (trim cs).head? = some c ∨ (trim cs).getLast? = some c) :
    isBlank c = false := by
  rcases h with hhead | hlast
  · obtain ⟨trail, _, hrest⟩ := exists_trail cs
    have hwhole : (cs.dropWhile isBlank).head? = some c := by rw [hrest, List.head?_append, hhead, Option.some_or]
    exact isBlank_of_head_dropWhile hwhole
  · rw [trim, List.getLast?_reverse] at hlast
    exact isBlank_of_head_dropWhile hlast

end Text

namespace Token

open Text Rule

variable {d : Dialect} {rule : Rule} {c : Char} {text rest cs trail : List Char}

theorem Rule.Takes.last (h : Takes d rule text rest) : ∃ front c, text = front ++ [c] ∧ isBlank c = false := by
  have hlast {word : List Char} (hne : word ≠ []) (hall : ∀ c ∈ word, isBlank c = false) :
      ∃ front c, word = front ++ [c] ∧ isBlank c = false :=
    ⟨word.dropLast, word.getLast hne, (List.dropLast_append_getLast hne).symm, hall _ (List.getLast_mem hne)⟩
  cases h with
  | name hname _ =>
    refine hlast ?_ fun c hc => isBlank_of_isWord (isWord_of_isNamePart (hname.2 c hc))
    rintro rfl
    cases hname.1
  | @operator sign _ hsign _ =>
    have hall : operators.all fun sign => sign.toList != [] && sign.toList.all (!isBlank ·) := by decide
    have hsign := List.all_eq_true.mp hall sign hsign
    rw [Bool.and_eq_true, bne_iff_ne, List.all_eq_true] at hsign
    exact hlast hsign.1 fun c hc => by simpa using hsign.2 c hc
  | integer hdigits _ _ => exact hlast hdigits.1 fun c hc => isBlank_of_isDigit (hdigits.2 c hc)
  | @real digits places _ _ hplaces _ =>
    obtain ⟨front, c, rfl, hc⟩ := hlast hplaces.1 fun c hc => isBlank_of_isDigit (hplaces.2 c hc)
    exact ⟨digits ++ '.' :: front, c, by simp, hc⟩
  | @string body _ _ => exact ⟨'"' :: body, '"', rfl, by decide⟩
  | @symbol sign _ hsign =>
    have hall : symbols.all (!isBlank ·) := by decide
    exact ⟨[], sign, rfl, by simpa using List.all_eq_true.mp hall sign hsign⟩

theorem scanFrom_blanks_end (htrail : ∀ c ∈ trail, isBlank c = true) (found : List Token) (line position : Nat) :
    scanFrom d found line position 0 trail = ⟨found.reverse, none⟩ := by
  have hnone : ∀ c, ([] : List Char).head? = some c → isBlank c = false := fun c hc => by cases hc
  rw [← List.append_nil trail, scanFrom_blanks htrail hnone]
  simp only [scanFrom]

section Trail

variable (htrail : ∀ c ∈ trail, isBlank c = true)
include htrail

theorem endsTokens_of_blanks : EndsTokens trail := by
  intro c hc
  have hblank : isBlank c = true := htrail c (List.mem_of_mem_head? hc)
  refine ⟨?_, ?_, ?_⟩
  · rw [Bool.eq_false_iff]
    intro hword
    rw [isBlank_of_isWord hword] at hblank
    cases hblank
  · rintro rfl
    exact absurd hblank (by decide)
  · rintro rfl
    exact absurd hblank (by decide)

theorem first?_trail (hgap : startsGap c = false) : first? d (c :: cs ++ trail) = first? d (c :: cs) := by
  have hends := endsTokens_of_blanks htrail
  cases hwhole : first? d (c :: cs ++ trail) with
  | none => rw [hends.stuck hgap hwhole]
  | some taken =>
    obtain ⟨rule, text⟩ := taken
    have hsilent := isSilent_of_first? hgap hwhole
    obtain ⟨_, behind, hcs⟩ := isFront_take? (first?_eq_some_iff.mp hwhole).1
    have hinside {rest : List Char} (hbefore : c :: cs = text ++ rest) : some (rule, text) = first? d (c :: cs) := by
      rw [hbefore, hends.inside hgap hwhole hbefore]
    rcases List.append_eq_append_iff.mp hcs with ⟨rest, hbefore, _⟩ | ⟨beyond, htext, hbeyond⟩
    · exact hinside hbefore
    · cases hlast : beyond.getLast? with
      | none =>
        rw [List.getLast?_eq_none_iff.mp hlast, List.append_nil] at htext
        exact hinside (by rw [htext, List.append_nil])
      | some last =>
        rw [← hcs] at hwhole
        obtain ⟨front, c, hfront, hc⟩ := (takes_of_first? hwhole hsilent).last
        have hsame : last = c := by
          have htextLast : text.getLast? = some c := by rw [hfront, List.getLast?_concat]
          rw [htext, List.getLast?_append, hlast, Option.some_or] at htextLast
          exact Option.some.inj htextLast
        have hblank : isBlank last = true := htrail last (by simp [hbeyond, List.mem_of_getLast? hlast])
        rw [hsame, hc] at hblank
        cases hblank

theorem scanFrom_gap_trail (hgap : startsGap c = true) (hcs : ∀ a ∈ cs, gapPart c a = true) (found : List Token)
    (line position : Nat) : scanFrom d found line position 0 (c :: cs ++ trail) = ⟨found.reverse, none⟩ := by
  have hsilent : (gapRule c).isSilent = true := by unfold gapRule; split <;> rfl
  have hfirst : first? d (c :: (cs ++ trail.takeWhile (gapPart c)) ++ trail.dropWhile (gapPart c)) =
      some (gapRule c, c :: (cs ++ trail.takeWhile (gapPart c))) := by
    rw [List.cons_append, List.append_assoc, List.takeWhile_append_dropWhile, first?_gap d hgap,
      List.takeWhile_append_of_pos hcs]
  have hcut : c :: cs ++ trail = c :: (cs ++ trail.takeWhile (gapPart c)) ++ trail.dropWhile (gapPart c) := by
    rw [List.cons_append, List.cons_append, List.append_assoc, List.takeWhile_append_dropWhile]
  have hblank : ∀ a ∈ trail.dropWhile (gapPart c), isBlank a = true := fun a ha =>
    htrail a (List.dropWhile_subset _ ha)
  rw [hcut, scanFrom_append (List.cons_ne_nil _ _) hfirst, hsilent, if_pos rfl, scanFrom_blanks_end hblank]

theorem scanFrom_trail (found : List Token) (line position : Nat) (cs : List Char) :
    scanFrom d found line position 0 (cs ++ trail) = scanFrom d found line position 0 cs := by
  induction hlength : cs.length using Nat.strong_induction_on generalizing cs found line position with
  | _ n ih =>
    -- Behind a piece that both scans take they go on alike.
    have hpiece {rule : Rule} {text rest : List Char} (hcs : cs = text ++ rest)
        (hwhole : first? d (text ++ (rest ++ trail)) = some (rule, text))
        (hfront : first? d (text ++ rest) = some (rule, text)) :
        scanFrom d found line position 0 (cs ++ trail) = scanFrom d found line position 0 cs := by
      have hne : text ≠ [] := (isFront_take? (first?_eq_some_iff.mp hfront).1).1
      have hshorter : rest.length < n := by
        have hpos := List.length_pos_iff.mpr hne
        rw [hcs, List.length_append] at hlength
        omega
      rw [hcs, List.append_assoc, scanFrom_append hne hwhole, scanFrom_append hne hfront, ih _ hshorter _ _ _ rest rfl]
    cases cs with
    | nil =>
      rw [List.nil_append, scanFrom_blanks_end htrail]
      simp only [scanFrom]
    | cons c cs =>
      cases hgap : startsGap c with
      | false =>
        cases hfirst : first? d (c :: cs) with
        | none =>
          have hwhole : first? d (c :: (cs ++ trail)) = none := (first?_trail htrail hgap).trans hfirst
          simp only [List.cons_append, scanFrom, hfirst, hwhole]
        | some taken =>
          obtain ⟨rule, text⟩ := taken
          have hwhole := (first?_trail htrail hgap).trans hfirst
          obtain ⟨_, rest, hcs⟩ := isFront_take? (first?_eq_some_iff.mp hfirst).1
          rw [← hcs] at hfirst hwhole
          rw [List.append_assoc] at hwhole
          exact hpiece hcs.symm hwhole hfirst
      | true =>
        have hcut : c :: cs = c :: cs.takeWhile (gapPart c) ++ cs.dropWhile (gapPart c) := by
          rw [List.cons_append, List.takeWhile_append_dropWhile]
        by_cases hend : cs.dropWhile (gapPart c) = []
        · have hall : ∀ a ∈ cs, gapPart c a = true := by simpa using hend
          have halone : scanFrom d found line position 0 (c :: cs ++ []) = ⟨found.reverse, none⟩ :=
            scanFrom_gap_trail (by simp) hgap hall found line position
          rw [List.append_nil] at halone
          rw [scanFrom_gap_trail htrail hgap hall, halone]
        · refine hpiece hcut (first?_gap_append hgap fun hnil => absurd hnil hend) ?_
          rw [← hcut, first?_gap d hgap]

end Trail

/-! ### The whole text -/

theorem renumber_zero (tokens : List Token) : tokens.map (.renumber (· + (0 : Nat))) = tokens := by
  refine (List.map_congr_left fun t _ => ?_).trans (List.map_id' tokens)
  show Token.mk t.kind t.text (t.line + 0) = t
  rw [Int.add_zero]

theorem scan_trim (d : Dialect) (code : String) :
    scan d code = ⟨(scan d (String.ofList (trim code.toList))).tokens,
      (scan d (String.ofList (trim code.toList))).stuck.map
        (Stuck.below 0 (code.toList.takeWhile isBlank).length)⟩ := by
  obtain ⟨trail, htrail, hrest⟩ := exists_trail code.toList
  have hlead : ∀ c ∈ code.toList.takeWhile isBlank, isBlank c = true := List.all_eq_true.mp List.all_takeWhile
  have hhead : ∀ c, (code.toList.dropWhile isBlank).head? = some c → isBlank c = false :=
    fun _ => isBlank_of_head_dropWhile
  calc scan d code
      = scanFrom d [] 1 0 0 (code.toList.takeWhile isBlank ++ code.toList.dropWhile isBlank) := by
        rw [List.takeWhile_append_dropWhile, scan]
    _ = scanFrom d [] 1 (code.toList.takeWhile isBlank).length 0 (trim code.toList) := by
        rw [scanFrom_blanks hlead hhead, hrest, scanFrom_trail htrail, Nat.zero_add]
    _ = _ := by
        rw [scan, String.toList_ofList]
        exact (scanFrom_below [] 0 _ _).trans (by rw [renumber_zero]; rfl)

theorem tokenize_trim (d : Dialect) (code : String) :
    tokenize d code = (tokenize d (String.ofList (trim code.toList))).mapError
      (Stuck.below 0 (code.toList.takeWhile isBlank).length) := by
  rw [tokenize_eq, tokenize_eq, scan_trim]
  cases (scan d (String.ofList (trim code.toList))).stuck <;> rfl

end Token

namespace Service

open Text Token

theorem code_ofCode (code : String) : (Request.ofCode code).code = .ok (String.ofList (trim code.toList)) := by
  have hmethod : String.ofList ("POST".toList.map Char.toUpper) = "POST" := by decide
  have hbody : (Request.ofCode code).body = .ok (.obj [("code", .str code)]) := by
    simp only [Request.body, Request.ofCode, hmethod]
  rw [Request.code, hbody]
  rfl

/-- A service runs what it is sent without the white space at the two ends, and to the lexer that is
the same. It finds the tokens of the whole text or fails as it does on the whole text: on the same
line, at the same character, and further on in the whole text by what was taken away from the front. -/
theorem lexes_as_sent (d : Dialect) (code : String) :
    ∃ trimmed lead trail, (Request.ofCode code).code = .ok trimmed ∧
      code.toList = lead ++ (trimmed.toList ++ trail) ∧ (∀ c ∈ lead ++ trail, isBlank c = true) ∧
      (∀ c, trimmed.toList.head? = some c ∨ trimmed.toList.getLast? = some c → isBlank c = false) ∧
      tokenize d code = (tokenize d trimmed).mapError fun stuck =>
        { stuck with position := lead.length + stuck.position } := by
  obtain ⟨trail, htrail, hrest⟩ := exists_trail code.toList
  refine ⟨String.ofList (trim code.toList), code.toList.takeWhile isBlank, trail, code_ofCode code, ?_, ?_, ?_,
    tokenize_trim d code⟩
  · rw [String.toList_ofList, ← hrest, List.takeWhile_append_dropWhile]
  · intro c hc
    rcases List.mem_append.mp hc with hlead | hc
    · exact List.all_eq_true.mp List.all_takeWhile c hlead
    · exact htrail c hc
  · rw [String.toList_ofList]
    exact fun c => isBlank_of_end_trim

end Service

end Bang
