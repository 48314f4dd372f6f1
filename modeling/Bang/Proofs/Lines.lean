import Bang.Proofs.Comments

/-! Texts on lines of their own. Neither a token nor a failure of the scan reaches over a line break, so a text with a
line break behind it is scanned as if it stood alone, and what comes next as if it stood alone further down. -/

namespace Bang.Token

open Text Rule

variable {d : Dialect} {found : List Token} {line position : Nat} {c : Char} {cs before after run rest : List Char}

/-! ### Where a text is scanned -/

def Stuck.below (lines chars : Nat) (stuck : Stuck) : Stuck := ⟨stuck.line + lines, chars + stuck.position, stuck.char⟩

theorem map_renumber_tokensOf (line shift : Nat) (pieces : List (Rule × List Char)) :
    (tokensOf line pieces).map (.renumber (· + shift)) = tokensOf (line + shift) pieces := by
  have hback : (tokensOf (line + shift) pieces).map (.renumber (· - shift)) = tokensOf line pieces :=
    tokensOf_renumber (fun _ _ => rfl) pieces
  rw [← hback, List.map_map]
  refine (List.map_congr_left fun t _ => ?_).trans (List.map_id' _)
  show Token.mk t.kind t.text (t.line - shift + shift) = t
  rw [Int.sub_add_cancel]

theorem scanFrom_below (found : List Token) (lines chars : Nat) (cs : List Char) :
    scanFrom d found (1 + lines) chars 0 cs =
      ⟨found.reverse ++ (scanFrom d [] 1 0 0 cs).tokens.map (.renumber (· + lines)),
        (scanFrom d [] 1 0 0 cs).stuck.map (Stuck.below lines chars)⟩ := by
  obtain ⟨pieces, rest, rfl, hpasses, hend⟩ := exists_passes d cs
  have hstop (found : List Token) (line position : Nat) :
      scanFrom d found line position 0 rest = ⟨found.reverse, rest.head?.map fun c => ⟨line, position, c⟩⟩ := by
    cases rest with
    | nil => simp only [scanFrom, List.head?_nil, Option.map_none]
    | cons c cs =>
      have hnone : first? d (c :: cs) = none := hend.resolve_left (List.cons_ne_nil c cs)
      simp only [scanFrom, hnone, List.head?_cons, Option.map_some]
  have hlines : 1 + lines + (pieces.flatMap Prod.snd).count '!' = 1 + (pieces.flatMap Prod.snd).count '!' + lines :=
    Nat.add_right_comm _ _ _
  have hchars : 0 + (pieces.flatMap Prod.snd).length = (pieces.flatMap Prod.snd).length := Nat.zero_add _
  rw [scanFrom_passes hpasses, scanFrom_passes hpasses, hstop, hstop, hlines, hchars, ← map_renumber_tokensOf]
  simp only [List.reverse_append, List.reverse_reverse, List.append_nil, Option.map_map]
  rfl

/-! ### Over a line break -/

theorem scanFrom_blanks (hrun : ∀ c ∈ run, isBlank c = true) (hrest : ∀ c, rest.head? = some c → isBlank c = false) :
    scanFrom d found line position 0 (run ++ rest) = scanFrom d found line (position + run.length) 0 rest := by
  cases run with
  | nil => rfl
  | cons c cs =>
    have hblank : isBlank c = true := hrun c List.mem_cons_self
    have hhash : c ≠ '#' := by
      rintro rfl
      exact absurd hblank (by decide)
    have hcount : (c :: cs).count '!' = 0 := by
      refine List.count_eq_zero.mpr fun hmem => ?_
      exact absurd (hrun '!' hmem) (by decide)
    have hruns : (cs ++ rest).takeWhile isBlank = cs :=
      (runs_append (fun a ha => hrun a (List.mem_cons_of_mem c ha)) hrest).1
    have hfirst : first? d (c :: cs ++ rest) = some (blank, c :: cs) := by
      have hgap : startsGap c = true := by rw [startsGap, hblank, Bool.or_true]
      have hpart : gapPart c = isBlank := if_neg hhash
      rw [List.cons_append, first?_gap d hgap, hpart, hruns, gapRule, if_neg hhash]
    rw [scanFrom_append (List.cons_ne_nil c cs) hfirst, hcount]
    rfl

theorem scanFrom_blank (hc : isBlank c = true) :
    scanFrom d found line position 0 (c :: cs) = scanFrom d found line (position + 1) 0 cs := by
  have hall : ∀ a ∈ cs.takeWhile isBlank, isBlank a = true := List.all_eq_true.mp List.all_takeWhile
  have hrest : ∀ a, (cs.dropWhile isBlank).head? = some a → isBlank a = false := by
    intro a ha
    have hstop := List.head?_dropWhile_not isBlank cs
    rw [ha] at hstop
    simpa using hstop
  have hcut : cs = cs.takeWhile isBlank ++ cs.dropWhile isBlank := List.takeWhile_append_dropWhile.symm
  have hlong : ∀ a ∈ c :: cs.takeWhile isBlank, isBlank a = true := List.forall_mem_cons.mpr ⟨hc, hall⟩
  rw [hcut, ← List.cons_append, scanFrom_blanks hlong hrest, scanFrom_blanks hall hrest, List.length_cons]
  congr 1
  omega

theorem first?_line (hc : isBlank c = false) (cs after : List Char) :
    first? d (c :: cs ++ '\n' :: after) = first? d (c :: cs) := by
  have hends : ∀ a, ('\n' :: after).head? = some a → a = '\n' := fun a ha => (Option.some.inj ha).symm
  have hbreak : IsBreak ('\n' :: after) := fun a ha => .inl (hends a ha)
  cases hgap : startsGap c with
  | true =>
    obtain rfl : c = '#' := by simpa [startsGap, hc] using hgap
    rw [List.cons_append, first?_gap d rfl, first?_gap d rfl, takeWhile_append_of_stop fun _ => rfl]
  | false =>
    cases hwhole : first? d (c :: cs ++ '\n' :: after) with
    | none => rw [hbreak.endsTokens.stuck hgap hwhole]
    | some taken =>
      obtain ⟨rest, hcs, hfront⟩ := hbreak.token_inside hgap (not_stringAcross hends) hwhole
      rw [hcs, hfront]

theorem scanFrom_line (found : List Token) (line position : Nat) (before after : List Char) :
    scanFrom d found line position 0 (before ++ '\n' :: after) =
      if (scanFrom d found line position 0 before).stuck.isSome then scanFrom d found line position 0 before
      else scanFrom d (scanFrom d found line position 0 before).tokens.reverse (line + before.count '!')
        (position + before.length + 1) 0 after := by
  induction hlength : before.length using Nat.strong_induction_on generalizing before found line position with
  | _ n ih =>
    cases before with
    | nil =>
      have hbreak : isBlank '\n' = true := by decide
      have hend : scanFrom d found line position 0 [] = ⟨found.reverse, none⟩ := by simp only [scanFrom]
      rw [List.nil_append, scanFrom_blank hbreak, hend, List.reverse_reverse, ← hlength]
      rfl
    | cons c cs =>
      cases hc : isBlank c with
      | true =>
        have hcount : (c :: cs).count '!' = cs.count '!' := by
          refine List.count_cons_of_ne ?_
          rintro rfl
          exact absurd hc (by decide)
        have hshorter : cs.length < n := by
          rw [← hlength]
          exact Nat.lt_succ_self _
        have hplace : position + 1 + cs.length + 1 = position + n + 1 := by
          rw [← hlength, List.length_cons]
          omega
        rw [List.cons_append, scanFrom_blank hc, scanFrom_blank hc, hcount, ih _ hshorter _ _ _ cs rfl, hplace]
      | false =>
        cases hfirst : first? d (c :: cs) with
        | none =>
          have hwhole : first? d (c :: (cs ++ '\n' :: after)) = none := (first?_line hc cs after).trans hfirst
          simp only [List.cons_append, scanFrom, hfirst, hwhole, Option.isSome_some, if_true]
        | some taken =>
          obtain ⟨rule, text⟩ := taken
          have hwhole := (first?_line hc cs after).trans hfirst
          obtain ⟨hne, rest, hcs⟩ := isFront_take? (first?_eq_some_iff.mp hfirst).1
          rw [← hcs] at hfirst hwhole hlength ⊢
          rw [List.append_assoc] at hwhole ⊢
          have hshorter : rest.length < n := by
            have hpos := List.length_pos_iff.mpr hne
            rw [List.length_append] at hlength
            omega
          have hlines : line + text.count '!' + rest.count '!' = line + (text ++ rest).count '!' := by
            rw [List.count_append, Nat.add_assoc]
          have hplace : position + text.length + rest.length + 1 = position + n + 1 := by
            rw [← hlength, List.length_append]
            omega
          rw [scanFrom_append hne hwhole, scanFrom_append hne hfirst, ih _ hshorter _ _ _ rest rfl, hlines, hplace]

/-! ### Two texts on lines of their own -/

theorem tokenize_eq (d : Dialect) (code : String) :
    tokenize d code = (scan d code).stuck.elim (.ok (scan d code).tokens) .error := by
  unfold tokenize
  rcases scan d code with ⟨tokens, stuck⟩
  cases stuck <;> rfl

theorem scan_line (d : Dialect) (first second : String) :
    scan d (first ++ "\n" ++ second) =
      if (scan d first).stuck.isSome then scan d first
      else ⟨(scan d first).tokens ++ (scan d second).tokens.map (.renumber (· + first.toList.count '!')),
        (scan d second).stuck.map (Stuck.below (first.toList.count '!') (first.length + 1))⟩ := by
  have hcode : (first ++ "\n" ++ second).toList = first.toList ++ '\n' :: second.toList := by
    simp [String.toList_append]
  have hchars : 0 + first.toList.length + 1 = first.length + 1 := by rw [Nat.zero_add, String.length_toList]
  unfold scan
  rw [hcode, scanFrom_line, scanFrom_below, List.reverse_reverse, hchars]

theorem minified_renumber (φ : Int → Int) (front back : List Token) :
    minified (front ++ back.map (.renumber φ)) = minified front ++ minified back := by
  have htexts : (back.map (.renumber φ)).map text = back.map text := by
    rw [List.map_map]
    rfl
  unfold minified
  rw [List.map_append, htexts]
  apply String.toList_inj.mp
  rw [String.toList_append, String.toList_join, String.toList_join, String.toList_join, List.flatMap_append]

/-- Two texts with a line break between them are lexed one after the other. A text that cannot be
lexed fails as it does alone, whatever comes behind it. Otherwise the tokens of the second text, or
the place where it fails, come further down by the lines and characters of the first. -/
theorem tokenize_lines (d : Dialect) (first second : String) :
    tokenize d (first ++ "\n" ++ second) = (do
        let front ← tokenize d first
        let back ← (tokenize d second).mapError (Stuck.below (first.toList.count '!') (first.length + 1))
        return front ++ back.map (.renumber (· + first.toList.count '!'))) ∧
      ∀ front back, minified (front ++ back.map (.renumber (· + first.toList.count '!'))) =
        minified front ++ minified back := by
  refine ⟨?_, minified_renumber _⟩
  rw [tokenize_eq d first, tokenize_eq d second, tokenize_eq d (first ++ "\n" ++ second), scan_line]
  rcases scan d first with ⟨front, stuck⟩
  cases stuck with
  | some stuck => rfl
  | none =>
    rcases scan d second with ⟨back, stuck⟩
    cases stuck <;> rfl

end Bang.Token
