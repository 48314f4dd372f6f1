import Bang.Proofs.Token.Lossless

/-! Texts one behind the other. A line break or a comment that comes next, or the end, keeps apart what stands before
it from what comes behind: the tokens of the whole are those of the two parts, except that the second part begins on
a later line. -/

namespace Bang.Token

open Text

section Lexes

variable {d : Dialect} {line : Nat} {cs text rest : List Char} {tokens : List Token} {rule : Rule}

def Lexes (d : Dialect) (line : Nat) (cs : List Char) (tokens : List Token) : Prop :=
  ∃ pieces, Pieces d pieces ∧ cs = pieces.flatMap Prod.snd ∧ tokens = tokensOf line pieces

theorem lexes_nil : Lexes d line [] tokens ↔ tokens = [] := by
  constructor
  · rintro ⟨pieces, hpieces, hcs, rfl⟩
    cases hpieces with
    | nil => rfl
    | cons hne _ _ => exact absurd (List.append_eq_nil_iff.mp hcs.symm).1 hne
  · rintro rfl
    exact ⟨[], .nil, rfl, rfl⟩

theorem lexes_append (h : Rule.first? d (text ++ rest) = some (rule, text)) :
    Lexes d line (text ++ rest) tokens ↔ ∃ later, Lexes d (line + text.count '!') rest later ∧
      tokens = (if rule.isSilent then [] else [⟨rule.kind, String.ofList text, line⟩]) ++ later := by
  have hne : text ≠ [] := (Rule.isFront_take? (Rule.first?_eq_some_iff.mp h).1).1
  constructor
  · rintro ⟨pieces, hpieces, hcs, rfl⟩
    cases hpieces with
    | nil => exact absurd (List.append_eq_nil_iff.mp hcs).1 hne
    | @cons rule' text' pieces _ hfirst hrest =>
      rw [List.flatMap_cons] at hcs
      rw [← hcs, h] at hfirst
      obtain ⟨rfl, rfl⟩ := Prod.mk.inj (Option.some.inj hfirst)
      exact ⟨_, ⟨pieces, hrest, List.append_cancel_left hcs, rfl⟩, rfl⟩
  · rintro ⟨_, ⟨pieces, hpieces, rfl, rfl⟩, rfl⟩
    exact ⟨(rule, text) :: pieces, .cons hne h hpieces, rfl, rfl⟩

theorem not_lexes (hne : cs ≠ []) (h : Rule.first? d cs = none) : ¬ Lexes d line cs tokens := by
  rintro ⟨pieces, hpieces, rfl, _⟩
  cases hpieces with
  | nil => exact hne rfl
  | cons _ hfirst _ =>
    rw [List.flatMap_cons, hfirst] at h
    cases h

theorem line_of_mem_tokensOf {pieces : List (Rule × List Char)} {t : Token} (h : t ∈ tokensOf line pieces) :
    (line : Int) ≤ t.line ∧ t.line ≤ line + (pieces.flatMap Prod.snd).count '!' := by
  induction pieces generalizing line with
  | nil => cases h
  | cons piece pieces ih =>
    obtain ⟨rule, text⟩ := piece
    rw [List.flatMap_cons, List.count_append]
    rw [tokensOf] at h
    rcases List.mem_append.mp h with hfirst | hrest
    · have hline : t.line = line := by
        cases hsilent : rule.isSilent with
        | true => simp [hsilent] at hfirst
        | false =>
          obtain rfl : t = ⟨rule.kind, String.ofList text, line⟩ := by simpa [hsilent] using hfirst
          rfl
      omega
    · have hlines := ih hrest
      push_cast at hlines ⊢
      omega

theorem Lexes.line_le (h : Lexes d line cs tokens) {t : Token} (ht : t ∈ tokens) :
    (line : Int) ≤ t.line ∧ t.line ≤ line + cs.count '!' := by
  obtain ⟨pieces, _, rfl, rfl⟩ := h
  exact line_of_mem_tokensOf ht

end Lexes

namespace Rule

/-! ### White space and comments -/

def startsGap (c : Char) : Bool := c == '#' || isBlank c

def gapPart (first : Char) : Char → Bool := if first = '#' then (· != '\n') else isBlank

def gapRule (first : Char) : Rule := if first = '#' then comment else blank

section Gaps

variable {d : Dialect} {c : Char} {cs text rest : List Char} {rule : Rule}

theorem isBlank_of_isNameStart (h : isNameStart c = true) : isBlank c = false := by
  have hbounds : 0x41 ≤ c.toNat ∧ c.toNat < 0x80 := by
    refine ⟨?_, toNat_lt_of_isNamePart (isNamePart_of_isNameStart h)⟩
    rcases (Bool.or_eq_true _ _).mp h with hletter | hunderscore
    · rcases (Bool.or_eq_true _ _).mp hletter with hupper | hlower
      · exact UInt32.le_iff_toNat_le.mp (of_decide_eq_true hupper).1
      · have hle : 0x61 ≤ c.toNat := UInt32.le_iff_toNat_le.mp (of_decide_eq_true ((Bool.and_eq_true _ _).mp hlower).1)
        omega
    · rw [eq_of_beq hunderscore]
      decide
  have hintervals : ∀ interval ∈ blankIntervals, interval.2 < 0x41 ∨ 0x80 ≤ interval.1 := by
    have hall : blankIntervals.all fun interval => interval.2 < 0x41 || 0x80 ≤ interval.1 := by decide
    simpa using hall
  rw [isBlank, within, List.any_eq_false]
  intro interval hinterval
  have hapart := hintervals interval hinterval
  simp only [Bool.and_eq_true, decide_eq_true_eq]
  omega

theorem Takes.not_startsGap (h : Takes d rule (c :: text) rest) : startsGap c = false := by
  have hchar (hhash : c ≠ '#') (hblank : isBlank c = false) : startsGap c = false := by
    rw [startsGap, hblank, Bool.or_false]
    exact beq_false_of_ne hhash
  generalize hcs : c :: text = cs at h
  cases h with
  | name hname _ =>
    subst hcs
    have hstart : isNameStart c = true := hname.1
    refine hchar ?_ (isBlank_of_isNameStart hstart)
    rintro rfl
    exact absurd hstart (by decide)
  | @operator sign _ hmem _ =>
    have hall : operators.all fun sign => sign.toList.head?.all (!startsGap ·) := by decide
    have hsign := List.all_eq_true.mp hall sign hmem
    rw [← hcs] at hsign
    simpa using hsign
  | integer hdigits _ _ =>
    subst hcs
    have hdigit := hdigits.2 c List.mem_cons_self
    exact hchar (ne_of_isDigit hdigit '#' (by decide)) (isBlank_of_isDigit hdigit)
  | @real digits places _ hdigits _ _ =>
    have hdigit : isDigit c = true := by
      cases digits with
      | nil => exact absurd rfl hdigits.1
      | cons first digits =>
        obtain rfl : c = first := (List.cons.inj hcs).1
        exact hdigits.2 c List.mem_cons_self
    exact hchar (ne_of_isDigit hdigit '#' (by decide)) (isBlank_of_isDigit hdigit)
  | string _ =>
    obtain rfl : c = '"' := (List.cons.inj hcs).1
    decide
  | @symbol sign _ hmem =>
    obtain rfl : c = sign := (List.cons.inj hcs).1
    have hall : symbols.all (!startsGap ·) := by decide
    simpa using List.all_eq_true.mp hall c hmem

theorem gapRule_of_take? (h : take? d rule (c :: cs) = some text) (hsilent : rule.isSilent = true) :
    startsGap c = true ∧ rule = gapRule c := by
  have hcases : rule = comment ∨ rule = blank := by simpa [isSilent] using hsilent
  rcases hcases with rfl | rfl
  · change comment? (c :: cs) = some text at h
    unfold comment? at h
    split at h
    · rename_i heq
      obtain rfl := (List.cons.inj heq).1
      exact ⟨rfl, rfl⟩
    · cases h
  · have hblank : isBlank c = true := by
      change blank? (c :: cs) = some text at h
      simp only [blank?, Option.ite_none_left_eq_some] at h
      by_contra hc
      exact h.1 (by rw [List.takeWhile_cons_of_neg hc]; rfl)
    have hhash : c ≠ '#' := by
      rintro rfl
      exact absurd hblank (by decide)
    exact ⟨by rw [startsGap, hblank, Bool.or_true], by rw [gapRule, if_neg hhash]⟩

theorem take?_gap (h : startsGap c = true) (cs : List Char) :
    take? d (gapRule c) (c :: cs) = some (c :: cs.takeWhile (gapPart c)) := by
  unfold gapRule gapPart
  by_cases hhash : c = '#'
  · subst hhash
    rfl
  · have hblank : isBlank c = true := by simpa [startsGap, hhash] using h
    simp [hhash, take?, blank?, hblank]

theorem first?_gap (d : Dialect) (h : startsGap c = true) (cs : List Char) :
    first? d (c :: cs) = some (gapRule c, c :: cs.takeWhile (gapPart c)) := by
  cases hfirst : first? d (c :: cs) with
  | none =>
    have hnone := List.findSome?_eq_none_iff.mp hfirst (gapRule c) (by unfold gapRule; split <;> decide)
    rw [take?_gap h cs] at hnone
    cases hnone
  | some taken =>
    obtain ⟨rule, text⟩ := taken
    obtain ⟨htake, _⟩ := first?_eq_some_iff.mp hfirst
    obtain ⟨hne, rest, hrest⟩ := isFront_take? htake
    obtain ⟨first, text, rfl⟩ := List.exists_cons_of_ne_nil hne
    obtain ⟨rfl, rfl⟩ : first = c ∧ text ++ rest = cs := List.cons.inj hrest
    have hsilent : rule.isSilent = true := by
      rw [← Bool.not_eq_false]
      intro hloud
      have htakes : Takes d rule (first :: text) rest := takes_of_first? hfirst hloud
      rw [htakes.not_startsGap] at h
      cases h
    obtain ⟨_, rfl⟩ := gapRule_of_take? htake hsilent
    rw [take?_gap h] at htake
    rw [Option.some.inj htake]

end Gaps

end Rule

/-! ### Breaks -/

/-- A text that begins with a line break or a comment, if with anything. -/
def IsBreak (cs : List Char) : Prop := ∀ c, cs.head? = some c → c = '\n' ∨ c = '#'

section Breaks

open Rule

variable {d : Dialect} {rule : Rule} {text rest tail : List Char}

def EndsTokens (cs : List Char) : Prop := ∀ c, cs.head? = some c → isWord c = false ∧ c ≠ '.' ∧ c ≠ '='

theorem IsBreak.endsTokens (h : IsBreak tail) : EndsTokens tail := by
  intro c hc
  rcases h c hc with rfl | rfl <;> decide

theorem EndsTokens.endsWord_append (h : EndsTokens tail) (rest : List Char) :
    endsWord (rest ++ tail) = endsWord rest := by
  cases rest with
  | cons c cs => rfl
  | nil =>
    cases tail with
    | nil => rfl
    | cons c cs => simp [endsWord, (h c rfl).1]

theorem EndsTokens.digits_append (h : EndsTokens tail) (rest : List Char) :
    (rest ++ tail).takeWhile isDigit = rest.takeWhile isDigit ∧
      (rest ++ tail).dropWhile isDigit = rest.dropWhile isDigit ++ tail := by
  have hstop : ∀ c, tail.head? = some c → isDigit c = false := by
    intro c hc
    have hword := (h c hc).1
    rw [Bool.eq_false_iff]
    intro hdigit
    rw [isWord_of_isDigit hdigit] at hword
    cases hword
  induction rest with
  | nil =>
    have hnone : ([] ++ tail).takeWhile isDigit = [] ∧ ([] ++ tail).dropWhile isDigit = tail :=
      Rule.runs_append (by simp) hstop
    exact hnone
  | cons c cs ih =>
    cases hc : isDigit c with
    | true => simp [hc, ih.1, ih.2]
    | false => simp [hc]

theorem EndsTokens.fraction?_append (h : EndsTokens tail) (rest : List Char) :
    fraction? (rest ++ tail) = fraction? rest := by
  cases rest with
  | nil =>
    cases tail with
    | nil => rfl
    | cons c cs => simp [fraction?, (h c rfl).2.1]
  | cons c cs =>
    by_cases hpoint : c = '.'
    · subst hpoint
      obtain ⟨htake, hdrop⟩ := h.digits_append cs
      rw [List.cons_append, fraction?, fraction?, htake, hdrop, h.endsWord_append]
    · simp [fraction?, hpoint]

theorem EndsTokens.head?_append (h : EndsTokens tail) (rest : List Char) :
    (rest ++ tail).head? = some '=' ↔ rest.head? = some '=' := by
  cases rest with
  | cons c cs => rfl
  | nil =>
    refine ⟨fun hhead => absurd rfl (h '=' hhead).2.2, fun hhead => ?_⟩
    cases hhead

theorem Rule.Takes.congr {rest' : List Char} (h : Takes d rule text rest) (hends : endsWord rest' = endsWord rest)
    (hfraction : fraction? rest' = fraction? rest) (hsign : rest'.head? = some '=' → rest.head? = some '=') :
    Takes d rule text rest' := by
  cases h with
  | name hname hword => exact .name hname (hends.trans hword)
  | operator hmem hopen => exact .operator hmem fun hsigns => mt hsign (hopen hsigns)
  | integer hdigits hword hnone => exact .integer hdigits (hends.trans hword) (hfraction.trans hnone)
  | real hdigits hplaces hword => exact .real hdigits hplaces (hends.trans hword)
  | string hbody => exact .string hbody
  | symbol hmem => exact .symbol hmem

theorem EndsTokens.takes_append (h : EndsTokens tail) : Takes d rule text (rest ++ tail) ↔ Takes d rule text rest :=
  ⟨fun htakes => htakes.congr (h.endsWord_append rest).symm (h.fraction?_append rest).symm (h.head?_append rest).mpr,
    fun htakes => htakes.congr (h.endsWord_append rest) (h.fraction?_append rest) (h.head?_append rest).mp⟩

theorem Rule.Takes.eq_string (h : Takes d rule text rest) {c : Char} (hc : c = '\n' ∨ c = '#') (hmem : c ∈ text) :
    rule = .string ∧ c = '#' := by
  have hnamePart : ¬ isNamePart c = true := by rcases hc with rfl | rfl <;> decide
  have hdigit : ¬ isDigit c = true := by rcases hc with rfl | rfl <;> decide
  cases h with
  | name hname _ => exact absurd (hname.2 c hmem) hnamePart
  | @operator sign _ hsign _ =>
    have hall : operators.all fun sign => '\n' ∉ sign.toList && '#' ∉ sign.toList := by decide
    have hsign := List.all_eq_true.mp hall sign hsign
    rw [Bool.and_eq_true, decide_eq_true_eq, decide_eq_true_eq] at hsign
    rcases hc with rfl | rfl
    · exact absurd hmem hsign.1
    · exact absurd hmem hsign.2
  | integer hdigits _ _ => exact absurd (hdigits.2 c hmem) hdigit
  | real hdigits hplaces _ =>
    rcases List.mem_append.mp hmem with hmem | hmem
    · exact absurd (hdigits.2 c hmem) hdigit
    · rcases List.mem_cons.mp hmem with rfl | hmem
      · rcases hc with heq | heq <;> cases heq
      · exact absurd (hplaces.2 c hmem) hdigit
  | @string body _ hbody =>
    refine ⟨rfl, hc.resolve_left ?_⟩
    rintro rfl
    have hinside : '\n' ∈ body := by simpa using hmem
    exact absurd (hbody '\n' hinside) (by decide)
  | @symbol sign _ hsign =>
    obtain rfl : c = sign := List.mem_singleton.mp hmem
    rcases hc with rfl | rfl <;> exact absurd hsign (by decide)

end Breaks

/-! ### Two texts -/

def StringAcross (d : Dialect) (before tail : List Char) : Prop :=
  ∃ pieces opening text, before = pieces.flatMap Prod.snd ++ opening ∧ Passes d (opening ++ tail) pieces ∧
    Rule.first? d (opening ++ tail) = some (.string, text) ∧ opening.length < text.length

/-- The tokens of two texts are those of the first and then those of the second. -/
def Splits (d : Dialect) (before tail : List Char) : Prop :=
  ∀ line tokens, Lexes d line (before ++ tail) tokens ↔
    ∃ front back, Lexes d line before front ∧ Lexes d (line + before.count '!') tail back ∧ tokens = front ++ back

section Splits

open Rule

variable {d : Dialect} {rule : Rule} {before text rest tail : List Char}

theorem StringAcross.cons (hfirst : first? d (text ++ (rest ++ tail)) = some (rule, text))
    (h : StringAcross d rest tail) : StringAcross d (text ++ rest) tail := by
  obtain ⟨pieces, opening, quoted, rfl, hpasses, hstring, hlonger⟩ := h
  have hne : text ≠ [] := (isFront_take? (first?_eq_some_iff.mp hfirst).1).1
  refine ⟨(rule, text) :: pieces, opening, quoted, ?_, .cons hne ?_ hpasses, hstring, hlonger⟩
  · rw [List.flatMap_cons, List.append_assoc]
  · rwa [List.append_assoc] at hfirst

theorem Splits.nil (d : Dialect) (tail : List Char) : Splits d [] tail := by
  intro line tokens
  constructor
  · intro h
    exact ⟨[], tokens, lexes_nil.mpr rfl, h, rfl⟩
  · rintro ⟨front, back, hfront, hback, rfl⟩
    obtain rfl := lexes_nil.mp hfront
    exact hback

theorem Splits.cons (hwhole : first? d (text ++ (rest ++ tail)) = some (rule, text))
    (hfront : first? d (text ++ rest) = some (rule, text)) (h : Splits d rest tail) : Splits d (text ++ rest) tail := by
  intro line tokens
  rw [List.append_assoc, lexes_append hwhole, List.count_append, ← Nat.add_assoc]
  constructor
  · rintro ⟨later, hlater, rfl⟩
    obtain ⟨front, back, hrest, hback, rfl⟩ := (h _ _).mp hlater
    exact ⟨_, back, (lexes_append hfront).mpr ⟨front, hrest, rfl⟩, hback, (List.append_assoc _ _ _).symm⟩
  · rintro ⟨_, back, hlexes, hback, rfl⟩
    obtain ⟨front, hrest, rfl⟩ := (lexes_append hfront).mp hlexes
    exact ⟨front ++ back, (h _ _).mpr ⟨front, back, hrest, hback, rfl⟩, List.append_assoc _ _ _⟩

theorem Splits.of_stuck (hne : before ≠ []) (hwhole : first? d (before ++ tail) = none)
    (hfront : first? d before = none) : Splits d before tail := by
  intro line tokens
  constructor
  · intro h
    exact absurd h (not_lexes (by simp [hne]) hwhole)
  · rintro ⟨front, back, hlexes, _⟩
    exact absurd hlexes (not_lexes hne hfront)

theorem Splits.of_gap (hbefore : first? d before = some (rule, before))
    (htail : first? d (text ++ rest) = some (rule, text))
    (hwhole : first? d (before ++ (text ++ rest)) = some (rule, before ++ text)) (hsilent : rule.isSilent = true) :
    Splits d before (text ++ rest) := by
  intro line tokens
  have hbefore : first? d (before ++ []) = some (rule, before) := by rwa [List.append_nil]
  have hfront (front : List Token) : Lexes d line before front ↔ front = [] := by
    rw [← List.append_nil before, lexes_append hbefore]
    simp [hsilent, lexes_nil]
  rw [← List.append_assoc] at hwhole
  rw [← List.append_assoc, lexes_append hwhole, List.count_append, ← Nat.add_assoc]
  constructor
  · rintro ⟨later, hlater, rfl⟩
    exact ⟨[], later, (hfront []).mpr rfl, (lexes_append htail).mpr ⟨later, hlater, by simp [hsilent]⟩,
      by simp [hsilent]⟩
  · rintro ⟨front, back, hlexes, hback, rfl⟩
    obtain rfl := (hfront front).mp hlexes
    obtain ⟨later, hlater, rfl⟩ := (lexes_append htail).mp hback
    exact ⟨later, hlater, by simp [hsilent]⟩

theorem IsBreak.gap {c x : Char} {xs : List Char} (h : IsBreak (x :: xs)) (hc : startsGap c = true)
    (hx : gapPart c x = true) : startsGap x = true ∧ gapPart x = gapPart c ∧ gapRule x = gapRule c := by
  by_cases hhash : c = '#'
  · subst hhash
    rcases h x rfl with rfl | rfl
    · cases hx
    · exact ⟨rfl, rfl, rfl⟩
  · have hx : isBlank x = true := by simpa [gapPart, hhash] using hx
    rcases h x rfl with rfl | rfl
    · exact ⟨by decide, by simp [gapPart, hhash], by simp [gapRule, hhash]⟩
    · exact absurd hx (by decide)

theorem takeWhile_append_of_stop {p : Char → Bool} {cs : List Char}
    (h : cs.dropWhile p = [] → tail.head?.any p = false) : (cs ++ tail).takeWhile p = cs.takeWhile p := by
  induction cs with
  | nil =>
    cases tail with
    | nil => rfl
    | cons c cs => exact List.takeWhile_cons_of_neg (by simpa using h rfl)
  | cons c cs ih =>
    cases hc : p c with
    | true =>
      have hcs := ih fun hend => h (by rw [List.dropWhile_cons_of_pos hc, hend])
      rw [List.cons_append, List.takeWhile_cons_of_pos hc, List.takeWhile_cons_of_pos hc, hcs]
    | false =>
      have hc : ¬ p c = true := by simp [hc]
      rw [List.cons_append, List.takeWhile_cons_of_neg hc, List.takeWhile_cons_of_neg hc]

theorem first?_gap_append {c : Char} (hc : startsGap c = true) {cs : List Char}
    (h : cs.dropWhile (gapPart c) = [] → tail.head?.any (gapPart c) = false) :
    first? d (c :: cs.takeWhile (gapPart c) ++ (cs.dropWhile (gapPart c) ++ tail)) =
      some (gapRule c, c :: cs.takeWhile (gapPart c)) := by
  rw [← List.append_assoc, List.cons_append, List.takeWhile_append_dropWhile, List.cons_append, first?_gap d hc,
    takeWhile_append_of_stop h]

theorem IsBreak.splits_gap (h : IsBreak tail) {c : Char} (hc : startsGap c = true) {cs : List Char}
    (hrest : Splits d (cs.dropWhile (gapPart c)) tail) : Splits d (c :: cs) tail := by
  have hcut : c :: cs = c :: cs.takeWhile (gapPart c) ++ cs.dropWhile (gapPart c) := by
    rw [List.cons_append, List.takeWhile_append_dropWhile]
  have hfirst := first?_gap d hc cs
  by_cases hmore : cs.dropWhile (gapPart c) = [] ∧ (tail.head?.any (gapPart c)) = true
  · obtain ⟨hend, htail⟩ := hmore
    cases tail with
    | nil => cases htail
    | cons x xs =>
      have hx : gapPart c x = true := htail
      obtain ⟨hstarts, hpart, hrule⟩ := h.gap hc hx
      have htake : cs.takeWhile (gapPart c) = cs := by
        have hcut := List.takeWhile_append_dropWhile (p := gapPart c) (l := cs)
        rwa [hend, List.append_nil] at hcut
      have hall : ∀ a ∈ cs, gapPart c a = true := fun a ha =>
        List.all_eq_true.mp List.all_takeWhile a (htake.symm ▸ ha)
      have hxs : x :: xs = x :: xs.takeWhile (gapPart c) ++ xs.dropWhile (gapPart c) := by
        rw [List.cons_append, List.takeWhile_append_dropWhile]
      have hsilent : (gapRule c).isSilent = true := by unfold gapRule; split <;> rfl
      rw [hxs]
      refine Splits.of_gap ?_ ?_ ?_ hsilent
      · rw [hfirst, htake]
      · rw [← hxs, first?_gap d hstarts, hpart, hrule]
      · rw [← hxs, List.cons_append, first?_gap d hc, List.takeWhile_append_of_pos hall, List.takeWhile_cons_of_pos hx]
        rfl
  · have hfront : first? d (c :: cs.takeWhile (gapPart c) ++ cs.dropWhile (gapPart c)) =
        some (gapRule c, c :: cs.takeWhile (gapPart c)) := by
      rw [← hcut, hfirst]
    rw [hcut]
    exact .cons (first?_gap_append hc fun hend => by simpa [hend] using hmore) hfront hrest

theorem isSilent_of_first? {c : Char} {cs : List Char} (hgap : startsGap c = false)
    (hfirst : first? d (c :: cs) = some (rule, text)) : rule.isSilent = false := by
  rw [← Bool.not_eq_true]
  intro hsilent
  rw [(gapRule_of_take? (first?_eq_some_iff.mp hfirst).1 hsilent).1] at hgap
  cases hgap

theorem EndsTokens.stuck (h : EndsTokens tail) {c : Char} {cs : List Char} (hgap : startsGap c = false)
    (hwhole : first? d (c :: cs ++ tail) = none) : first? d (c :: cs) = none := by
  cases hfront : first? d (c :: cs) with
  | none => rfl
  | some taken =>
    obtain ⟨rule, text⟩ := taken
    obtain ⟨_, rest, hcs⟩ := isFront_take? (first?_eq_some_iff.mp hfront).1
    have hsilent := isSilent_of_first? hgap hfront
    rw [← hcs] at hfront hwhole
    have htakes : Takes d rule text (rest ++ tail) := h.takes_append.mpr (takes_of_first? hfront hsilent)
    rw [List.append_assoc, (first?_iff_takes.mpr htakes).1] at hwhole
    cases hwhole

theorem EndsTokens.inside (h : EndsTokens tail) {c : Char} {cs : List Char} (hgap : startsGap c = false)
    (hwhole : first? d (c :: cs ++ tail) = some (rule, text)) (hbefore : c :: cs = text ++ rest) :
    first? d (text ++ rest) = some (rule, text) := by
  have hsilent := isSilent_of_first? hgap hwhole
  rw [hbefore, List.append_assoc] at hwhole
  exact (first?_iff_takes.mpr (h.takes_append.mp (takes_of_first? hwhole hsilent))).1

theorem IsBreak.token_inside (h : IsBreak tail) {c : Char} {cs : List Char} (hgap : startsGap c = false)
    (hacross : ¬ StringAcross d (c :: cs) tail) (hwhole : first? d (c :: cs ++ tail) = some (rule, text)) :
    ∃ rest, c :: cs = text ++ rest ∧ first? d (text ++ rest) = some (rule, text) := by
  have hinside {rest : List Char} (hbefore : c :: cs = text ++ rest) := h.endsTokens.inside hgap hwhole hbefore
  have hsilent := isSilent_of_first? hgap hwhole
  obtain ⟨_, behind, hcs⟩ := isFront_take? (first?_eq_some_iff.mp hwhole).1
  rcases List.append_eq_append_iff.mp hcs with ⟨rest, hbefore, _⟩ | ⟨beyond, htext, htail⟩
  · exact ⟨rest, hbefore, hinside hbefore⟩
  · cases beyond with
    | nil =>
      have hbefore : c :: cs = text ++ [] := by rw [htext, List.append_nil, List.append_nil]
      exact ⟨[], hbefore, hinside hbefore⟩
    | cons x xs =>
      have hstring := hwhole
      rw [← hcs] at hwhole
      have hmem : x ∈ text := by simp [htext]
      obtain ⟨rfl, _⟩ := (takes_of_first? hwhole hsilent).eq_string (h x (by rw [htail]; rfl)) hmem
      refine absurd ⟨[], c :: cs, text, rfl, .nil, hstring, ?_⟩ hacross
      simp [htext]

theorem IsBreak.splits (h : IsBreak tail) (hacross : ¬ StringAcross d before tail) : Splits d before tail := by
  induction hlength : before.length using Nat.strong_induction_on generalizing before with
  | _ n ih =>
    have hrest {rule : Rule} {text rest : List Char} (hbefore : before = text ++ rest)
        (hfirst : first? d (text ++ (rest ++ tail)) = some (rule, text)) : Splits d rest tail := by
      have hne : text ≠ [] := (isFront_take? (first?_eq_some_iff.mp hfirst).1).1
      have hshorter : rest.length < n := by
        have hpos := List.length_pos_iff.mpr hne
        rw [hbefore, List.length_append] at hlength
        omega
      refine ih _ hshorter (fun hstring => hacross ?_) rfl
      rw [hbefore]
      exact hstring.cons hfirst
    cases before with
    | nil => exact .nil d tail
    | cons c cs =>
      cases hgap : startsGap c with
      | true =>
        refine h.splits_gap hgap ?_
        by_cases hend : cs.dropWhile (gapPart c) = []
        · rw [hend]
          exact .nil d tail
        · refine hrest ?_ (first?_gap_append hgap fun hnil => absurd hnil hend)
          rw [List.cons_append, List.takeWhile_append_dropWhile]
      | false =>
        cases hwhole : first? d (c :: cs ++ tail) with
        | none => exact .of_stuck (List.cons_ne_nil c cs) hwhole (h.endsTokens.stuck hgap hwhole)
        | some taken =>
          obtain ⟨rest, hbefore, hfront⟩ := h.token_inside hgap hacross hwhole
          rw [hbefore, List.append_assoc] at hwhole
          rw [hbefore]
          exact .cons hwhole hfront (hrest hbefore hwhole)

theorem not_stringAcross (h : ∀ c, tail.head? = some c → c = '\n') : ¬ StringAcross d before tail := by
  rintro ⟨pieces, opening, text, rfl, _, hstring, hlonger⟩
  obtain ⟨_, behind, heq⟩ := isFront_take? (first?_eq_some_iff.mp hstring).1
  rcases List.append_eq_append_iff.mp heq with ⟨rest, rfl, _⟩ | ⟨beyond, rfl, rfl⟩
  · rw [List.length_append] at hlonger
    omega
  · cases beyond with
    | nil => simp at hlonger
    | cons x xs =>
      rw [← heq] at hstring
      obtain rfl := h x rfl
      obtain ⟨_, hhash⟩ := (takes_of_first? hstring rfl).eq_string (.inl rfl) (by simp)
      cases hhash

theorem lexes_comment {line : Nat} {body : List Char} {tokens : List Token} (hbody : '\n' ∉ body)
    (hend : ∀ c, tail.head? = some c → c = '\n') :
    Lexes d line ('#' :: body ++ tail) tokens ↔ Lexes d (line + body.count '!') tail tokens := by
  have hrun : (body ++ tail).takeWhile (gapPart '#') = body := by
    refine (Rule.runs_append (fun c hc => ?_) fun c hc => ?_).1
    · have hne : c ≠ '\n' := fun heq => hbody (heq ▸ hc)
      exact bne_iff_ne.mpr hne
    · rw [hend c hc]
      rfl
  have hfirst : first? d ('#' :: body ++ tail) = some (comment, '#' :: body) := by
    rw [List.cons_append, first?_gap d rfl, hrun]
    rfl
  rw [lexes_append hfirst]
  simp [isSilent]

end Splits

end Bang.Token
