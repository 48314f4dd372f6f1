import Bang.Proofs.Segments

/-! A list of statements does the same as a program and as a block. A block cuts only at a `!` outside inner braces,
a program also behind each group of braces; where such a group comes last in its statement, with a `!` behind it,
the second cut leaves nothing to run. -/

namespace Bang.Statement

open Machine Run

def nesting (tokens : List Token) : Int := tokens.foldr (fun t braces => braceStep t + braces) 0

/-- A list that opens a brace and closes it with its last token, and not before. -/
structure IsGroup (tokens : List Token) : Prop where
  opens : startsBlock tokens = true
  inside : ∀ n < tokens.length, 0 < n → 0 < nesting (tokens.take n)
  closes : nesting tokens = 0

/-- A statement with at most one group of braces, which then comes last. -/
inductive Segment : List Token → Prop
  | plain {tokens : List Token} : All IsPlain tokens → Segment tokens
  | group {head group : List Token} : All IsPlain head → IsGroup group → Segment (head ++ group)

inductive Segmented : List Token → Prop
  | nil : Segmented []
  | cons {segment rest : List Token} {e : Token} : Segment segment → endsStatement e → Segmented rest →
      Segmented (segment ++ e :: rest)

/-- A place where a statement ends, or a brace is closed that is not open, if so many braces are
open before it. -/
def cutsAt (braces : Int) (t : Token) : Bool := endsStatement t && braces == 0 || closesBlock t && braces ≤ 1

def Uncut : (braces : Int) → List Token → Prop
  | _, [] => True
  | braces, t :: ts => cutsAt braces t = false ∧ Uncut (braces + braceStep t) ts

instance decidableUncut : (braces : Int) → (tokens : List Token) → Decidable (Uncut braces tokens)
  | _, [] => inferInstanceAs (Decidable True)
  | braces, t :: ts =>
    have := decidableUncut (braces + braceStep t) ts
    inferInstanceAs (Decidable (_ ∧ _))

section Nesting

variable {t : Token} {ts : List Token}

theorem nesting_cons : nesting (t :: ts) = braceStep t + nesting ts := rfl

theorem nesting_append {us : List Token} : nesting (ts ++ us) = nesting ts + nesting us := by
  induction ts with
  | nil => exact (Int.zero_add _).symm
  | cons t ts ih => rw [List.cons_append, nesting_cons, nesting_cons, ih, Int.add_assoc]

theorem closesBlock_of_braceStep (h : braceStep t < 0) : closesBlock t ∧ braceStep t = -1 := by
  unfold braceStep at h ⊢
  cases ho : opensBlock t with
  | true => simp [ho] at h
  | false =>
    cases hc : closesBlock t with
    | true => simp
    | false => simp [ho, hc] at h

theorem positive_tail {braces : Int} (h : ∀ n < (t :: ts).length, 0 < braces + nesting ((t :: ts).take n)) :
    ∀ n < ts.length, 0 < braces + braceStep t + nesting (ts.take n) := by
  intro n hn
  have hfront := h (n + 1) (by simpa using hn)
  rw [List.take_succ_cons, nesting_cons] at hfront
  omega

theorem IsGroup.parts {group : List Token} (h : IsGroup group) : ∃ o inside c, group = o :: (inside ++ [c]) ∧
    opensBlock o ∧ closesBlock c ∧ nesting inside = 0 ∧ ∀ n ≤ inside.length, 0 < 1 + nesting (inside.take n) := by
  obtain ⟨hopens, hinside, hcloses⟩ := h
  cases group with
  | nil => cases hopens
  | cons o tail =>
    have ho : opensBlock o := hopens
    have hstep : braceStep o = 1 := braceStep_of_opensBlock ho
    rw [nesting_cons, hstep] at hcloses
    rcases List.eq_nil_or_concat tail with rfl | ⟨inside, c, rfl⟩
    · simp [nesting] at hcloses
    · have hfronts : ∀ n ≤ inside.length, 0 < 1 + nesting (inside.take n) := by
        intro n hn
        have hfront := hinside (n + 1) (by simp; omega) (Nat.succ_pos n)
        rw [List.concat_eq_append, List.take_succ_cons, List.take_append_of_le_length hn, nesting_cons, hstep] at hfront
        exact hfront
      have hwhole := hfronts inside.length (Nat.le_refl _)
      rw [List.take_length] at hwhole
      rw [List.concat_eq_append, nesting_append, nesting_cons] at hcloses
      have hnil : nesting [] = 0 := rfl
      obtain ⟨hc, hstep'⟩ : closesBlock c ∧ braceStep c = -1 := closesBlock_of_braceStep (by omega)
      exact ⟨o, inside, c, by rw [List.concat_eq_append], ho, hc, by omega, hfronts⟩

end Nesting

/-! ### Where nothing is cut -/

section Uncut

variable {braces : Int} {t : Token} {ts : List Token}

theorem cutsAt_of_closesBlock (h : closesBlock t) (hcut : cutsAt braces t = false) : 1 < braces := by
  have hclose : (closesBlock t && decide (braces ≤ 1)) = false := (Bool.or_eq_false_iff.mp hcut).2
  rw [h, Bool.true_and] at hclose
  exact Int.not_le.mp (of_decide_eq_false hclose)

theorem nesting_singleton : nesting [t] = braceStep t := Int.add_zero _

theorem braceStep_nonneg (h : closesBlock t = false) : 0 ≤ braceStep t := by
  apply Int.not_lt.mp
  intro hneg
  rw [(closesBlock_of_braceStep hneg).1] at h
  cases h

theorem Uncut.nesting_nonneg (h : Uncut braces ts) (hbraces : 0 ≤ braces) : 0 ≤ braces + nesting ts := by
  induction ts generalizing braces with
  | nil => simpa [nesting] using hbraces
  | cons t ts ih =>
    have hnext : 0 ≤ braces + braceStep t := by
      cases hc : closesBlock t with
      | true =>
        have hopen := cutsAt_of_closesBlock hc h.1
        rw [braceStep_of_closesBlock hc]
        omega
      | false =>
        have hstep := braceStep_nonneg hc
        omega
    rw [nesting_cons, ← Int.add_assoc]
    exact ih h.2 hnext

theorem uncut_of_positive (h : ∀ n ≤ ts.length, 0 < braces + nesting (ts.take n)) : Uncut braces ts := by
  induction ts generalizing braces with
  | nil => exact True.intro
  | cons t ts ih =>
    have hopen : 0 < braces := by simpa [nesting] using h 0 (by simp)
    have hmore : 0 < braces + braceStep t := by simpa [nesting] using h 1 (by simp)
    have hends : (endsStatement t && braces == 0) = false := by rw [beq_false_of_ne (by omega), Bool.and_false]
    have hcloses : (closesBlock t && decide (braces ≤ 1)) = false := by
      cases hc : closesBlock t with
      | false => rfl
      | true =>
        rw [braceStep_of_closesBlock hc] at hmore
        exact decide_eq_false (by omega)
    refine ⟨by rw [cutsAt, hends, hcloses, Bool.false_or], ih fun n hn => ?_⟩
    have hfront := h (n + 1) (by simpa using hn)
    rwa [List.take_succ_cons, nesting_cons, ← Int.add_assoc] at hfront

end Uncut

/-! ### Groups in a block and in a program -/

section Cuts

variable {m : Type → Type} [Machine m] (inner : List Token → m Unit)

theorem sequence_nested {braces : Int} {ts : List Token} (h : ∀ n < ts.length, 0 < braces + nesting (ts.take n))
    (pending rest : List Token) :
    sequence inner braces pending (ts ++ rest) = sequence inner (braces + nesting ts) (ts.reverse ++ pending) rest := by
  induction ts generalizing braces pending with
  | nil => simp [nesting]
  | cons t ts ih =>
    have hopen : 0 < braces := by simpa [nesting] using h 0 (by simp)
    have hpass : (endsStatement t && braces == 0) = false := by
      rw [beq_false_of_ne (by omega), Bool.and_false]
    rw [List.cons_append, sequence_pass inner hpass, ih (positive_tail h), nesting_cons, Int.add_assoc]
    simp

theorem sequence_isGroup {group : List Token} (h : IsGroup group) (pending rest : List Token) :
    sequence inner 0 pending (group ++ rest) = sequence inner 0 (group.reverse ++ pending) rest := by
  obtain ⟨o, inside, c, rfl, ho, hc, hnesting, hfronts⟩ := h.parts
  have hinside (pending rest : List Token) : sequence inner (0 + 1) pending (inside ++ rest) =
      sequence inner (0 + 1) (inside.reverse ++ pending) rest := by
    have hnested := sequence_nested inner (fun n hn => hfronts n (Nat.le_of_lt hn)) pending rest
    rwa [hnesting] at hnested
  rw [List.cons_append, List.append_assoc, List.singleton_append, sequence_group inner ho hc hinside]
  simp

theorem topLevel_step {t : Token} (h : IsInner t) {braces : Nat} (hcut : cutsAt braces t = false)
    (pending rest : List Token) :
    topLevel inner true braces pending (t :: rest) =
      topLevel inner true (braces + braceStep t).toNat (t :: pending) rest := by
  cases ho : opensBlock t with
  | true =>
    rw [topLevel_open inner h ho, braceStep_of_opensBlock ho]
    rfl
  | false =>
    cases hc : closesBlock t with
    | true =>
      have hopen := cutsAt_of_closesBlock hc hcut
      obtain ⟨outer, rfl⟩ : ∃ outer, braces = outer + 2 := ⟨braces - 2, by omega⟩
      have hnext : ((outer + 2 : Nat) + braceStep t).toNat = outer + 1 := by
        rw [braceStep_of_closesBlock hc]
        omega
      rw [hnext, topLevel_cons inner h]
      simp only [endsStatement_of_closesBlock hc, ho, hc, Bool.false_eq_true, if_false, if_true]
    | false =>
      have hstep : braceStep t = 0 := by simp [braceStep, ho, hc]
      have hpass : (endsStatement t && braces == 0) = false := by
        have hends := (Bool.or_eq_false_iff.mp hcut).1
        simpa using hends
      rw [topLevel_pass inner h hstep hpass, hstep]
      simp

theorem topLevel_uncut {braces : Nat} {ts : List Token} (h : Uncut braces ts) (hts : All IsInner ts)
    (pending rest : List Token) :
    topLevel inner true braces pending (ts ++ rest) =
      topLevel inner true (braces + nesting ts).toNat (ts.reverse ++ pending) rest := by
  induction ts generalizing braces pending with
  | nil => simp [nesting]
  | cons t ts ih =>
    have hnext : ((braces + braceStep t).toNat : Int) = braces + braceStep t := by
      have hsingle : Uncut braces [t] := ⟨h.1, True.intro⟩
      have hnonneg := hsingle.nesting_nonneg (Int.natCast_nonneg braces)
      rw [nesting_singleton] at hnonneg
      exact Int.toNat_of_nonneg hnonneg
    have hrest : Uncut ((braces + braceStep t).toNat : Int) ts := by
      rw [hnext]
      exact h.2
    rw [List.cons_append, topLevel_step inner hts.head h.1, ih hrest hts.tail, hnext, nesting_cons, Int.add_assoc]
    simp

theorem topLevel_nested {braces : Nat} {ts : List Token} (hts : All IsInner ts)
    (h : ∀ n ≤ ts.length, 0 < braces + nesting (ts.take n)) (pending rest : List Token) :
    topLevel inner true braces pending (ts ++ rest) =
      topLevel inner true (braces + nesting ts).toNat (ts.reverse ++ pending) rest :=
  topLevel_uncut inner (uncut_of_positive h) hts pending rest

theorem topLevel_isGroup {group : List Token} (h : IsGroup group) (hgroup : All IsInner group)
    (pending rest : List Token) :
    topLevel inner true 0 pending (group ++ rest) =
      (do inner (pending.reverse ++ group); topLevel inner true 0 [] rest) := by
  obtain ⟨o, inside, c, rfl, ho, hc, hnesting, hfronts⟩ := h.parts
  have hinside : All IsInner inside := hgroup.subset (by simp)
  have hclosing : IsInner c := hgroup c (by simp)
  have hnested : topLevel inner true 1 (o :: pending) (inside ++ c :: rest) =
      topLevel inner true (1 + nesting inside).toNat (inside.reverse ++ o :: pending) (c :: rest) :=
    topLevel_nested inner hinside hfronts _ _
  rw [hnesting] at hnested
  rw [List.cons_append, List.append_assoc, List.singleton_append, topLevel_open inner hgroup.head ho]
  refine hnested.trans ?_
  rw [topLevel_cons inner hclosing]
  simp [endsStatement_of_closesBlock hc, opensBlock_of_closesBlock hc, hc]

end Cuts

/-! ### Statements of a program and of a block -/

section Framing

variable {m : Type → Type} [Machine m] (d : Dialect) (rounds depth : Nat)

theorem exec_nil_behind [LawfulMachine m] (tokens : List Token) (next : m Unit) :
    (do exec d rounds depth tokens; exec d rounds depth []; next : m Unit) =
      (do exec d rounds depth tokens; next) := by
  cases depth with
  | zero => exact (LawfulMachine.fail_bind _ _).trans (LawfulMachine.fail_bind _ _).symm
  | succ depth =>
    have hnone : (exec d rounds (depth + 1) [] : m Unit) = pure () := rfl
    simp only [hnone, pure_bind]

theorem topLevel_segment [LawfulMachine m] {segment : List Token} (h : Segment segment)
    (hsegment : All IsInner segment) {e : Token}
    (he : endsStatement e) (hend : IsInner e) (rest : List Token) :
    topLevel (exec d rounds depth) true 0 [] (segment ++ e :: rest) =
      (do exec d rounds depth segment; topLevel (exec d rounds depth) true 0 [] rest : m Unit) := by
  have hcut (pending : List Token) : topLevel (exec d rounds depth) true 0 pending (e :: rest) =
      (do exec d rounds depth pending.reverse; topLevel (exec d rounds depth) true 0 [] rest : m Unit) := by
    rw [topLevel_cons _ hend]
    simp [he]
  cases h with
  | plain hplain =>
    rw [topLevel_plain _ hplain hsegment, hcut]
    simp
  | @group head group hplain hgroup =>
    have hhead : All IsInner head := hsegment.subset (by simp)
    have hinner : All IsInner group := hsegment.subset (by simp)
    rw [List.append_assoc, topLevel_plain _ hplain hhead, topLevel_isGroup _ hgroup hinner, hcut]
    simp only [List.append_nil, List.reverse_reverse, List.reverse_nil]
    exact exec_nil_behind d rounds depth _ _

theorem sequence_segment {segment : List Token} (h : Segment segment) {e : Token} (he : endsStatement e)
    (rest : List Token) :
    sequence (exec d rounds depth) 0 [] (segment ++ e :: rest) =
      (do exec d rounds depth segment; sequence (exec d rounds depth) 0 [] rest : m Unit) := by
  have hplain {tokens : List Token} (htokens : All IsPlain tokens) (pending rest : List Token) :
      (sequence (exec d rounds depth) 0 pending (tokens ++ rest) : m Unit) =
        sequence (exec d rounds depth) 0 (tokens.reverse ++ pending) rest := by
    have hwhole : Whole tokens := List.append_nil tokens ▸ .plain_append htokens .nil
    exact sequence_whole _ hwhole pending rest
  cases h with
  | plain htokens =>
    rw [hplain htokens]
    simp [sequence, he]
  | group htokens hgroup =>
    rw [List.append_assoc, hplain htokens, sequence_isGroup _ hgroup]
    simp [sequence, he]

theorem topLevel_eq_sequence [LawfulMachine m] {tokens : List Token} (h : Segmented tokens)
    (hinner : All IsInner tokens) {last : Token}
    (hlast : last.kind = .finish) :
    (topLevel (exec d rounds depth) true 0 [] (tokens ++ [last]) : m Unit) =
      sequence (exec d rounds depth) 0 [] tokens := by
  induction h with
  | nil => simp [topLevel, sequence, hlast]
  | @cons segment rest e hsegment he _ ih =>
    have hfront : All IsInner segment := hinner.subset (by simp)
    have hend : IsInner e := hinner e (by simp)
    have hrest : All IsInner rest := fun t ht => hinner t (by simp [ht])
    rw [List.append_assoc, List.cons_append, topLevel_segment d rounds depth hsegment hfront he hend,
      sequence_segment d rounds depth hsegment he, ih hrest]

end Framing

theorem statements_eq_block {m : Type → Type} [Machine m] [LawfulMachine m] (d : Dialect) (limits : Limits)
    {tokens : List Token} (h : Segmented tokens) (hinner : All IsInner tokens) {first last opening closing : Token}
    (hfirst : first.kind = .start) (hlast : last.kind = .finish) (hopening : opensBlock opening)
    (hclosing : closesBlock closing) :
    (Program.statements d limits (first :: (tokens ++ [last])) : m Unit) =
      block (exec d limits.rounds limits.depth) (opening :: (tokens ++ [closing])) := by
  have hends (t u : Token) : (t :: (tokens ++ [u])).getLast? = some u := by
    rw [← List.cons_append]
    exact List.getLast?_concat
  have hprogram : (Program.statements d limits (first :: (tokens ++ [last])) : m Unit) =
      sequence (exec d limits.rounds limits.depth) 0 [] tokens := by
    rw [← topLevel_eq_sequence d limits.rounds limits.depth h hinner hlast, Program.statements, hends]
    simp [Program.isFramed, hfirst, hlast, topLevel]
  rw [hprogram, block, hends]
  simp [hopening, hclosing]

section Nested

def storingOne : List Token := [⟨.identifier, "x", 1⟩, ⟨.operator, "=", 1⟩, ⟨.number, "1", 1⟩]

def testingOne : List Token :=
  [⟨.keyword, "if", 2⟩, bracket "(" 2, ⟨.identifier, "x", 2⟩, ⟨.operator, "==", 2⟩, ⟨.number, "1", 2⟩, bracket ")" 2]

def printingInside : List Token :=
  [bracket "\x7b" 2, bracket "\x7b" 2, ⟨.keyword, "print", 2⟩, bracket "(" 2, ⟨.identifier, "x", 2⟩, bracket ")" 2,
    bracket "!" 2, bracket "\x7d" 3, bracket "!" 3, bracket "\x7d" 4]

def nestedStatements : List Token :=
  storingOne ++ bracket "!" 1 :: (testingOne ++ printingInside ++ bracket "!" 4 :: [])

theorem segmented_nestedStatements : Segmented nestedStatements := by
  have hplain (tokens : List Token) (h : tokens.all (fun t => braceStep t == 0 && !endsStatement t) = true) :
      All IsPlain tokens := fun t ht => by simpa [IsPlain] using List.all_eq_true.mp h t ht
  have hgroup : IsGroup printingInside := ⟨by decide, by decide, by decide⟩
  exact .cons (.plain (hplain _ (by decide))) rfl (.cons (.group (hplain _ (by decide)) hgroup) rfl .nil)

end Nested

end Bang.Statement
