import Bang.Proofs.Slices
import Bang.Run
import Bang.Program

/-! How lists of statements are cut. A block cuts its statements at each `!` outside inner braces, a program
also behind each block. Braces that match keep what stands between them together in both. -/

namespace Bang.Statement

open Machine Run

def IsInner (t : Token) : Prop := t.kind ≠ .start ∧ t.kind ≠ .finish

def IsPlain (t : Token) : Prop := braceStep t = 0 ∧ endsStatement t = false

inductive Balanced : List Token → Prop
  | nil : Balanced []
  | token {t : Token} {ts : List Token} : braceStep t = 0 → Balanced ts → Balanced (t :: ts)
  | group {o c : Token} {inside ts : List Token} : opensBlock o → closesBlock c → Balanced inside → Balanced ts →
      Balanced (o :: (inside ++ c :: ts))

/-- Balanced, and not divided by a `!` outside its braces. -/
inductive Whole : List Token → Prop
  | nil : Whole []
  | token {t : Token} {ts : List Token} : IsPlain t → Whole ts → Whole (t :: ts)
  | group {o c : Token} {inside ts : List Token} : opensBlock o → closesBlock c → Balanced inside → Whole ts →
      Whole (o :: (inside ++ c :: ts))

inductive StatementList : List Token → Prop
  | nil : StatementList []
  | cons {statement rest : List Token} {e : Token} : Whole statement → endsStatement e → StatementList rest →
      StatementList (statement ++ e :: rest)

def braced (opening closing : Int) (tokens : List Token) : List Token :=
  bracket "\x7b" opening :: (tokens ++ [bracket "\x7d" closing])

structure Block where
  opening : Int
  closing : Int
  statements : List Token
  list : StatementList statements
  isInner : All IsInner statements

def Block.tokens (b : Block) : List Token := braced b.opening b.closing b.statements

/-! ### Marks of a cut -/

section Marks

variable {t : Token}

theorem endsStatement_of_opensBlock (h : opensBlock t) : endsStatement t = false := by
  have htext : t.text = "\x7b" := eq_of_beq h
  simp [endsStatement, htext]

theorem endsStatement_of_closesBlock (h : closesBlock t) : endsStatement t = false := by
  have htext : t.text = "\x7d" := eq_of_beq h
  simp [endsStatement, htext]

theorem opensBlock_of_closesBlock (h : closesBlock t) : opensBlock t = false := by
  have htext : t.text = "\x7d" := eq_of_beq h
  simp [opensBlock, htext]

theorem braceStep_of_opensBlock (h : opensBlock t) : braceStep t = 1 := by simp [braceStep, h]

theorem braceStep_of_closesBlock (h : closesBlock t) : braceStep t = -1 := by
  simp [braceStep, opensBlock_of_closesBlock h, h]

theorem braceStep_of_endsStatement (h : endsStatement t) : braceStep t = 0 := by
  have htext : t.text = "!" := eq_of_beq h
  simp [braceStep, opensBlock, closesBlock, htext]

theorem no_brace_of_braceStep (h : braceStep t = 0) : opensBlock t = false ∧ closesBlock t = false := by
  constructor
  · cases ho : opensBlock t with
    | false => rfl
    | true => simp [braceStep_of_opensBlock ho] at h
  · cases hc : closesBlock t with
    | false => rfl
    | true => simp [braceStep_of_closesBlock hc] at h

theorem isInner_bracket (text : String) (line : Int) : IsInner (bracket text line) := by simp [IsInner, bracket]

end Marks

section Shapes

variable {ts us : List Token}

theorem Balanced.append (h : Balanced ts) (h' : Balanced us) : Balanced (ts ++ us) := by
  induction h with
  | nil => exact h'
  | token ht _ ih => exact .token ht ih
  | group ho hc hinside _ _ ih =>
    rw [List.cons_append, List.append_assoc]
    exact .group ho hc hinside ih

theorem Whole.balanced (h : Whole ts) : Balanced ts := by
  induction h with
  | nil => exact .nil
  | token ht _ ih => exact .token ht.1 ih
  | group ho hc hinside _ ih => exact .group ho hc hinside ih

theorem StatementList.balanced (h : StatementList ts) : Balanced ts := by
  induction h with
  | nil => exact .nil
  | cons hstatement he _ ih => exact hstatement.balanced.append (.token (braceStep_of_endsStatement he) ih)

theorem Whole.plain_append (h : All IsPlain ts) (hus : Whole us) : Whole (ts ++ us) := by
  induction ts with
  | nil => exact hus
  | cons t ts ih => exact .token h.head (ih h.tail)

theorem Block.tokens_append (b : Block) (rest : List Token) :
    b.tokens ++ rest = bracket "\x7b" b.opening :: (b.statements ++ bracket "\x7d" b.closing :: rest) := by
  simp [Block.tokens, braced]

theorem Whole.block_append (b : Block) (h : Whole us) : Whole (b.tokens ++ us) := by
  rw [b.tokens_append]
  exact .group rfl rfl b.list.balanced h

end Shapes

/-! ### Statements of a block -/

section Sequence

variable {m : Type → Type} [Machine m] (inner : List Token → m Unit)

theorem sequence_pass {braces : Int} {t : Token} (h : (endsStatement t && braces == 0) = false)
    (pending ts : List Token) :
    sequence inner braces pending (t :: ts) = sequence inner (braces + braceStep t) (t :: pending) ts := by
  simp [sequence, h]

theorem sequence_group {braces : Int} {o c : Token} {inside : List Token} (ho : opensBlock o) (hc : closesBlock c)
    (hinside : ∀ pending rest, sequence inner (braces + 1) pending (inside ++ rest) =
      sequence inner (braces + 1) (inside.reverse ++ pending) rest) (pending rest : List Token) :
    sequence inner braces pending (o :: (inside ++ c :: rest)) =
      sequence inner braces (c :: (inside.reverse ++ o :: pending)) rest := by
  have hopen : (endsStatement o && braces == 0) = false := by simp [endsStatement_of_opensBlock ho]
  have hclose : (endsStatement c && braces + 1 == 0) = false := by simp [endsStatement_of_closesBlock hc]
  rw [sequence_pass inner hopen, braceStep_of_opensBlock ho, hinside, sequence_pass inner hclose,
    braceStep_of_closesBlock hc, Int.add_neg_cancel_right]

theorem sequence_balanced {ts : List Token} (h : Balanced ts) :
    ∀ {braces : Int}, 0 < braces → ∀ pending rest, sequence inner braces pending (ts ++ rest) =
      sequence inner braces (ts.reverse ++ pending) rest := by
  induction h with
  | nil => exact fun _ _ _ => rfl
  | @token t ts ht _ ih =>
    intro braces hbraces pending rest
    -- Even a `!` ends no statement within braces.
    have hpass : (endsStatement t && braces == 0) = false := by
      have hne : (braces == 0) = false := beq_false_of_ne (by omega)
      rw [hne, Bool.and_false]
    rw [List.cons_append, sequence_pass inner hpass, ht, Int.add_zero, ih hbraces]
    simp
  | @group o c inside ts ho hc _ _ ihinside ih =>
    intro braces hbraces pending rest
    have hinside := ihinside (show 0 < braces + 1 by omega)
    rw [List.cons_append, List.append_assoc, List.cons_append, sequence_group inner ho hc hinside, ih hbraces]
    simp

theorem sequence_whole {ts : List Token} (h : Whole ts) (pending rest : List Token) :
    sequence inner 0 pending (ts ++ rest) = sequence inner 0 (ts.reverse ++ pending) rest := by
  induction h generalizing pending with
  | nil => rfl
  | @token t ts ht _ ih =>
    rw [List.cons_append, sequence_pass inner (by simp [ht.2]), ht.1, Int.add_zero, ih]
    simp
  | @group o c inside ts ho hc hinside _ ih =>
    have hpass := sequence_balanced inner hinside (show (0 : Int) < 0 + 1 by decide)
    rw [List.cons_append, List.append_assoc, List.cons_append, sequence_group inner ho hc hpass, ih]
    simp

theorem sequence_statement {statement : List Token} (h : Whole statement) {e : Token} (he : endsStatement e)
    (rest : List Token) :
    sequence inner 0 [] (statement ++ e :: rest) = (do inner statement; sequence inner 0 [] rest) := by
  rw [sequence_whole inner h]
  simp [sequence, he]

theorem sequence_list (inner : List Token → Run Unit) {ts : List Token} (h : StatementList ts) (rest : List Token) :
    sequence inner 0 [] (ts ++ rest) = (do sequence inner 0 [] ts; sequence inner 0 [] rest) := by
  induction h with
  | nil => rfl
  | cons hstatement he _ ih =>
    rw [List.append_assoc, List.cons_append, sequence_statement inner hstatement he,
      sequence_statement inner hstatement he, ih, bind_assoc]

theorem block_braced (opening closing : Int) (inside : List Token) :
    block inner (braced opening closing inside) = sequence inner 0 [] inside := by
  have hlast : (braced opening closing inside).getLast? = some (bracket "\x7d" closing) := by
    rw [braced, ← List.cons_append]
    exact List.getLast?_concat
  have hinside : ((braced opening closing inside).drop 1).dropLast = inside := by simp [braced]
  unfold block
  rw [hlast, hinside]
  rfl

end Sequence

/-! ### Statements of a program -/

section TopLevel

variable {m : Type → Type} [Machine m] (inner : List Token → m Unit)

theorem topLevel_cons {t : Token} (h : IsInner t) (braces : Nat) (pending ts : List Token) :
    topLevel inner true braces pending (t :: ts) =
      if endsStatement t then
        if braces == 0 then do
          inner pending.reverse
          topLevel inner true 0 [] ts
        else topLevel inner true braces (t :: pending) ts
      else if opensBlock t then topLevel inner true (braces + 1) (t :: pending) ts
      else if closesBlock t then
        match braces with
        | 0 => report (.braceUnopened t.line)
        | 1 => do
          inner (t :: pending).reverse
          topLevel inner true 0 [] ts
        | braces + 1 => topLevel inner true braces (t :: pending) ts
      else topLevel inner true braces (t :: pending) ts := by
  rw [topLevel.eq_def]
  split
  · rename_i heq
    cases heq
  · rename_i heq
    cases heq
    split
    · rename_i hkind
      exact absurd hkind h.1
    · rename_i hkind
      exact absurd hkind h.2
    · rfl

theorem topLevel_pass {t : Token} (h : IsInner t) (ht : braceStep t = 0) {braces : Nat}
    (he : (endsStatement t && braces == 0) = false) (pending ts : List Token) :
    topLevel inner true braces pending (t :: ts) = topLevel inner true braces (t :: pending) ts := by
  obtain ⟨hopens, hcloses⟩ := no_brace_of_braceStep ht
  rw [topLevel_cons inner h]
  cases hends : endsStatement t with
  | false => simp [hopens, hcloses]
  | true =>
    rw [hends, Bool.true_and] at he
    simp [he]

theorem topLevel_open {t : Token} (h : IsInner t) (ho : opensBlock t) (braces : Nat) (pending ts : List Token) :
    topLevel inner true braces pending (t :: ts) = topLevel inner true (braces + 1) (t :: pending) ts := by
  rw [topLevel_cons inner h]
  simp [endsStatement_of_opensBlock ho, ho]

theorem topLevel_balanced {ts : List Token} (h : Balanced ts) (hinner : All IsInner ts) :
    ∀ (braces : Nat) (pending rest : List Token), topLevel inner true (braces + 1) pending (ts ++ rest) =
      topLevel inner true (braces + 1) (ts.reverse ++ pending) rest := by
  induction h with
  | nil => exact fun _ _ _ => rfl
  | @token t ts ht _ ih =>
    intro braces pending rest
    rw [List.cons_append, topLevel_pass inner hinner.head ht (by simp), ih hinner.tail]
    simp
  | @group o c inside ts ho hc _ _ ihinside ih =>
    intro braces pending rest
    have hinside : All IsInner inside := hinner.subset (by simp)
    have hts : All IsInner ts := fun t ht => hinner t (by simp [ht])
    have hclosing : IsInner c := hinner c (by simp)
    rw [List.cons_append, List.append_assoc, List.cons_append, topLevel_open inner hinner.head ho,
      ihinside hinside, topLevel_cons inner hclosing]
    simp only [endsStatement_of_closesBlock hc, opensBlock_of_closesBlock hc, hc, Bool.false_eq_true, if_false, if_true]
    rw [ih hts]
    simp

theorem topLevel_plain {ts : List Token} (h : All IsPlain ts) (hinner : All IsInner ts) (pending rest : List Token) :
    topLevel inner true 0 pending (ts ++ rest) = topLevel inner true 0 (ts.reverse ++ pending) rest := by
  induction ts generalizing pending with
  | nil => rfl
  | cons t ts ih =>
    rw [List.cons_append, topLevel_pass inner hinner.head h.head.1 (by simp [h.head.2]), ih h.tail hinner.tail]
    simp

theorem topLevel_block (b : Block) (pending rest : List Token) :
    topLevel inner true 0 pending (b.tokens ++ rest) =
      (do inner (pending.reverse ++ b.tokens); topLevel inner true 0 [] rest) := by
  rw [b.tokens_append, topLevel_open inner (isInner_bracket _ _) rfl,
    topLevel_balanced inner b.list.balanced b.isInner, topLevel_cons inner (isInner_bracket _ _)]
  simp [endsStatement, opensBlock, closesBlock, bracket, Block.tokens, braced]

end TopLevel

theorem exec_block {m : Type → Type} [Machine m] (d : Dialect) (rounds depth : Nat) (b : Block) :
    (exec d rounds (depth + 1) b.tokens : m Unit) = block (exec d rounds depth) b.tokens := by
  cases d <;> rfl

end Bang.Statement
