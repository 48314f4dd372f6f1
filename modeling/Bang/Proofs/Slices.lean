import Bang.Statement.Function

/-! Statements cut their tokens into parts. Every part is a piece of the whole, so what is true of all tokens
of a program is true of all tokens of its parts. -/

namespace Bang.Statement

section Pieces

variable {tokens : List Token} {line : Int}

theorem isInfix_bracketed? {inside behind : List Token} (h : bracketed? line tokens = some (inside, behind)) :
    inside <:+: tokens ∧ behind <:+: tokens := by
  simp only [bracketed?, Option.bind_eq_bind, Option.bind_eq_some_iff, Option.pure_def,
    Option.some.injEq, Prod.mk.injEq] at h
  obtain ⟨start, _, stop, _, rfl, rfl⟩ := h
  have hfront : tokens.take stop <:+: tokens := (List.take_prefix stop tokens).isInfix
  exact ⟨(List.drop_suffix (start + 1) _).isInfix.trans hfront, (List.drop_suffix (stop + 1) tokens).isInfix⟩

theorem isInfix_loopBracketed? {header behind : List Token} (h : loopBracketed? line tokens = some (header, behind)) :
    header <:+: tokens ∧ behind <:+: tokens := by
  simp only [loopBracketed?, Option.bind_eq_bind, Option.bind_eq_some_iff, Option.pure_def,
    Option.some.injEq, Prod.mk.injEq] at h
  obtain ⟨start, _, stop, _, rfl, rfl⟩ := h
  have hfront : tokens.take stop <:+: tokens := (List.take_prefix stop tokens).isInfix
  exact ⟨(List.drop_suffix (start + 2) _).isInfix.trans hfront, (List.drop_suffix (stop + 1) tokens).isInfix⟩

theorem exists_splitOn (text : String) (tokens : List Token) :
    ∃ first parts, splitOn text tokens = first :: parts ∧ first <+: tokens ∧ ∀ part ∈ parts, part <:+: tokens := by
  induction tokens with
  | nil => exact ⟨[], [], rfl, List.prefix_rfl, by simp⟩
  | cons t ts ih =>
    obtain ⟨first, parts, hsplit, hfirst, hparts⟩ := ih
    have hbehind (part : List Token) (hpart : part <:+: ts) : part <:+: t :: ts :=
      hpart.trans (List.suffix_cons t ts).isInfix
    rw [splitOn, hsplit]
    split
    · refine ⟨[], first :: parts, rfl, List.nil_prefix, fun part hpart => hbehind part ?_⟩
      rcases List.mem_cons.mp hpart with rfl | hpart
      · exact hfirst.isInfix
      · exact hparts part hpart
    · exact ⟨t :: first, parts, rfl, List.cons_prefix_cons.mpr ⟨rfl, hfirst⟩,
        fun part hpart => hbehind part (hparts part hpart)⟩

theorem isInfix_splitOn (text : String) {part : List Token} (h : part ∈ splitOn text tokens) : part <:+: tokens := by
  obtain ⟨first, parts, hsplit, hfirst, hparts⟩ := exists_splitOn text tokens
  rw [hsplit] at h
  rcases List.mem_cons.mp h with rfl | h
  · exact hfirst.isInfix
  · exact hparts part h

theorem eq_of_upToClosing? {depth : Nat} {inside behind : List Token}
    (h : upToClosing? depth tokens = some (inside, behind)) :
    ∃ closing : Token, closing.text = ")" ∧ tokens = inside ++ closing :: behind := by
  induction tokens generalizing depth inside behind with
  | nil => simp [upToClosing?] at h
  | cons t ts ih =>
    -- Both recursive calls put the token back in front of what they find.
    have step {k : Nat} (hk : (upToClosing? k ts).map (Prod.map (t :: ·) id) = some (inside, behind)) :
        ∃ closing : Token, closing.text = ")" ∧ t :: ts = inside ++ closing :: behind := by
      obtain ⟨⟨found, rest⟩, hfound, heq⟩ := Option.map_eq_some_iff.mp hk
      obtain ⟨rfl, rfl⟩ := Prod.mk.inj heq
      obtain ⟨closing, hclosing, rfl⟩ := ih hfound
      exact ⟨closing, hclosing, rfl⟩
    simp only [upToClosing?.eq_def depth (t :: ts)] at h
    split at h
    · rename_i hclosing
      split at h
      · obtain ⟨rfl, rfl⟩ := Prod.mk.inj (Option.some.inj h)
        exact ⟨t, eq_of_beq hclosing, rfl⟩
      · exact step h
    · exact step h

theorem isInfix_upToClosing? {depth : Nat} {inside behind : List Token}
    (h : upToClosing? depth tokens = some (inside, behind)) : inside <:+: tokens ∧ behind <:+: tokens := by
  obtain ⟨closing, _, rfl⟩ := eq_of_upToClosing? h
  have hbehind : behind <:+ inside ++ closing :: behind :=
    (List.suffix_cons closing behind).trans (List.suffix_append _ _)
  exact ⟨(List.prefix_append _ _).isInfix, hbehind.isInfix⟩

end Pieces

def All (P : Token → Prop) (tokens : List Token) : Prop := ∀ t ∈ tokens, P t

namespace All

variable {P : Token → Prop} {tokens part : List Token} {t : Token}

theorem trivial (tokens : List Token) : All (fun _ => True) tokens := fun _ _ => True.intro

theorem nil : All P [] := fun _ h => absurd h List.not_mem_nil

theorem cons (ht : P t) (h : All P tokens) : All P (t :: tokens) := by
  intro u hu
  rcases List.mem_cons.mp hu with rfl | hu
  · exact ht
  · exact h u hu

theorem head (h : All P (t :: tokens)) : P t := h t List.mem_cons_self

theorem tail (h : All P (t :: tokens)) : All P tokens := fun u hu => h u (List.mem_cons_of_mem t hu)

theorem subset (h : All P tokens) (hsub : part ⊆ tokens) : All P part := fun t ht => h t (hsub ht)

theorem take (h : All P tokens) (n : Nat) : All P (tokens.take n) := h.subset (List.take_subset n tokens)

theorem drop (h : All P tokens) (n : Nat) : All P (tokens.drop n) := h.subset (List.drop_subset n tokens)

theorem dropLast (h : All P tokens) : All P tokens.dropLast := h.subset (List.dropLast_subset tokens)

theorem reverse (h : All P tokens) : All P tokens.reverse := fun t ht => h t (List.mem_reverse.mp ht)

theorem bracketed {line : Int} {condition body : List Token} (h : All P tokens)
    (hb : bracketed? line tokens = some (condition, body)) : All P condition ∧ All P body :=
  ⟨h.subset (isInfix_bracketed? hb).1.subset, h.subset (isInfix_bracketed? hb).2.subset⟩

theorem loopBracketed {line : Int} {header body : List Token} (h : All P tokens)
    (hb : loopBracketed? line tokens = some (header, body)) : All P header ∧ All P body :=
  ⟨h.subset (isInfix_loopBracketed? hb).1.subset, h.subset (isInfix_loopBracketed? hb).2.subset⟩

theorem splitOn (text : String) (h : All P tokens) : ∀ part ∈ splitOn text tokens, All P part :=
  fun _ hpart => h.subset (isInfix_splitOn text hpart).subset

theorem upToClosing {depth : Nat} {inside rest : List Token} (h : All P tokens)
    (hc : upToClosing? depth tokens = some (inside, rest)) : All P inside ∧ All P rest :=
  ⟨h.subset (isInfix_upToClosing? hc).1.subset, h.subset (isInfix_upToClosing? hc).2.subset⟩

end All

end Bang.Statement
