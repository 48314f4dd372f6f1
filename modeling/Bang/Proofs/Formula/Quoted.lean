import Bang.Proofs.Formula.Lexing

/-! Texts put between quotes as they are, and what an expression reads from them. A text without a quote reads
back as itself exactly if it is inert: no line break, no null character, and no backslash that means something. -/

namespace Bang

namespace Text

def isEscape (c : Char) : Bool :=
  c ∈ ['\n', '\\', '\'', '"', 'a', 'b', 'f', 'n', 'r', 't', 'v', 'x', 'u', 'U', 'N'] || isOctal c

/-- Not a backslash, or one that means nothing before the text behind it. -/
def isPlainBefore (c : Char) (cs : List Char) : Bool := c != '\\' || cs.head?.any (!isEscape ·)

def isInert : List Char → Bool
  | [] => true
  | c :: cs => !(c ∈ ['\x00', '\n', '\r']) && isPlainBefore c cs && isInert cs

variable {c : Char} {cs text : List Char} {length : Nat}

theorem isPlainBefore_backslash (h : isPlainBefore '\\' cs = true) : ∃ c cs', cs = c :: cs' ∧ isEscape c = false := by
  cases cs with
  | nil => cases h
  | cons c cs => exact ⟨c, cs, rfl, by simpa [isPlainBefore] using h⟩

theorem isInert_cons :
    isInert (c :: cs) = true ↔
      (c ≠ '\x00' ∧ c ≠ '\n' ∧ c ≠ '\r') ∧ isPlainBefore c cs = true ∧ isInert cs = true := by
  rw [isInert, Bool.and_eq_true, Bool.and_eq_true, and_assoc]
  simp

theorem not_mem_of_isInert (h : isInert cs = true) : '\x00' ∉ cs ∧ '\r' ∉ cs := by
  induction cs with
  | nil => simp
  | cons c cs ih =>
    obtain ⟨⟨hnull, _, hreturn⟩, _, hrest⟩ := isInert_cons.mp h
    have := ih hrest
    simp [hnull.symm, hreturn.symm, this]

theorem escape?_of_not_isEscape (h : isEscape c = false) : escape? (c :: cs) = some (['\\'], 0) := by
  simp only [isEscape, List.mem_cons, List.not_mem_nil, or_false, Bool.or_eq_false_iff, decide_eq_false_iff_not,
    not_or] at h
  obtain ⟨⟨h1, h2, h3, h4, h5, h6, h7, h8, h9, h10, h11, h12, h13, h14, h15⟩, hoctal⟩ := h
  simp [escape?, *]

theorem codeEscape?_eq_some {width : Nat} (h : codeEscape? width cs = some (text, length)) :
    text.length = 1 ∧ length = width + 1 := by
  simp only [codeEscape?, Option.ite_none_right_eq_some, Option.map_eq_some_iff, Prod.mk.injEq] at h
  obtain ⟨_, _, _, rfl, rfl⟩ := h
  exact ⟨rfl, rfl⟩

theorem escape?_of_isEscape (hc : isEscape c = true) (h : escape? (c :: cs) = some (text, length)) :
    text.length ≤ 1 ∧ 0 < length := by
  unfold escape? at h
  dsimp only at h
  split at h
  case h_12 | h_13 | h_14 =>
    -- Characters by their codes: `x`, `u` and `U`.
    have := codeEscape?_eq_some h
    omega
  case h_15 => cases h
  case h_16 =>
    have hoctal : isOctal c = true := by
      simp only [isEscape, List.mem_cons, List.not_mem_nil, or_false, Bool.or_eq_true, decide_eq_true_eq] at hc
      grind only
    rw [if_pos hoctal] at h
    cases h
    simp [hoctal]
  all_goals
    cases h
    simp

theorem escape?_length (h : escape? cs = some (text, length)) : text.length ≤ 1 := by
  cases cs with
  | nil =>
    obtain ⟨rfl, _⟩ := Prod.mk.inj (Option.some.inj h)
    exact Nat.le_refl 1
  | cons c cs =>
    cases hc : isEscape c with
    | true => exact (escape?_of_isEscape hc h).1
    | false =>
      rw [escape?_of_not_isEscape hc] at h
      obtain ⟨rfl, _⟩ := Prod.mk.inj (Option.some.inj h)
      exact Nat.le_refl 1

theorem unescape_length {skip : Nat} {t : List Char} (h : unescape skip cs = some t) :
    t.length ≤ cs.length - skip := by
  induction cs generalizing skip t with
  | nil =>
    obtain rfl : [] = t := by simpa [unescape] using h
    simp
  | cons c cs ih =>
    cases skip with
    | succ skip => simpa using ih h
    | zero =>
      rw [unescape] at h
      split at h
      · split at h
        · rename_i text length hescape
          obtain ⟨t', ht', rfl⟩ := Option.map_eq_some_iff.mp h
          have htext := escape?_length hescape
          have hrest := ih ht'
          simp only [List.length_append, List.length_cons]
          omega
        · cases h
      · obtain ⟨t', ht', rfl⟩ := Option.map_eq_some_iff.mp h
        have hrest := ih ht'
        simpa using hrest

theorem unescape_cons (h : isPlainBefore c cs = true) : unescape 0 (c :: cs) = (unescape 0 cs).map (c :: ·) := by
  by_cases hc : c = '\\'
  · subst hc
    obtain ⟨c', cs', rfl, hc'⟩ := isPlainBefore_backslash h
    rw [unescape, escape?_of_not_isEscape hc']
    rfl
  · rw [unescape, if_neg (by simpa using hc)]

theorem unescape_of_isInert (h : isInert cs = true) : unescape 0 cs = some cs := by
  induction cs with
  | nil => rfl
  | cons c cs ih =>
    obtain ⟨_, hplain, hrest⟩ := isInert_cons.mp h
    rw [unescape_cons hplain, ih hrest]
    rfl

theorem unescape_length_lt {t : List Char} (h : isPlainBefore c cs = false) (hcs : cs ≠ [])
    (ht : unescape 0 (c :: cs) = some t) : t.length < (c :: cs).length := by
  simp only [isPlainBefore, Bool.or_eq_false_iff, bne_eq_false_iff_eq] at h
  obtain ⟨rfl, hhead⟩ := h
  obtain ⟨c', cs', rfl⟩ := List.exists_cons_of_ne_nil hcs
  have hc' : isEscape c' = true := by simpa using hhead
  rw [unescape] at ht
  cases hescape : escape? (c' :: cs') with
  | none => simp [hescape] at ht
  | some taken =>
    obtain ⟨text, length⟩ := taken
    rw [hescape] at ht
    obtain ⟨t', ht', rfl⟩ := Option.map_eq_some_iff.mp ht
    -- The escape takes the place of the backslash and one character at least, and stands for one at most.
    have htext := escape?_of_isEscape hc' hescape
    have hrest := unescape_length ht'
    simp only [List.length_append, List.length_cons] at hrest ⊢
    omega

end Text

namespace Formula

open Text

variable {c : Char} {cs v : List Char}

theorem lineBody?_cons {quote : Char} (hbackslash : c ≠ '\\') (hquote : c ≠ quote) (hline : c ≠ '\n') :
    lineBody? quote (c :: cs) = (lineBody? quote cs).map (c :: ·) := by
  simp [lineBody?, hbackslash, hquote, hline]

theorem lineBody?_quoted_cons (hplain : isPlainBefore c cs = true) (hquote : '"' ∉ c :: cs) (hline : c ≠ '\n')
    (rest : List Char) :
    lineBody? '"' (c :: cs ++ '"' :: rest) = (lineBody? '"' (cs ++ '"' :: rest)).map (c :: ·) := by
  rw [List.mem_cons, not_or] at hquote
  by_cases hc : c = '\\'
  · subst hc
    -- The backslash takes the next character along, which is none that would end the text.
    obtain ⟨c', cs', rfl, hc'⟩ := isPlainBefore_backslash hplain
    have hne : c' ≠ '"' := fun he => hquote.2 (he ▸ List.mem_cons_self)
    have hbackslash' : c' ≠ '\\' := by
      rintro rfl
      cases hc'
    have hline' : c' ≠ '\n' := by
      rintro rfl
      cases hc'
    simp only [List.cons_append]
    rw [lineBody?_cons hbackslash' hne hline', lineBody?, Option.map_map]
    rfl
  · exact lineBody?_cons hc (Ne.symm hquote.1) hline

theorem lineBody?_of_isInert (h : isInert cs = true) (hquote : '"' ∉ cs) (rest : List Char) :
    lineBody? '"' (cs ++ '"' :: rest) = some cs := by
  induction cs with
  | nil => rfl
  | cons c cs ih =>
    obtain ⟨⟨_, hline, _⟩, hplain, hrest⟩ := isInert_cons.mp h
    rw [lineBody?_quoted_cons hplain hquote hline, ih hrest fun hmem => hquote (List.mem_cons_of_mem c hmem)]
    rfl

theorem eq_of_lineBody? {body : List Char} (h : lineBody? '"' (cs ++ ['"']) = some body) (hquote : '"' ∉ cs) :
    body = cs := by
  induction cs using lineBody?.induct '"' generalizing body with
  | case1 => exact (Option.some.inj h).symm
  | case2 c cs ih =>
    obtain ⟨rest, hrest, rfl⟩ := Option.map_eq_some_iff.mp h
    rw [ih hrest fun hmem => hquote (List.mem_cons_of_mem _ (List.mem_cons_of_mem _ hmem))]
  | case3 c cs _ hc =>
    obtain rfl := beq_iff_eq.mp hc
    exact absurd List.mem_cons_self hquote
  | case4 c cs _ _ hc =>
    obtain rfl := beq_iff_eq.mp hc
    cases h
  | case5 c cs hlone hc hline ih =>
    by_cases hbackslash : c = '\\'
    · -- A backslash at the end of the text takes the closing quote along.
      subst hbackslash
      cases cs with
      | nil => cases h
      | cons c' cs' => exact (hlone c' cs' rfl rfl).elim
    · rw [List.cons_append, lineBody?_cons hbackslash (by simpa using hc) (by simpa using hline)] at h
      obtain ⟨rest, hrest, rfl⟩ := Option.map_eq_some_iff.mp h
      rw [ih hrest fun hmem => hquote (List.mem_cons_of_mem _ hmem)]

/-- A text that keeps its length when it is read stands for itself: every escape would make it
shorter. -/
theorem isInert_of_length {t : List Char} (hbody : lineBody? '"' (cs ++ ['"']) = some cs) (hquote : '"' ∉ cs)
    (hnull : '\x00' ∉ cs) (hreturn : '\r' ∉ cs) (ht : unescape 0 cs = some t) (hlength : t.length = cs.length) :
    isInert cs = true := by
  induction cs generalizing t with
  | nil => rfl
  | cons c cs ih =>
    have hline : c ≠ '\n' := by
      rintro rfl
      cases hbody
    have hplain : isPlainBefore c cs = true := by
      cases hmeans : isPlainBefore c cs with
      | true => rfl
      | false =>
        have hcs : cs ≠ [] := by
          rintro rfl
          obtain rfl : c = '\\' := by simpa [isPlainBefore] using hmeans
          cases hbody
        have := unescape_length_lt hmeans hcs ht
        omega
    rw [lineBody?_quoted_cons hplain hquote hline] at hbody
    rw [unescape_cons hplain] at ht
    obtain ⟨body, hbody', hcons⟩ := Option.map_eq_some_iff.mp hbody
    obtain rfl := List.tail_eq_of_cons_eq hcons
    obtain ⟨t', ht', rfl⟩ := Option.map_eq_some_iff.mp ht
    rw [List.mem_cons, not_or] at hquote hnull hreturn
    have hinert := ih hbody' hquote.2 hnull.2 hreturn.2 ht' (by simpa using hlength)
    exact isInert_cons.mpr ⟨⟨Ne.symm hnull.1, hline, Ne.symm hreturn.1⟩, hplain, hinert⟩

/-! ### Line breaks -/

theorem unifyLines_append_quote (cs : List Char) : unifyLines (cs ++ ['"']) = unifyLines cs ++ ['"'] := by
  fun_induction unifyLines cs with
  | case1 => rfl
  | case2 cs ih => simp [unifyLines, ih]
  | case3 cs hline ih =>
    rw [List.cons_append, unifyLines.eq_3, ih, List.cons_append]
    intro cs' hcs'
    cases cs with
    | nil => cases hcs'
    | cons c cs => exact hline cs (by rw [(List.cons.inj hcs').1])
  | case4 c cs _ hreturn ih =>
    rw [List.cons_append, unifyLines_cons hreturn, ih, List.cons_append]

theorem length_unifyLines_le (cs : List Char) : (unifyLines cs).length ≤ cs.length := by
  fun_induction unifyLines cs <;> grind

theorem not_mem_unifyLines (h : c ∉ cs) (hline : c ≠ '\n') : c ∉ unifyLines cs := by
  fun_induction unifyLines cs <;> grind

theorem return_not_mem_unifyLines (cs : List Char) : '\r' ∉ unifyLines cs := by
  fun_induction unifyLines cs <;> grind

/-! ### Reading a quoted text -/

def quotedText? (cs : List Char) : Option (List Char) := (lineBody? '"' (cs ++ ['"'])).bind (unescape 0)

theorem quotedText?_of_isInert (h : isInert cs = true) (hquote : '"' ∉ cs) : quotedText? cs = some cs := by
  rw [quotedText?, lineBody?_of_isInert h hquote, Option.bind_some, unescape_of_isInert h]

theorem string?_line (hquote : '"' ∉ cs) {rest : List Char} (hrest : rest.head? ≠ some '"') :
    string? '"' (cs ++ '"' :: rest) = (do
      let body ← lineBody? '"' (cs ++ '"' :: rest)
      return (← unescape 0 body, body.length + 2)) := by
  have hopen : ((cs ++ '"' :: rest).take 2 == ['"', '"']) = false := by
    cases cs with
    | nil =>
      cases rest with
      | nil => rfl
      | cons c rest =>
        have hc : c ≠ '"' := by simpa using hrest
        simp [hc]
    | cons c cs =>
      have hc : c ≠ '"' := fun he => hquote (he ▸ List.mem_cons_self)
      simp [hc]
  rw [string?, hopen, if_neg Bool.false_ne_true]

theorem lexeme?_quote (cs : List Char) :
    lexeme? ('"' :: cs) = (string? '"' cs).map fun (t, length) => (some (.text t), length) := rfl

theorem string?_quoted (hquote : '"' ∉ cs) :
    string? '"' (cs ++ ['"']) = (quotedText? cs).map fun t => (t, cs.length + 2) := by
  rw [string?_line hquote (by simp), quotedText?]
  cases hbody : lineBody? '"' (cs ++ ['"']) with
  | none => rfl
  | some body =>
    obtain rfl := eq_of_lineBody? hbody hquote
    cases htext : unescape 0 body <;> simp [htext]

theorem lexemesFrom_quoted (hquote : '"' ∉ cs) :
    lexemesFrom 0 ('"' :: cs ++ ['"']) = (quotedText? cs).map fun t => [.text t] := by
  rw [List.cons_append, lexemesFrom, lexeme?_quote, string?_quoted hquote]
  cases quotedText? cs with
  | none => rfl
  | some t =>
    simp only [Option.map_some]
    rw [lexemesFrom_eq_drop, List.drop_of_length_le (by simp)]
    rfl

theorem parse?_quoted (hquote : '"' ∉ v) :
    parse? ('"' :: v ++ ['"']) = (quotedText? (unifyLines v)).map fun t => .constant (.str (String.ofList t)) := by
  have hunify : unifyLines ('"' :: v ++ ['"']) = '"' :: unifyLines v ++ ['"'] := by
    rw [List.cons_append, unifyLines_cons (by decide), unifyLines_append_quote, List.cons_append]
  rw [parse?, lexemes, hunify, lexemesFrom_quoted (not_mem_unifyLines hquote (by decide))]
  cases quotedText? (unifyLines v) <;> rfl

theorem isInert_of_quotedText? (hquote : '"' ∉ v) (hnull : '\x00' ∉ v) (h : quotedText? (unifyLines v) = some v) :
    isInert v = true := by
  have hquote' := not_mem_unifyLines hquote (by decide)
  have hnull' := not_mem_unifyLines hnull (by decide)
  obtain ⟨body, hbody, htext⟩ := Option.bind_eq_some_iff.mp h
  obtain rfl := eq_of_lineBody? hbody hquote'
  have hlength : v.length = (unifyLines v).length :=
    Nat.le_antisymm (unescape_length htext) (length_unifyLines_le v)
  have hinert := isInert_of_length hbody hquote' hnull' (return_not_mem_unifyLines v) htext hlength
  rw [unescape_of_isInert hinert] at htext
  rwa [Option.some.inj htext] at hinert

theorem evaluate_quoted_iff (hquote : '"' ∉ v) :
    evaluate ('"' :: v ++ ['"']) = .ok (.str (String.ofList v)) ↔ isInert v = true := by
  have hnull : '\x00' ∈ '"' :: v ++ ['"'] ↔ '\x00' ∈ v := by simp
  unfold evaluate
  simp only [hnull, parse?_quoted hquote]
  constructor
  · intro h
    split at h
    · cases h
    · rename_i hv
      cases htext : quotedText? (unifyLines v) with
      | none =>
        rw [htext] at h
        cases h
      | some t =>
        rw [htext] at h
        have ht : t = v := by simpa [Expr.eval, String.ofList_inj] using h
        exact isInert_of_quotedText? hquote hv (ht ▸ htext)
  · intro h
    obtain ⟨hv, hreturn⟩ := not_mem_of_isInert h
    rw [if_neg hv, unifyLines_of_not_mem hreturn, quotedText?_of_isInert h hquote]
    simp [Expr.eval]

end Formula

end Bang
