import Bang.Proofs.Renumber.Functions
import Bang.Proofs.Strings
import Bang.Proofs.Token.Breaks

/-! Comments taken out of a program. The tokens stay the same, but each `!` in a comment counts as the end of a
line, so without the comment all that stands behind it moves to an earlier line. A program can tell only if a
statement begins before the comment, on the same line, and has its brackets behind it, or if it reads its functions
as a value. -/

namespace Bang

theorem Assoc.filter_insert {α : Type} (m : Assoc α) (key : String) (a : α) :
    (m.insert key a).entries.filter (·.1 != key) = m.entries.filter (·.1 != key) := by
  obtain ⟨entries⟩ := m
  change (put key a entries).filter (·.1 != key) = entries.filter (·.1 != key)
  induction entries with
  | nil => simp [put]
  | cons entry rest ih =>
    by_cases hkey : key = entry.1
    · simp [put, hkey]
    · simp [put, hkey, ih, List.filter_cons]

namespace Token

variable {d : Dialect} {line shift : Nat} {before body rest : List Char} {tokens : List Token}

/-! ### The lines without a comment -/

/-- The line that is left of a line when a comment with some `!` in it goes. -/
def lineWithout (line shift : Nat) (l : Int) : Int := if l ≤ line then l else l - shift

theorem lineWithout_of_le {l : Int} (h : l ≤ line) : lineWithout line shift l = l := if_pos h

theorem lineWithout_of_ge {l : Int} (h : (line + shift : Int) ≤ l) : lineWithout line shift l = l - shift := by
  unfold lineWithout
  split
  · omega
  · rfl

theorem map_renumber_of_le (h : ∀ t ∈ tokens, t.line ≤ line) :
    tokens.map (.renumber (lineWithout line shift)) = tokens := by
  refine (List.map_congr_left fun t ht => ?_).trans (List.map_id' tokens)
  unfold Token.renumber
  rw [lineWithout_of_le (h t ht)]

theorem tokensOf_renumber {φ : Int → Int} (h : ∀ l : Int, (line + shift : Int) ≤ l → φ l = l - shift)
    (pieces : List (Rule × List Char)) :
    (tokensOf (line + shift) pieces).map (.renumber φ) = tokensOf line pieces := by
  induction pieces generalizing line with
  | nil => rfl
  | cons piece pieces ih =>
    obtain ⟨rule, text⟩ := piece
    have hlater := @ih (line + text.count '!') fun l hl => h l (by push_cast at hl; omega)
    have hline : φ ((line + shift : Nat) : Int) = line := by
      rw [h _ (by push_cast; omega)]
      push_cast
      omega
    rw [tokensOf, tokensOf, List.map_append, Nat.add_right_comm line shift, hlater]
    refine congrArg (· ++ _) ?_
    cases rule.isSilent with
    | true => rfl
    | false => exact congrArg (fun l => [(⟨rule.kind, String.ofList text, l⟩ : Token)]) hline

theorem Lexes.without (h : Lexes d (line + shift) rest tokens) :
    Lexes d line rest (tokens.map (.renumber (lineWithout line shift))) := by
  obtain ⟨pieces, hpieces, rfl, rfl⟩ := h
  exact ⟨pieces, hpieces, rfl, tokensOf_renumber (fun _ => lineWithout_of_ge) pieces⟩

/-! ### Comments -/

/-- A `#` outside strings with all that stands behind it on its line. -/
structure IsComment (d : Dialect) (before body rest : List Char) : Prop where
  line : '\n' ∉ body
  ends : ∀ c, rest.head? = some c → c = '\n'
  outside : ¬ StringAcross d before ('#' :: body ++ rest)

theorem Rule.head?_of_string? {cs text : List Char} (h : string? cs = some text) : cs.head? = some '"' := by
  unfold string? at h
  split at h
  · rfl
  · cases h

theorem not_stringAcross_of_quotes {tail : List Char} (hbefore : '"' ∉ before) (htail : tail.head? ≠ some '"') :
    ¬ StringAcross d before tail := by
  rintro ⟨pieces, opening, text, rfl, _, hstring, _⟩
  have hquote := Rule.head?_of_string? (Rule.first?_eq_some_iff.mp hstring).1
  cases opening with
  | nil => exact htail hquote
  | cons c cs =>
    obtain rfl : c = '"' := Option.some.inj hquote
    exact hbefore (by simp)

namespace IsComment

theorem lexes_commented (h : IsComment d before body rest) :
    Lexes d line (before ++ ('#' :: body ++ rest)) tokens ↔ ∃ front back, Lexes d line before front ∧
      Lexes d (line + before.count '!' + body.count '!') rest back ∧ tokens = front ++ back := by
  have hbreak : IsBreak ('#' :: body ++ rest) := fun c hc => .inr (Option.some.inj hc).symm
  rw [hbreak.splits h.outside]
  simp only [lexes_comment h.line h.ends]

theorem lexes_plain (h : IsComment d before body rest) :
    Lexes d line (before ++ rest) tokens ↔ ∃ front back, Lexes d line before front ∧
      Lexes d (line + before.count '!') rest back ∧ tokens = front ++ back :=
  IsBreak.splits (fun c hc => .inl (h.ends c hc)) (not_stringAcross h.ends) line tokens

end IsComment

end Token

namespace Program

open Token

variable {d : Dialect} {limits : Limits} {before body rest : List Char} {s : State}

def commented (before body rest : List Char) : String := String.ofList (before ++ ('#' :: body ++ rest))

def uncommented (before rest : List Char) : String := String.ofList (before ++ rest)

def commentLine (before : List Char) : Nat := 1 + before.count '!'

theorem tokenize_commented_iff (h : IsComment d before body rest) {tokens : List Token} :
    tokenize d (commented before body rest) = .ok tokens ↔ ∃ front back, Lexes d 1 before front ∧
      Lexes d (commentLine before + body.count '!') rest back ∧ tokens = front ++ back := by
  rw [tokenize_eq_ok_iff, commented, String.toList_ofList]
  exact h.lexes_commented

theorem tokenize_uncommented_iff (h : IsComment d before body rest) {tokens : List Token} :
    tokenize d (uncommented before rest) = .ok tokens ↔ ∃ front back, Lexes d 1 before front ∧
      Lexes d (commentLine before) rest back ∧ tokens = front ++ back := by
  rw [tokenize_eq_ok_iff, uncommented, String.toList_ofList]
  exact h.lexes_plain

theorem tokenize_comment (h : IsComment d before body rest) :
    (∃ front back, Lexes d 1 before front ∧ Lexes d (commentLine before + body.count '!') rest back ∧
      tokenize d (commented before body rest) = .ok (front ++ back) ∧
      tokenize d (uncommented before rest) =
        .ok ((front ++ back).map (.renumber (lineWithout (commentLine before) (body.count '!'))))) ∨
    ∃ stuck stuck', tokenize d (commented before body rest) = .error stuck ∧
      tokenize d (uncommented before rest) = .error stuck' := by
  cases htokens : tokenize d (commented before body rest) with
  | ok tokens =>
    obtain ⟨front, back, hbefore, hrest, rfl⟩ := (tokenize_commented_iff h).mp htokens
    have hfront : front.map (.renumber (lineWithout (commentLine before) (body.count '!'))) = front :=
      map_renumber_of_le fun t ht => (hbefore.line_le ht).2
    have hplain := (tokenize_uncommented_iff h).mpr ⟨front, _, hbefore, hrest.without, rfl⟩
    refine .inl ⟨front, back, hbefore, hrest, rfl, ?_⟩
    rw [hplain, List.map_append, hfront]
  | error stuck =>
    refine .inr ⟨stuck, ?_⟩
    cases hagain : tokenize d (uncommented before rest) with
    | error stuck' => exact ⟨stuck', rfl, rfl⟩
    | ok tokens =>
      obtain ⟨front, _, hbefore, ⟨pieces, hpieces, hcs, _⟩, _⟩ := (tokenize_uncommented_iff h).mp hagain
      have hok := (tokenize_commented_iff h).mpr ⟨front, _, hbefore, ⟨pieces, hpieces, hcs, rfl⟩, rfl⟩
      rw [htokens] at hok
      cases hok

theorem tokenize_quiet (h : IsComment d before body rest) (hbody : '!' ∉ body) :
    (tokenize d (uncommented before rest)).toOption = (tokenize d (commented before body rest)).toOption := by
  rcases tokenize_comment h with ⟨front, back, _, _, hcommented, hplain⟩ | ⟨stuck, stuck', hcommented, hplain⟩
  · have hsame : lineWithout (commentLine before) (body.count '!') = id := by
      funext l
      rw [List.count_eq_zero.mpr hbody]
      unfold lineWithout
      split
      · rfl
      · exact Int.sub_zero l
    have hid : Token.renumber id = id := rfl
    rw [hcommented, hplain, hsame, hid, List.map_id]
  · rw [hcommented, hplain]
    rfl

/-! ### Brackets behind a comment -/

section Brackets

open Statement

variable {φ : Int → Int} {line shift : Nat} {tokens front back : List Token}

/-- A statement begins before the comment, on the same line, and misses a bracket that stands first
behind it. -/
def HidesBracket (d : Dialect) (line shift : Nat) (front back : List Token) : Prop :=
  ∃ (earlier : List Token) (first : Token) (later : List Token), unstarted front = earlier ++ first :: later ∧
    startsBehind earlier = true ∧ first.line = line ∧ seeksBrackets d (first :: later ++ unstarted back) = true ∧
      ∃ text ∈ ["(", ")"], bracket text line ∉ first :: later ∧ bracket text (line + shift) ∈ back

theorem findsBracket_of_line {l : Int} {text : String}
    (h : ∀ u ∈ tokens, u = bracket text u.line → φ u.line = φ l → u.line = l) : FindsBracket φ l text tokens := by
  unfold FindsBracket
  induction tokens with
  | nil => rfl
  | cons t ts ih =>
    have hsame : (t.renumber φ == bracket text (φ l)) = (t == bracket text l) := by
      rw [Bool.eq_iff_iff, beq_iff_eq, beq_iff_eq]
      constructor
      · intro heq
        have hbracket : t = bracket text t.line := congrArg (fun u : Token => { u with line := t.line }) heq
        rw [hbracket, h t List.mem_cons_self hbracket (congrArg Token.line heq)]
      · rintro rfl
        rfl
    rw [List.map_cons, List.idxOf?_cons, List.idxOf?_cons, hsame, ih fun u hu => h u (List.mem_cons_of_mem _ hu)]

theorem findsBracket_of_mem {l : Int} {text : String} (hfront : front.map (.renumber φ) = front) (hl : φ l = l)
    (hmem : bracket text l ∈ front) (back : List Token) : FindsBracket φ l text (front ++ back) := by
  unfold FindsBracket
  obtain ⟨i, hi⟩ : ∃ i, front.idxOf? (bracket text l) = some i := by
    rw [← Option.isSome_iff_exists, List.isSome_idxOf?]
    exact hmem
  have hfound (back : List Token) : (front ++ back).idxOf? (bracket text l) = some i := by
    unfold List.idxOf? at hi ⊢
    rw [List.findIdx?_append, hi]
    rfl
  rw [List.map_append, hfront, hl, hfound, hfound]

theorem findsBracket_behind {first : Token} {later : List Token}
    (h : ∀ u ∈ first :: later, (line + shift : Int) ≤ u.line) (text : String) :
    FindsBracket (lineWithout line shift) first.line text (first :: later) := by
  refine findsBracket_of_line fun u hu _ hlines => ?_
  rw [lineWithout_of_ge (h u hu), lineWithout_of_ge (h first List.mem_cons_self)] at hlines
  omega

theorem findsBracket_before {first : Token} {later : List Token} {text : String}
    (hfront : ∀ u ∈ first :: later, u.line ≤ line) (hback : ∀ u ∈ back, (line + shift : Int) ≤ u.line)
    (hseen : first.line = line → bracket text line ∉ first :: later → bracket text (line + shift) ∉ back) :
    FindsBracket (lineWithout line shift) first.line text (first :: later ++ back) := by
  have hfirst := hfront first List.mem_cons_self
  by_cases hmem : bracket text first.line ∈ first :: later
  · exact findsBracket_of_mem (map_renumber_of_le hfront) (lineWithout_of_le hfirst) hmem back
  · refine findsBracket_of_line fun u hu hbracket hlines => ?_
    rw [lineWithout_of_le hfirst] at hlines
    rcases List.mem_append.mp hu with hu | hu
    · rwa [lineWithout_of_le (hfront u hu)] at hlines
    · have hline := hback u hu
      rw [lineWithout_of_ge hline] at hlines
      -- Only a bracket that was the first behind the comment comes to the line of the statement.
      have hfirstLine : first.line = line := by omega
      have huLine : u.line = line + shift := by omega
      rw [huLine] at hbracket
      rw [hfirstLine] at hmem
      exact absurd (hbracket ▸ hu) (hseen hfirstLine hmem)

theorem faithful_lineWithout (hfront : ∀ t ∈ front, t.line ≤ line) (hback : ∀ t ∈ back, (line + shift : Int) ≤ t.line)
    (hhides : ¬ HidesBracket d line shift front back) :
    Faithful (lineWithout line shift) d (unstarted (front ++ back)) := by
  intro earlier first rest hwhole hbehind hseeks text htext
  have hbacks : ∀ t ∈ unstarted back, (line + shift : Int) ≤ t.line := fun t ht => hback t (List.mem_filter.mp ht).1
  have hsplit : unstarted (front ++ back) = unstarted front ++ unstarted back := List.filter_append ..
  rw [hsplit] at hwhole
  rcases List.append_eq_append_iff.mp hwhole with ⟨skipped, _, hskipped⟩ | ⟨kept, hkept, hrest⟩
  · refine findsBracket_behind (fun u hu => hbacks u ?_) text
    rw [hskipped]
    exact List.mem_append_right skipped hu
  · cases kept with
    | nil => exact findsBracket_behind (fun u hu => hbacks u (by rwa [hrest] at hu)) text
    | cons t later =>
      obtain ⟨rfl, rfl⟩ := List.cons.inj hrest
      refine findsBracket_before (fun u hu => hfront u ?_) hbacks fun hline hmissing hfound => hhides ?_
      · have hmem : u ∈ unstarted front := by
          rw [hkept]
          exact List.mem_append_right earlier hu
        exact (List.mem_filter.mp hmem).1
      · have hmem : bracket text (line + shift) ∈ back := (List.mem_filter.mp hfound).1
        exact ⟨earlier, first, later, hkept, hbehind, hline, hseeks, text, htext, hmissing, hmem⟩

end Brackets

/-! ### Outcomes -/

def vars (d : Dialect) (s : State) : List (String × Binding) :=
  s.scope.table.entries.filter fun entry => d == .basic || entry.1 != functionsName

/-- Two runs that both end well or both fail, with the same variables and printed lines. -/
structure SameOutcome (d : Dialect) (x y : Outcome × State) : Prop where
  result : y.1.result.isOk = x.1.result.isOk
  vars : vars d y.2 = vars d x.2
  logs : y.2.logs = x.2.logs

/-- A comment with a `!` that hides a bracket, or that moves functions which the program reads as a
value. -/
def Disturbs (d : Dialect) (before body rest : List Char) : Prop :=
  '!' ∈ body ∧ ∃ front back, Lexes d 1 before front ∧ Lexes d (commentLine before + body.count '!') rest back ∧
    (HidesBracket d (commentLine before) (body.count '!') front back ∨
      d = .extended ∧ ∃ t ∈ front ++ back, t.text = functionsName)

-- The functions that a program reads as a value tell their lines.
example : (run .extended ⟨2, 0⟩ "INICIO # !\nfunc f(a)\x7b\x7d print(__funciones__)! FIN" {}).2.logs ≠
    (run .extended ⟨2, 0⟩ "INICIO \nfunc f(a)\x7b\x7d print(__funciones__)! FIN" {}).2.logs := by
  decide +kernel

theorem vars_withFunctions (s : State) (ns : Namespace) :
    vars .extended { s with scope := s.scope.withFunctions ns } = vars .extended s :=
  Assoc.filter_insert s.scope.table functionsName _

theorem sameOutcome_of_matched {R : State → State → Prop} {tokens tokens' : List Token} {code code' : String}
    (hR : ∀ t t', R t t' → vars d t' = vars d t ∧ t'.logs = t.logs)
    (hcode : tokenize d code = .ok tokens) (hcode' : tokenize d code' = .ok tokens')
    (h : Matched R ((statements d limits tokens : Run Unit).run (start d { s with logs := [] }))
      ((statements d limits tokens' : Run Unit).run (start d { s with logs := [] }))) :
    SameOutcome d (run d limits code s) (run d limits code' s) := by
  rcases hrun : (statements d limits tokens : Run Unit).run (start d { s with logs := [] }) with ⟨result, t⟩
  rcases hrun' : (statements d limits tokens' : Run Unit).run (start d { s with logs := [] }) with ⟨result', t'⟩
  rw [hrun, hrun'] at h
  obtain ⟨hresult, hstates⟩ := h
  obtain ⟨hvariables, hlogs⟩ := hR t t' hstates
  cases result with
  | ok u =>
    cases result' with
    | ok u' =>
      rw [run_of_ok hcode hrun, run_of_ok hcode' hrun']
      exact ⟨rfl, hvariables, hlogs⟩
    | error fault => cases hresult
  | error fault =>
    cases result' with
    | ok u' => cases hresult
    | error fault' =>
      rw [run_of_error hcode hrun, run_of_error hcode' hrun']
      exact ⟨rfl, rfl, hlogs⟩

theorem sameOutcome_of_toOption {code code' : String} (h : (tokenize d code').toOption = (tokenize d code).toOption)
    (limits : Limits) (s : State) : SameOutcome d (run d limits code s) (run d limits code' s) := by
  cases hcode : tokenize d code with
  | error stuck =>
    cases hcode' : tokenize d code' with
    | error stuck' =>
      rw [run_of_stuck hcode, run_of_stuck hcode']
      exact ⟨rfl, rfl, rfl⟩
    | ok tokens' =>
      rw [hcode, hcode'] at h
      cases h
  | ok tokens =>
    cases hcode' : tokenize d code' with
    | error stuck' =>
      rw [hcode, hcode'] at h
      cases h
    | ok tokens' =>
      rw [hcode, hcode'] at h
      obtain rfl : tokens' = tokens := Option.some.inj h
      rw [run_of_tokens hcode, run_of_tokens hcode']
      exact ⟨rfl, rfl, rfl⟩

theorem sameOutcome_renumber {φ : Int → Int} {tokens : List Token} {code code' : String}
    (hcode : tokenize d code = .ok tokens) (hcode' : tokenize d code' = .ok (tokens.map (.renumber φ)))
    (hfaithful : Statement.Faithful φ d (unstarted tokens))
    (hname : d = .extended → ∀ t ∈ tokens, t.text ≠ functionsName) :
    SameOutcome d (run d limits code s) (run d limits code' s) := by
  cases d with
  | basic =>
    refine sameOutcome_of_matched (fun t t' h => ⟨?_, h.logs⟩) hcode hcode'
      (matching.basic_statements hfaithful limits _ _ (.refl _))
    unfold vars
    rw [h.scope]
  | extended =>
    refine sameOutcome_of_matched ?_ hcode hcode' (matching.extended_statements hfaithful
      (fun t ht => hname rfl t (List.mem_filter.mp ht).1) limits _ _ ?_)
    · rintro t t' ⟨ns, _, _, halike⟩
      refine ⟨?_, halike.logs⟩
      rw [← vars_withFunctions t (ns.renumber φ)]
      unfold vars
      rw [halike.scope]
    · exact ⟨.empty, ⟨rfl, rfl⟩, nofun, .refl _⟩

theorem sameOutcome_of_comment (h : IsComment d before body rest) (hquiet : ¬ Disturbs d before body rest)
    (limits : Limits) (s : State) :
    SameOutcome d (run d limits (commented before body rest) s) (run d limits (uncommented before rest) s) := by
  by_cases hbody : '!' ∈ body
  · rcases tokenize_comment h with ⟨front, back, hfront, hback, hcommented, hplain⟩ |
      ⟨stuck, stuck', hcommented, hplain⟩
    · have hlines (t : Token) (ht : t ∈ back) : (commentLine before + body.count '!' : Int) ≤ t.line := by
        have hline := (hback.line_le ht).1
        push_cast at hline
        exact hline
      refine sameOutcome_renumber hcommented hplain (faithful_lineWithout (fun t ht => ?_) hlines fun hhides => ?_) ?_
      · have hline := (hfront.line_le ht).2
        unfold commentLine
        push_cast
        exact hline
      · exact hquiet ⟨hbody, front, back, hfront, hback, .inl hhides⟩
      · intro hd t ht htext
        exact hquiet ⟨hbody, front, back, hfront, hback, .inr ⟨hd, t, ht, htext⟩⟩
    · rw [run_of_stuck hcommented, run_of_stuck hplain]
      exact ⟨rfl, rfl, rfl⟩
  · exact sameOutcome_of_toOption (tokenize_quiet h hbody) limits s

/-! ### A comment that hides a bracket -/

def printBefore : List Char := "INICIO print ".toList

def printBehind : List Char := "\n(1)! FIN".toList

def printTokens (line : Int) : List Token :=
  [⟨.keyword, "print", 1⟩, ⟨.symbol, "(", line⟩, ⟨.number, "1", line⟩, ⟨.symbol, ")", line⟩]

theorem lexes_printBefore (d : Dialect) : Lexes d 1 printBefore [⟨.start, "INICIO", 1⟩, ⟨.keyword, "print", 1⟩] := by
  refine ⟨[(.start, "INICIO".toList), (.blank, [' ']), (.keyword, "print".toList), (.blank, [' '])], ?_, rfl, rfl⟩
  cases d <;>
    exact .cons (by decide) rfl <| .cons (by decide) rfl <| .cons (by decide) rfl <| .cons (by decide) rfl .nil

theorem lexes_printBehind (d : Dialect) (line : Nat) :
    Lexes d line printBehind ((printTokens line).tail ++ [⟨.symbol, "!", line⟩, ⟨.finish, "FIN", line + 1⟩]) := by
  refine ⟨[(.blank, ['\n']), (.symbol, ['(']), (.number, ['1']), (.symbol, [')']), (.symbol, ['!']), (.blank, [' ']),
    (.finish, "FIN".toList)], ?_, rfl, rfl⟩
  cases d <;>
    exact .cons (by decide) rfl <| .cons (by decide) rfl <| .cons (by decide) rfl <| .cons (by decide) rfl <|
      .cons (by decide) rfl <| .cons (by decide) rfl <| .cons (by decide) rfl .nil

theorem isOk_printTokens (line : Int) (s : State) :
    ((Statement.print (printTokens line) : Run Unit).run s).1.isOk = decide (line = 1) := by
  by_cases hline : line = 1
  · subst hline
    rfl
  · have hprint : (Statement.print (printTokens line) : Run Unit) = Machine.report (.printForm 1) := by
      apply print_of_not_mem
      simp [Statement.bracket, Ne.symm hline]
    rw [hprint, decide_eq_false hline]
    rfl

theorem isOk_run_print {code : String} {line line' : Int} (hdepth : 0 < limits.depth)
    (h : tokenize d code =
      .ok (⟨.start, "INICIO", 1⟩ :: (printTokens line ++ [⟨.symbol, "!", line⟩, ⟨.finish, "FIN", line'⟩]))) :
    (run d limits code s).1.result.isOk = decide (line = 1) := by
  have hplain : Statement.All Statement.IsPlain (printTokens line) :=
    .cons ⟨rfl, rfl⟩ <| .cons ⟨rfl, rfl⟩ <| .cons ⟨rfl, rfl⟩ <| .cons ⟨rfl, rfl⟩ .nil
  have hinner : Statement.All Statement.IsInner (printTokens line) :=
    .cons ⟨nofun, nofun⟩ <| .cons ⟨nofun, nofun⟩ <| .cons ⟨nofun, nofun⟩ <| .cons ⟨nofun, nofun⟩ .nil
  have hexec : (Statement.exec d limits.rounds limits.depth (printTokens line) : Run Unit) =
      Statement.print (printTokens line) := exec_print hdepth rfl _
  rw [run_of_tokens h, statements_single d limits hplain hinner line line', hexec, bind_pure_unit]
  exact (congrArg Except.isOk (fst_finish _ _)).trans (isOk_printTokens line _)

theorem exists_disturbed (d : Dialect) (hline : '\n' ∉ body) (hbody : '!' ∈ body) :
    ∃ before rest, IsComment d before body rest ∧ ∀ limits : Limits, 0 < limits.depth → ∀ s : State,
      (run d limits (commented before body rest) s).1.result.isOk = false ∧
        (run d limits (uncommented before rest) s).1.result.isOk = true := by
  have hcomment : IsComment d printBefore body printBehind :=
    ⟨hline, fun c hc => (Option.some.inj hc).symm, not_stringAcross_of_quotes (by decide) (by simp)⟩
  refine ⟨printBefore, printBehind, hcomment, fun limits hdepth s => ⟨?_, ?_⟩⟩
  · have htokens := (tokenize_commented_iff hcomment).mpr
      ⟨_, _, lexes_printBefore d, lexes_printBehind d (1 + body.count '!'), rfl⟩
    have hcount : 0 < body.count '!' := List.count_pos_iff.mpr hbody
    have hmoved : ((1 + body.count '!' : Nat) : Int) ≠ 1 := by omega
    rw [isOk_run_print hdepth htokens, decide_eq_false hmoved]
  · have htokens := (tokenize_uncommented_iff hcomment).mpr ⟨_, _, lexes_printBefore d, lexes_printBehind d 1, rfl⟩
    exact isOk_run_print hdepth htokens

/-- A comment can go without a trace unless it has a `!` in it that hides a bracket or moves
functions which are read as a value. Every comment with a `!` does make a difference to some
program. -/
theorem sameOutcome_unless_disturbed (d : Dialect) (body : List Char) :
    (∀ before rest, IsComment d before body rest → ¬ Disturbs d before body rest → ∀ (limits : Limits) (s : State),
      SameOutcome d (run d limits (commented before body rest) s) (run d limits (uncommented before rest) s)) ∧
    ('!' ∉ body → ∀ before rest, IsComment d before body rest →
      (tokenize d (uncommented before rest)).toOption = (tokenize d (commented before body rest)).toOption) ∧
    ('\n' ∉ body → '!' ∈ body → ∃ before rest, IsComment d before body rest ∧
      ∀ limits : Limits, 0 < limits.depth → ∀ s : State,
        (run d limits (commented before body rest) s).1.result.isOk = false ∧
          (run d limits (uncommented before rest) s).1.result.isOk = true) := by
  refine ⟨fun before rest h hquiet => ?_, fun hbody before rest h => ?_, fun hline hbody => ?_⟩
  · exact sameOutcome_of_comment h hquiet
  · exact tokenize_quiet h hbody
  · exact exists_disturbed d hline hbody

theorem print_behind_comment :
    IsComment .basic "INICIO print ".toList " ojo!".toList "\n(1)! FIN".toList ∧
      (run .basic .standard "INICIO print # ojo!\n(1)! FIN" {}).1.result.isOk = false ∧
      (run .basic .standard "INICIO print \n(1)! FIN" {}).1.result.isOk = true ∧
      (run .basic .standard "INICIO print \n(1)! FIN" {}).2.logs = ["1"] :=
  ⟨⟨by decide, fun c hc => (Option.some.inj hc).symm, not_stringAcross_of_quotes (by decide) (by simp)⟩,
    by decide +kernel, by decide +kernel, by decide +kernel⟩

end Program

end Bang
