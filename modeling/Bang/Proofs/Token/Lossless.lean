import Bang.Proofs.Token.Minified
import Bang.Proofs.Token.Pattern

/-! Scanning loses nothing. The scan passes over a text piece by piece until it comes to the end or is stuck; if it
comes to the end, the text is made of the tokens found and of white space and comments between them. -/

namespace Bang.Token

open Text

/-! ### How far a scan comes -/

inductive Passes (d : Dialect) (rest : List Char) : List (Rule × List Char) → Prop
  | nil : Passes d rest []
  | cons {rule : Rule} {text : List Char} {pieces : List (Rule × List Char)} (hne : text ≠ [])
    (h : Rule.first? d (text ++ (pieces.flatMap Prod.snd ++ rest)) = some (rule, text)) (hrest : Passes d rest pieces) :
    Passes d rest ((rule, text) :: pieces)

section Passes

variable {d : Dialect} {pieces : List (Rule × List Char)} {rest : List Char}

theorem scanFrom_passes (h : Passes d rest pieces) (found : List Token) (line position : Nat) :
    scanFrom d found line position 0 (pieces.flatMap Prod.snd ++ rest) =
      scanFrom d ((tokensOf line pieces).reverse ++ found) (line + (pieces.flatMap Prod.snd).count '!')
        (position + (pieces.flatMap Prod.snd).length) 0 rest := by
  induction h generalizing found line position with
  | nil => rfl
  | @cons rule text pieces hne hfirst _ ih =>
    rw [List.flatMap_cons, List.append_assoc, scanFrom_append hne hfirst, ih, tokensOf, List.count_append,
      List.length_append, Nat.add_assoc, Nat.add_assoc]
    cases rule.isSilent <;> simp

theorem exists_passes (d : Dialect) (cs : List Char) :
    ∃ pieces rest, cs = pieces.flatMap Prod.snd ++ rest ∧ Passes d rest pieces ∧
      (rest = [] ∨ Rule.first? d rest = none) := by
  -- Each piece makes the text shorter.
  induction hlength : cs.length using Nat.strong_induction_on generalizing cs with
  | _ n ih =>
    cases hfirst : Rule.first? d cs with
    | none => exact ⟨[], cs, rfl, .nil, .inr hfirst⟩
    | some taken =>
      obtain ⟨rule, text⟩ := taken
      obtain ⟨hne, behind, rfl⟩ := Rule.isFront_take? (Rule.first?_eq_some_iff.mp hfirst).1
      have hshorter : behind.length < n := by
        have hpos := List.length_pos_iff.mpr hne
        rw [List.length_append] at hlength
        omega
      obtain ⟨pieces, rest, rfl, hpasses, hend⟩ := ih _ hshorter behind rfl
      exact ⟨(rule, text) :: pieces, rest, by simp, .cons hne hfirst hpasses, hend⟩

theorem scan_passes {code : String} (hcode : code.toList = pieces.flatMap Prod.snd ++ rest) (h : Passes d rest pieces)
    (hend : rest = [] ∨ Rule.first? d rest = none) :
    scan d code = ⟨tokensOf 1 pieces, rest.head?.map fun c =>
      ⟨1 + (pieces.flatMap Prod.snd).count '!', (pieces.flatMap Prod.snd).length, c⟩⟩ := by
  rw [scan, hcode, scanFrom_passes h]
  cases rest with
  | nil => simp [scanFrom]
  | cons c cs =>
    rcases hend with hnil | hnone
    · cases hnil
    · simp [scanFrom, hnone]

end Passes

/-! ### What stands between tokens -/

/-- White space and comments before the rest of a text. A comment goes on to the end of its line. -/
inductive Gap : (gap rest : List Char) → Prop
  | nil {rest : List Char} : Gap [] rest
  | blank {run gap rest : List Char} : run ≠ [] → (∀ c ∈ run, isBlank c = true) → Gap gap rest → Gap (run ++ gap) rest
  | comment {body gap rest : List Char} : (∀ c ∈ body, c ≠ '\n') → (∀ c, (gap ++ rest).head? = some c → c = '\n') →
      Gap gap rest → Gap ('#' :: body ++ gap) rest

def woven (links : List (Token × List Char)) : List Char := links.flatMap fun link => link.1.text.toList ++ link.2

def Spaced : List (Token × List Char) → Prop
  | [] => True
  | link :: links => Gap link.2 (woven links) ∧ Spaced links

/-- A text is made of tokens with a gap before each of them and behind the last. -/
def Covers (tokens : List Token) (cs : List Char) : Prop :=
  ∃ gap links, links.map Prod.fst = tokens ∧ cs = gap ++ woven links ∧ Gap gap (woven links) ∧ Spaced links

section Gaps

variable {d : Dialect} {rule : Rule} {text rest gap : List Char}

theorem Gap.silent (hfirst : Rule.first? d (text ++ (gap ++ rest)) = some (rule, text)) (hne : text ≠ [])
    (hsilent : rule.isSilent = true) (h : Gap gap rest) : Gap (text ++ gap) rest := by
  have htake := (Rule.first?_eq_some_iff.mp hfirst).1
  have hcases : rule = .comment ∨ rule = .blank := by simpa [Rule.isSilent] using hsilent
  rcases hcases with rfl | rfl
  · change Rule.comment? (text ++ (gap ++ rest)) = some text at htake
    unfold Rule.comment? at htake
    split at htake
    · rename_i cs hcs
      obtain rfl : '#' :: cs.takeWhile (· != '\n') = text := Option.some.inj htake
      have hrest : cs.dropWhile (· != '\n') = gap ++ rest := by
        have hcut : cs.takeWhile (· != '\n') ++ (gap ++ rest) = cs := (List.cons.inj hcs).2
        exact List.append_cancel_left (List.takeWhile_append_dropWhile.trans hcut.symm)
      refine .comment (fun c hc => ?_) (fun c hc => ?_) h
      · simpa using List.all_eq_true.mp List.all_takeWhile c hc
      · have hstop := List.head?_dropWhile_not (· != '\n') cs
        rw [hrest, hc] at hstop
        simpa using hstop
    · cases htake
  · have hblank : Rule.blank? (text ++ (gap ++ rest)) = some text := htake
    simp only [Rule.blank?, Option.ite_none_left_eq_some, Option.some.injEq] at hblank
    refine .blank hne (fun c hc => ?_) h
    rw [← hblank.2] at hc
    exact List.all_eq_true.mp List.all_takeWhile c hc

theorem covers_of_pieces {pieces : List (Rule × List Char)} (h : Pieces d pieces) (line : Nat) :
    Covers (tokensOf line pieces) (pieces.flatMap Prod.snd) := by
  induction h generalizing line with
  | nil => exact ⟨[], [], rfl, rfl, .nil, True.intro⟩
  | @cons rule text pieces hne hfirst _ ih =>
    obtain ⟨gap, links, htokens, hcode, hgap, hspaced⟩ := ih (line + text.count '!')
    rw [hcode] at hfirst
    rw [tokensOf, List.flatMap_cons, hcode]
    cases hsilent : rule.isSilent with
    | true =>
      -- The gap before the first token grows.
      refine ⟨text ++ gap, links, htokens, (List.append_assoc _ _ _).symm, ?_, hspaced⟩
      exact hgap.silent hfirst hne hsilent
    | false =>
      refine ⟨[], (⟨rule.kind, String.ofList text, line⟩, gap) :: links, ?_, ?_, .nil, hgap, hspaced⟩
      · rw [List.map_cons, htokens]
        rfl
      · simp [woven]

end Gaps

/-! ### The tokens -/

/-- A token of the kind that a rule leaves, with a text of the rule's language and of no language
tried before. -/
structure IsBy (t : Token) (d : Dialect) (rule : Rule) : Prop where
  kind : t.kind = rule.kind
  accepts : (rule.pattern d).Accepts t.text.toList
  first : ∀ other ∈ rule.earlier, ¬ (other.pattern d).Accepts t.text.toList

theorem isBy_of_tokenize {d : Dialect} {code : String} {tokens : List Token} (h : tokenize d code = .ok tokens)
    {t : Token} (ht : t ∈ tokens) : ∃ rule ∈ Rule.tokenRules, t.IsBy d rule := by
  obtain ⟨rule, text, rest, hfirst, hsilent, hkind, htext⟩ := exists_taken_of_tokenize h ht
  have htakes := Rule.takes_of_first? hfirst hsilent
  refine ⟨rule, htakes.mem_tokenRules, hkind, ?_, fun other hother => ?_⟩
  · rw [htext, String.toList_ofList]
    exact htakes.accepts
  · rw [htext, String.toList_ofList]
    exact htakes.not_accepts hother

/-- Every round of the scan takes a text from the front of what is left, and never by a rule that
comes too late. So the scan ends, at the end of the text or where no rule applies. If it comes to
the end, the tokens cover the text, and each has the kind of the first rule whose language its own
text is in. -/
theorem scan_lossless (d : Dialect) (code : String) :
    (∀ cs rule text, Rule.first? d cs = some (rule, text) → text ≠ [] ∧ text <+: cs ∧ rule ∉ Rule.idleRules) ∧
      (∃ pieces rest, code.toList = pieces.flatMap Prod.snd ++ rest ∧ Passes d rest pieces ∧
        (rest = [] ∨ Rule.first? d rest = none) ∧
        scan d code = ⟨tokensOf 1 pieces, rest.head?.map fun c =>
          ⟨1 + (pieces.flatMap Prod.snd).count '!', (pieces.flatMap Prod.snd).length, c⟩⟩) ∧
        ∀ tokens, tokenize d code = .ok tokens → Covers tokens code.toList ∧
          (minified tokens).toList = tokens.flatMap (·.text.toList) ∧
            ∀ t ∈ tokens, ∃ rule ∈ Rule.tokenRules, t.IsBy d rule := by
  refine ⟨fun cs rule text hfirst => ?_, ?_, fun tokens htokens => ⟨?_, ?_, fun t => isBy_of_tokenize htokens⟩⟩
  · obtain ⟨hne, hfront⟩ := Rule.isFront_take? (Rule.first?_eq_some_iff.mp hfirst).1
    exact ⟨hne, hfront, not_idle_of_first? hfirst⟩
  · obtain ⟨pieces, rest, hcode, hpasses, hend⟩ := exists_passes d code.toList
    exact ⟨pieces, rest, hcode, hpasses, hend, scan_passes hcode hpasses hend⟩
  · obtain ⟨pieces, hpieces, hcode, rfl⟩ := tokenize_eq_ok_iff.mp htokens
    rw [hcode]
    exact covers_of_pieces hpieces 1
  · rw [toList_minified, List.flatMap_map]
    rfl

end Bang.Token
