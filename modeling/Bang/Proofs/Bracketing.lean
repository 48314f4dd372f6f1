import Bang.Proofs.Arguments

/-! Which tokens a statement with round brackets takes notice of. It looks for the first opening and the first closing
bracket of its line, each of them anywhere among its tokens, and evaluates what is between the two. All else but its
first token is passed over: the statement does the same without it. -/

namespace Bang

open Machine Run Statement

theorem Token.kind_of_opening {d : Dialect} {code : String} {tokens : List Token} {t : Token}
    (h : tokenize d code = .ok tokens) (ht : t ∈ tokens) (htext : t.text = "(") : t.kind = .symbol := by
  obtain ⟨rule, hrule, hby⟩ := isBy_of_tokenize h ht
  have haccepts := hby.accepts
  rw [htext] at haccepts
  have hlead : Rule.leadOf '(' = rule.lead := Option.some.inj (Rule.leadOf_of_accepts hrule haccepts)
  have hsymbol : Rule.leadOf '(' = .symbol := by decide
  rw [hsymbol] at hlead
  cases rule with
  | symbol => exact hby.kind
  | _ => cases hlead

def Event.expression? : Event → Option (List Token)
  | .evaluating tokens => some tokens
  | _ => none

def Journal.evaluations (j : Journal) : List (List Token) := j.filterMap Event.expression?

theorem Journal.evaluations_consult (s : State) (tokens : List Token) :
    (s.consult tokens).journal.evaluations = tokens :: s.journal.evaluations := by
  have hreads : (reads tokens).filterMap Event.expression? = [] := by
    rw [List.filterMap_eq_nil_iff]
    intro event hevent
    obtain ⟨t, _, _, rfl⟩ := mem_reads.mp hevent
    rfl
  rw [State.journal_consult, evaluations, List.filterMap_append, hreads]
  rfl

namespace Statement

/-- How a statement cuts its tokens at the round brackets of a line: what is before the opening one,
what it takes to be inside of them, and the rest. If a closing bracket comes first, nothing is
inside. -/
inductive Bracketing (line : Int) : (tokens before inside rest : List Token) → Prop
  | ordered {before inside behind : List Token} : bracket "(" line ∉ before → bracket ")" line ∉ before →
    bracket ")" line ∉ inside →
      Bracketing line (before ++ bracket "(" line :: (inside ++ bracket ")" line :: behind)) before inside
        (bracket ")" line :: behind)
  | reversed {before behind : List Token} : bracket "(" line ∉ before → bracket ")" line ∈ before →
      Bracketing line (before ++ bracket "(" line :: behind) before [] behind

def IsTight (tokens inside : List Token) : Prop :=
  ∃ first opening closing, tokens = first :: opening :: (inside ++ [closing]) ∧ opening.text = "(" ∧ closing.text = ")"

def tightened (line : Int) (before inside : List Token) : List Token :=
  before.take 1 ++ bracket "(" line :: (inside ++ [bracket ")" line])

theorem exists_bracketing {line : Int} {tokens : List Token} (hopening : bracket "(" line ∈ tokens)
    (hclosing : bracket ")" line ∈ tokens) : ∃ before inside rest, Bracketing line tokens before inside rest := by
  obtain ⟨before, behind, rfl, hbefore⟩ := List.eq_append_cons_of_mem hopening
  by_cases hfirst : bracket ")" line ∈ before
  · exact ⟨before, [], behind, .reversed hbefore hfirst⟩
  · have hbehind : bracket ")" line ∈ behind := by
      rcases List.mem_append.mp hclosing with hmem | hmem
      · exact absurd hmem hfirst
      · exact (List.mem_cons.mp hmem).resolve_left (by simp [bracket])
    obtain ⟨inside, rest, rfl, hinside⟩ := List.eq_append_cons_of_mem hbehind
    exact ⟨before, inside, bracket ")" line :: rest, .ordered hbefore hfirst hinside⟩

namespace Bracketing

variable {line : Int} {tokens tokens' before before' inside rest rest' : List Token}

theorem tokens_eq (h : Bracketing line tokens before inside rest) :
    tokens = before ++ bracket "(" line :: (inside ++ rest) := by
  cases h <;> rfl

theorem idxOf? (h : Bracketing line tokens before inside rest) :
    tokens.idxOf? (bracket "(" line) = some before.length ∧
      ∃ stop, tokens.idxOf? (bracket ")" line) = some stop ∧ (tokens.take stop).drop (before.length + 1) = inside := by
  cases h with
  | ordered hopening hbefore hinside =>
    have hfront : bracket ")" line ∉ before ++ bracket "(" line :: inside := by
      rw [List.mem_append, List.mem_cons, not_or, not_or]
      exact ⟨hbefore, by simp [bracket], hinside⟩
    refine ⟨idxOf?_append_cons hopening, (before ++ bracket "(" line :: inside).length, ?_, ?_⟩
    · rw [← List.cons_append, ← List.append_assoc]
      exact idxOf?_append_cons hfront
    · simp [List.take_append, List.drop_append]
  | @reversed _ behind hopening hbefore =>
    obtain ⟨front, back, rfl, hfront⟩ := List.eq_append_cons_of_mem hbefore
    refine ⟨idxOf?_append_cons hopening, front.length, ?_, ?_⟩
    · rw [List.append_assoc]
      exact idxOf?_append_cons hfront
    · rw [List.drop_eq_nil_iff]
      simp
      omega

theorem tightened (h : Bracketing line tokens before inside rest) :
    Bracketing line (tightened line before inside) (before.take 1) inside [bracket ")" line] := by
  have hless {t : Token} (hmem : t ∉ before) : t ∉ before.take 1 := fun ht => hmem (List.mem_of_mem_take ht)
  cases h with
  | ordered hopening hbefore hinside => exact .ordered (hless hopening) (hless hbefore) hinside
  | reversed hopening hbefore =>
    by_cases hfirst : bracket ")" line ∈ before.take 1
    · exact .reversed (hless hopening) hfirst
    · exact .ordered (hless hopening) hfirst List.not_mem_nil

theorem head?_tightened (h : Bracketing line tokens before inside rest) :
    (Statement.tightened line before inside).head? = tokens.head? := by
  rw [h.tokens_eq]
  cases before <;> rfl

theorem inside_subset (h : Bracketing line tokens before inside rest) : inside ⊆ tokens := by
  rw [h.tokens_eq]
  intro t ht
  simp [ht]

theorem bracketed? (h : Bracketing line tokens before inside rest) :
    ∃ behind, bracketed? line tokens = some (inside, behind) := by
  obtain ⟨hstart, stop, hstop, hinside⟩ := h.idxOf?
  refine ⟨tokens.drop (stop + 1), ?_⟩
  simp [Statement.bracketed?, hstart, hstop, hinside]

theorem isTight_iff (h : Bracketing line tokens before inside rest) (hplain : ∀ t ∈ inside, t.text ≠ "(") :
    IsTight tokens inside ↔ before.length = 1 ∧ rest.map Token.text = [")"] := by
  have htokens := h.tokens_eq
  constructor
  · rintro ⟨first, opening, closing, heq, hopening, hclosing⟩
    rw [htokens] at heq
    have hlength : before.length + rest.length = 2 := by
      have := congrArg List.length heq
      simp only [List.length_append, List.length_cons, List.length_nil] at this
      omega
    match before with
    | [] =>
      -- The first token would be the bracket, and the second one inside.
      obtain ⟨_, heq⟩ := List.cons.inj heq
      cases inside with
      | nil =>
        cases h with
        | ordered => exact absurd hopening ((List.cons.inj heq).1 ▸ by simp [bracket])
        | reversed _ hmem => exact absurd hmem List.not_mem_nil
      | cons t ts => exact absurd hopening ((List.cons.inj heq).1 ▸ hplain t List.mem_cons_self)
    | [_] =>
      obtain ⟨_, heq⟩ := List.cons.inj heq
      obtain ⟨_, heq⟩ := List.cons.inj heq
      rw [List.append_cancel_left heq]
      exact ⟨rfl, by simp [hclosing]⟩
    | _ :: _ :: more =>
      -- Nothing is left for behind the opening bracket.
      have hrest : rest = [] := List.eq_nil_of_length_eq_zero (by simp at hlength; omega)
      have hmore : more = [] := List.eq_nil_of_length_eq_zero (by simp at hlength; omega)
      subst hrest hmore
      cases h with
      | reversed =>
        obtain ⟨_, heq⟩ := List.cons.inj heq
        obtain ⟨_, heq⟩ := List.cons.inj heq
        exact absurd hclosing ((List.cons.inj heq).1 ▸ by simp [bracket])
  · rintro ⟨hbefore, hrest⟩
    obtain ⟨first, rfl⟩ := List.length_eq_one_iff.mp hbefore
    obtain ⟨closing, rfl, hclosing⟩ := List.map_eq_singleton_iff.mp hrest
    exact ⟨first, _, closing, htokens, rfl, hclosing⟩

theorem congr {first : Token} {tail : List Token} {statement : List Token → Run Unit}
    (h : Bracketing first.line (first :: tail) before inside rest)
    (hstatement : ∀ {tail' before' rest'}, Bracketing first.line (first :: tail) before inside rest →
      Bracketing first.line (first :: tail') before' inside rest' →
        statement (first :: tail) = statement (first :: tail')) :
    statement (first :: tail) = statement (Statement.tightened first.line before inside) := by
  obtain ⟨tail', htail'⟩ := List.head?_eq_some_iff.mp h.head?_tightened
  have htightened := h.tightened
  rw [htail'] at htightened ⊢
  exact hstatement h htightened

end Bracketing

theorem exists_bracketing_of_bracketed? {line : Int} {tokens inside behind : List Token}
    (h : bracketed? line tokens = some (inside, behind)) :
    ∃ before rest, Bracketing line tokens before inside rest := by
  have hfound := h
  simp only [bracketed?, Option.bind_eq_bind, Option.bind_eq_some_iff] at hfound
  obtain ⟨start, hstart, stop, hstop, _⟩ := hfound
  have hmem {t : Token} {i : Nat} (hi : tokens.idxOf? t = some i) : t ∈ tokens := by
    rw [← List.isSome_idxOf?, hi]
    rfl
  obtain ⟨before, inside', rest, hbracketing⟩ := exists_bracketing (hmem hstart) (hmem hstop)
  obtain ⟨behind', hbracketed⟩ := hbracketing.bracketed?
  obtain ⟨rfl, _⟩ := Prod.mk.inj (Option.some.inj (h.symm.trans hbracketed))
  exact ⟨before, rest, hbracketing⟩

/-! ### What the statements do with it -/

section Congruence

variable {first : Token} {tail tail' before before' inside rest rest' : List Token} {inner : List Token → Run Unit}

theorem print_congr (h : Bracketing first.line (first :: tail) before inside rest)
    (h' : Bracketing first.line (first :: tail') before' inside rest') :
    (print (first :: tail) : Run Unit) = print (first :: tail') := by
  obtain ⟨behind, hb⟩ := h.bracketed?
  obtain ⟨behind', hb'⟩ := h'.bracketed?
  have hline (ts : List Token) : (firstLine (first :: ts) : Run Int) = pure first.line := rfl
  simp only [print, hline, pure_bind, hb, hb']

theorem call_congr (h : Bracketing first.line (first :: tail) before inside rest)
    (h' : Bracketing first.line (first :: tail') before' inside rest') :
    (call inner (first :: tail) : Run Unit) = call inner (first :: tail') := by
  obtain ⟨hstart, stop, hstop, hinside⟩ := h.idxOf?
  obtain ⟨hstart', stop', hstop', hinside'⟩ := h'.idxOf?
  simp only [call, hstart, hstop, hstart', hstop', hinside, hinside']

end Congruence

section Success

variable {first : Token} {tail inside : List Token} {s t u : State} {values : List Value}
  {inner : List Token → Run Unit}

theorem exists_bracketing_of_print (h : (print (first :: tail) : Run Unit).run s = (.ok (), t)) :
    ∃ before inside rest, Bracketing first.line (first :: tail) before inside rest ∧ (∃ v, s.EvaluatesTo inside v) ∧
      t.journal = (s.consult inside).journal := by
  have hline : (firstLine (first :: tail) : Run Int) = pure first.line := rfl
  rw [print, hline, pure_bind] at h
  split at h
  · cases h
  · rename_i inside behind hbracketed
    obtain ⟨before, rest, hbracketing⟩ := exists_bracketing_of_bracketed? hbracketed
    obtain ⟨v, u, hvalue, hlog⟩ := run_bind_eq_ok h
    refine ⟨before, inside, rest, hbracketing, ⟨v, congrArg Prod.fst hvalue⟩, ?_⟩
    rw [← (State.consult_of_run hvalue).1]
    split at hlog
    · cases hlog
      rfl
    · cases hlog

theorem arguments_of_no_comma (h : ∀ t ∈ inside, t.text ≠ ",") :
    (arguments inside : Run (List Value)) = evaluateAll (if inside = [] then [] else [inside]) := by
  unfold arguments
  rw [splitOn_of_not_mem h]
  cases inside <;> rfl

theorem exists_bracketing_of_call (hbody : ∀ body, (block inner body : Run Unit).Concludes)
    (h : (call inner (first :: tail) : Run Unit).run s = (.ok (), t)) :
    ∃ before inside rest values u, Bracketing first.line (first :: tail) before inside rest ∧
      (arguments inside : Run (List Value)).run s = (.ok values, u) ∧
        .entered first.text :: u.journal <:+ t.journal := by
  obtain ⟨_, s', hcheck, h⟩ := run_bind_eq_ok h
  obtain rfl : s = s' := (snd_run_checkFunction first.text s).symm.trans (congrArg Prod.snd hcheck)
  split at h
  · cases h
  · cases h
  · rename_i start stop hstart hstop
    have hbracketed : bracketed? first.line (first :: tail) =
        some (((first :: tail).take stop).drop (start + 1), (first :: tail).drop (stop + 1)) := by
      simp [bracketed?, hstart, hstop]
    obtain ⟨before, rest, hbracketing⟩ := exists_bracketing_of_bracketed? hbracketed
    obtain ⟨values, u, hvalues, h⟩ := run_bind_eq_ok h
    refine ⟨before, _, rest, values, u, hbracketing, hvalues, ?_⟩
    obtain ⟨f, u', hfunction, h⟩ := run_bind_eq_ok h
    obtain rfl : u = u' := (snd_run_functionOf first.text u).symm.trans (congrArg Prod.snd hfunction)
    split at h
    · cases h
    · rw [run_bind_ok (run_note _)] at h
      have hgrows :=
        (conclusion.called (hbody f.body) first.text (f.params.zip values) (u.note (.entered first.text))).1
      rw [h] at hgrows
      exact hgrows

theorem evaluations_of_arguments (hcomma : ∀ t ∈ inside, t.text ≠ ",")
    (h : (arguments inside : Run (List Value)).run s = (.ok values, u)) :
    s.journal <:+ u.journal ∧ u.journal.evaluations = (if inside = [] then [] else [inside]) ++ s.journal.evaluations ∧
      All (·.kind ≠ .symbol) inside := by
  rw [arguments_of_no_comma hcomma] at h
  by_cases hinside : inside = []
  · rw [if_pos hinside] at h ⊢
    cases h
    exact ⟨List.suffix_rfl, rfl, hinside ▸ All.nil⟩
  · rw [if_neg hinside] at h ⊢
    obtain ⟨v, w, hvalue, hrest⟩ := run_bind_eq_ok h
    cases hrest
    obtain rfl := (State.consult_of_run hvalue).1
    refine ⟨?_, Journal.evaluations_consult s inside, fun t ht => ?_⟩
    · rw [State.journal_consult]
      exact (List.suffix_cons _ _).trans (List.suffix_append _ _)
    · exact (isOperand_of_evaluatesTo (congrArg Prod.fst hvalue) t ht).2

end Success

/-- A statement that takes notice of nothing but its first token and what is inside of its brackets.
It is tight only if there is nothing else. -/
def HeedsOnly (statement : List Token → Run Unit) (tokens inside : List Token) : Prop :=
  ∃ line before rest, tokens.head?.map Token.line = some line ∧ Bracketing line tokens before inside rest ∧
    statement tokens = statement (tightened line before inside) ∧
      (IsTight tokens inside ↔ before.length = 1 ∧ rest.map Token.text = [")"])

/-- A `print` or a call among the tokens of a text that ends well evaluates what is inside of its
brackets and nothing else, but it need not be tight: whatever stands between its first token and the
opening bracket, or behind the closing one, the statement does as if it were not there. -/
theorem print_and_call_heed_inside (d : Dialect) (code : String) (whole tokens : List Token)
    (hlexed : Token.tokenize d code = .ok whole) (hpart : tokens <:+: whole) (rounds depth : Nat) (s t : State) :
    ((print tokens : Run Unit).run s = (.ok (), t) →
      ∃ inside, HeedsOnly print tokens inside ∧ t.journal.evaluations = inside :: s.journal.evaluations) ∧
    ((call (exec .extended rounds depth) tokens : Run Unit).run s = (.ok (), t) →
      ∃ inside, HeedsOnly (call (exec .extended rounds depth)) tokens inside ∧
        ∃ (callee : Token) (j : Journal), tokens.head? = some callee ∧ s.journal <:+ j ∧
          .entered callee.text :: j <:+ t.journal ∧
          j.evaluations = (if inside = [] then [] else [inside]) ++ s.journal.evaluations) := by
  cases tokens with
  | nil => exact ⟨nofun, nofun⟩
  | cons first tail =>
    have hsymbol {u : Token} (hu : u ∈ first :: tail) (htext : u.text = "(") : u.kind = .symbol :=
      Token.kind_of_opening hlexed (hpart.subset hu) htext
    have heeds {statement : List Token → Run Unit} {before inside rest : List Token}
        (hbracketing : Bracketing first.line (first :: tail) before inside rest)
        (hoperands : All (·.kind ≠ .symbol) inside)
        (hsame : statement (first :: tail) = statement (tightened first.line before inside)) :
        HeedsOnly statement (first :: tail) inside := by
      refine ⟨first.line, before, rest, rfl, hbracketing, hsame, hbracketing.isTight_iff fun u hu htext => ?_⟩
      exact hoperands u hu (hsymbol (hbracketing.inside_subset hu) htext)
    constructor
    · intro h
      obtain ⟨before, inside, rest, hbracketing, ⟨v, hv⟩, hjournal⟩ := exists_bracketing_of_print h
      refine ⟨inside, heeds hbracketing (fun u hu => (isOperand_of_evaluatesTo hv u hu).2) ?_, ?_⟩
      · exact hbracketing.congr fun h h' => print_congr h h'
      · rw [hjournal, Journal.evaluations_consult]
    · intro h
      obtain ⟨before, inside, rest, values, u, hbracketing, hvalues, hentered⟩ :=
        exists_bracketing_of_call (conclusion.block .extended rounds depth) h
      have hcomma : ∀ u ∈ inside, u.text ≠ "," := fun u hu =>
        Token.text_ne_comma hlexed (hpart.subset (hbracketing.inside_subset hu))
      obtain ⟨hgrows, hevaluations, hoperands⟩ := evaluations_of_arguments hcomma hvalues
      refine ⟨inside, heeds hbracketing hoperands ?_, first, u.journal, rfl, hgrows, hentered, hevaluations⟩
      exact hbracketing.congr fun h h' => call_congr h h'

section Stragglers

def twoPrints : List Token := (Token.tokenize .basic "print(1) print(2)").toOption.getD []

def twoCalls : List Token := (Token.tokenize .extended "f() f()").toOption.getD []

theorem tokenize_twoPrints : Token.tokenize .basic "print(1) print(2)" = .ok twoPrints :=
  Token.tokenize_eq_getD (by decide +kernel)

theorem tokenize_twoCalls : Token.tokenize .extended "f() f()" = .ok twoCalls :=
  Token.tokenize_eq_getD (by decide +kernel)

def idleFunction : Function := ⟨[], [⟨.symbol, "\x7b", 1⟩, ⟨.symbol, "\x7d", 1⟩]⟩

def idle : State :=
  (Program.start .extended {}).declare "f" idleFunction (Assoc.empty.insert "f" (.function idleFunction))

theorem exists_run_of_isOk {x : Run Unit} {s : State} (h : (x.run s).1.isOk) : ∃ t, x.run s = (.ok (), t) := by
  rcases hrun : x.run s with ⟨result, t⟩
  rw [hrun] at h
  cases result with
  | ok => exact ⟨t, rfl⟩
  | error => cases h

theorem print_and_call_heed_inside_of_two :
    (∃ t inside, (print twoPrints : Run Unit).run {} = (.ok (), t) ∧ HeedsOnly print twoPrints inside ∧
      t.journal.evaluations = [inside]) ∧
    ∃ t inside, (call (exec .extended 0 1) twoCalls : Run Unit).run idle = (.ok (), t) ∧
      HeedsOnly (call (exec .extended 0 1)) twoCalls inside := by
  have hprint : ((print twoPrints : Run Unit).run {}).1.isOk := by decide +kernel
  have hcall : ((call (exec .extended 0 1) twoCalls : Run Unit).run idle).1.isOk := by decide +kernel
  obtain ⟨t, hprint⟩ := exists_run_of_isOk hprint
  obtain ⟨u, hcall⟩ := exists_run_of_isOk hcall
  have hprints := print_and_call_heed_inside .basic _ _ twoPrints tokenize_twoPrints List.infix_rfl 0 1 {} t
  have hcalls := print_and_call_heed_inside .extended _ _ twoCalls tokenize_twoCalls List.infix_rfl 0 1 idle u
  obtain ⟨inside, hheeds, hevaluations⟩ := hprints.1 hprint
  obtain ⟨inside', hheeds', _⟩ := hcalls.2 hcall
  exact ⟨⟨t, inside, hprint, hheeds, hevaluations⟩, u, inside', hcall, hheeds'⟩

theorem IsTight.length_eq {tokens inside : List Token} (h : IsTight tokens inside) :
    tokens.length = inside.length + 3 := by
  obtain ⟨first, opening, closing, rfl, _⟩ := h
  simp

theorem print_and_call_not_tight :
    (Token.tokenize .basic "print(1) print(2)" = .ok twoPrints ∧ ((print twoPrints : Run Unit).run {}).1.isOk ∧
      ((print twoPrints : Run Unit).run {}).2.logs = ["1"] ∧
      ∀ inside ∈ ((print twoPrints : Run Unit).run {}).2.journal.evaluations, ¬ IsTight twoPrints inside) ∧
    Token.tokenize .extended "f() f()" = .ok twoCalls ∧
      ((call (exec .extended 0 1) twoCalls : Run Unit).run idle).1.isOk ∧
      ((call (exec .extended 0 1) twoCalls : Run Unit).run idle).2.journal.evaluations = [] ∧
        ¬ IsTight twoCalls [] := by
  have hprint : ((print twoPrints : Run Unit).run {}).1.isOk ∧ ((print twoPrints : Run Unit).run {}).2.logs = ["1"] ∧
      (((print twoPrints : Run Unit).run {}).2.journal.evaluations.all fun inside =>
        twoPrints.length != inside.length + 3) = true := by
    decide +kernel
  have hcall : ((call (exec .extended 0 1) twoCalls : Run Unit).run idle).1.isOk ∧
      ((call (exec .extended 0 1) twoCalls : Run Unit).run idle).2.journal.evaluations = [] ∧ twoCalls.length ≠ 3 := by
    decide +kernel
  refine ⟨⟨tokenize_twoPrints, hprint.1, hprint.2.1, fun inside hinside htight => ?_⟩, tokenize_twoCalls, hcall.1,
    hcall.2.1, fun htight => hcall.2.2 htight.length_eq⟩
  have hlength := List.all_eq_true.mp hprint.2.2 inside hinside
  exact absurd htight.length_eq (by simpa using hlength)

end Stragglers

end Statement

end Bang
