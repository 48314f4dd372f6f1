import Bang.Proofs.Formula.Numeral
import Bang.Proofs.Strings
import Bang.Proofs.Token.Shape

/-! Literals on their own. An assignment takes a number or a string as it is written, while everywhere else the text
is evaluated. The two ways agree on strings; a number may be one that only an assignment takes. -/

namespace Bang

open Machine Run Statement

/-! ### Texts between quotes -/

section Quoted

variable {body : List Char}

theorem Text.isInert_of_not_isSpecial (h : ∀ c ∈ body, Text.isSpecial c = false) : Text.isInert body = true := by
  induction body with
  | nil => rfl
  | cons c cs ih =>
    have hc := h c List.mem_cons_self
    simp only [Text.isSpecial, List.mem_cons, List.not_mem_nil, or_false, decide_eq_false_iff_not, not_or] at hc
    obtain ⟨_, hbackslash, hline, hreturn, hnull⟩ := hc
    have hplain : Text.isPlainBefore c cs = true := by simp [Text.isPlainBefore, hbackslash]
    have hrest := ih fun c hc => h c (List.mem_cons_of_mem _ hc)
    exact Text.isInert_cons.mpr ⟨⟨hnull, hline, hreturn⟩, hplain, hrest⟩

theorem Token.Rule.isQuotable_of_not_isSpecial {c : Char} (h : Text.isSpecial c = false) :
    Token.Rule.isQuotable c = true := by
  simp only [Text.isSpecial, List.mem_cons, List.not_mem_nil, or_false, decide_eq_false_iff_not, not_or] at h
  simp [Token.Rule.isQuotable, h]

theorem Token.Rule.isSpecial_of_isQuotable {c : Char} (h : Token.Rule.isQuotable c = true) (hbackslash : c ≠ '\\')
    (hreturn : c ≠ '\r') (hnull : c ≠ '\x00') : Text.isSpecial c = false := by
  simp only [Token.Rule.isQuotable, Bool.and_eq_true, bne_iff_ne] at h
  simp [Text.isSpecial, h, hbackslash, hreturn, hnull]

theorem Text.quote_not_mem (h : ∀ c ∈ body, Text.isSpecial c = false) : '"' ∉ body :=
  fun hmem => absurd (h '"' hmem) (by decide)

theorem Formula.evaluate_quoted (h : ∀ c ∈ body, Text.isSpecial c = false) :
    Formula.evaluate ('"' :: body ++ ['"']) = .ok (.str (String.ofList body)) :=
  (Formula.evaluate_quoted_iff (Text.quote_not_mem h)).mpr (Text.isInert_of_not_isSpecial h)

theorem Statement.dropWhile_quote (h : '"' ∉ body) (hne : body ≠ []) (rest : List Char) :
    (body ++ rest).dropWhile (· == '"') = body ++ rest := by
  obtain ⟨c, cs, rfl⟩ := List.exists_cons_of_ne_nil hne
  have hc : c ≠ '"' := fun he => h (he ▸ List.mem_cons_self)
  exact List.dropWhile_cons_of_neg (by simpa using hc)

theorem Statement.unquoted_quoted (h : '"' ∉ body) :
    unquoted (String.ofList ('"' :: body ++ ['"'])) = String.ofList body := by
  by_cases hne : body = []
  · subst hne
    decide
  · have hfront : ('"' :: body ++ ['"']).dropWhile (· == '"') = body ++ ['"'] := by
      rw [List.cons_append, List.dropWhile_cons_of_pos (by decide), dropWhile_quote h hne]
    have hback : ('"' :: body.reverse).dropWhile (· == '"') = body.reverse := by
      rw [List.dropWhile_cons_of_pos (by decide), ← List.append_nil body.reverse]
      exact dropWhile_quote (by simpa using h) (by simpa using hne) []
    rw [unquoted, String.toList_ofList, hfront, List.reverse_append, List.reverse_singleton, List.singleton_append,
      hback, List.reverse_reverse]

end Quoted

/-! ### The two ways of a literal -/

/-- An assignment of nothing but the token stores the value, and the token alone decides which. -/
structure Token.IsStoredAs (t : Token) (v : Value) : Prop where
  assigned : ∀ s : State, (assigned [t] : Run Value).run s = (.ok v, s)
  assign : ∀ (d : Dialect) (name : String) (line sign : Int) (s : State),
    (assign d [⟨.identifier, name, line⟩, ⟨.operator, "=", sign⟩, t] : Run Unit).run s =
      (store d line name v : Run Unit).run s

theorem Token.isStoredAs_of_run {t : Token} {v : Value}
    (h : ∀ s : State, (assigned [t] : Run Value).run s = (.ok v, s)) : t.IsStoredAs v where
  assigned := h
  assign d name line sign s := by
    unfold Statement.assign
    exact run_bind_ok (h s)

section Paths

variable {text : String} {line : Int} {s : State}

theorem Token.isStoredAs_integer {n : Int} (hpoint : '.' ∉ text.toList) (h : Text.readInteger text.toList = .ok n) :
    Token.IsStoredAs ⟨.number, text, line⟩ (.int n) := by
  refine Token.isStoredAs_of_run fun s => ?_
  unfold Statement.assigned
  dsimp only
  rw [numberValue, if_neg hpoint, h]
  rfl

theorem Token.isStoredAs_real {x : Float} (hpoint : '.' ∈ text.toList) (h : Text.readReal? text.toList = some x) :
    Token.IsStoredAs ⟨.number, text, line⟩ (.float x) := by
  refine Token.isStoredAs_of_run fun s => ?_
  unfold Statement.assigned
  dsimp only
  rw [numberValue, if_pos hpoint, h]
  rfl

theorem Token.isStoredAs_string {body : List Char} (line : Int) (h : '"' ∉ body) :
    Token.IsStoredAs ⟨.string, String.ofList ('"' :: body ++ ['"']), line⟩ (.str (String.ofList body)) := by
  refine Token.isStoredAs_of_run fun s => ?_
  unfold Statement.assigned
  dsimp only
  rw [unquoted_quoted h]
  rfl

theorem State.evaluatesTo_literal {t : Token} (h : t.kind = .number ∨ t.kind = .string) {v : Value} :
    s.EvaluatesTo [t] v ↔ Formula.evaluate t.text.toList = .ok v := by
  have htext : s.scope.formulaText? [t] = some t.text.toList := by
    rcases h with h | h <;> simp [Scope.formulaText?, Scope.tokenText?, h]
  exact State.evaluatesTo_iff htext

end Paths

namespace Token

variable {d : Dialect} {code : String} {tokens : List Token} {t : Token}

theorem isString_of_tokenize (h : tokenize d code = .ok tokens) (ht : t ∈ tokens) (hkind : t.kind = .string) :
    ∃ body : String, t.text.toList = '"' :: body.toList ++ ['"'] ∧ ∀ c ∈ body.toList, Rule.isQuotable c = true := by
  obtain ⟨rule, text, rest, hfirst, hsilent, hrule, htext⟩ := exists_taken_of_tokenize h ht
  rw [hrule] at hkind
  cases Rule.takes_of_first? hfirst hsilent with
  | name _ _ =>
    unfold Rule.ofName at hkind
    split_ifs at hkind <;> cases hkind
  | operator _ _ => cases hkind
  | integer _ _ _ => cases hkind
  | real _ _ _ => cases hkind
  | @string body _ hbody =>
    exact ⟨String.ofList body, by rw [htext, String.toList_ofList, String.toList_ofList], by rwa [String.toList_ofList]⟩
  | symbol _ => cases hkind

theorem number_paths (h : Text.IsNumeral t.text.toList) (hkind : t.kind = .number)
    (hlength : '.' ∉ t.text.toList → t.text.length ≤ Text.digitLimit) :
    ∃ v, t.IsStoredAs v ∧
      Formula.evaluate t.text.toList = if Formula.IsPlain t.text.toList then .ok v else .error .malformed := by
  obtain ⟨kind, text, line⟩ := t
  obtain rfl : kind = .number := hkind
  dsimp only at h hlength ⊢
  generalize hcs : text.toList = cs at h hlength ⊢
  cases h with
  | integer hdigits =>
    have hpoint : '.' ∉ cs := fun hmem => absurd (hdigits.2 '.' hmem) (by decide)
    have hlimit : cs.length ≤ Text.digitLimit := by
      rw [← hcs, String.length_toList]
      exact hlength hpoint
    obtain ⟨n, hn, hevaluate⟩ := Formula.evaluate_integer hdigits hlimit
    subst hcs
    exact ⟨.int n, isStoredAs_integer hpoint hn, hevaluate⟩
  | real hdigits hplaces =>
    obtain ⟨x, hx, hevaluate⟩ := Formula.evaluate_real hdigits hplaces
    rw [← hcs] at hx hevaluate ⊢
    exact ⟨.float x, isStoredAs_real (by simp [hcs]) hx, hevaluate⟩

theorem string_paths {body : String} (htext : t.text.toList = '"' :: body.toList ++ ['"']) (hkind : t.kind = .string)
    (h : ∀ c ∈ body.toList, Text.isSpecial c = false) :
    t.IsStoredAs (.str body) ∧ Formula.evaluate t.text.toList = .ok (.str body) := by
  have hstored := isStoredAs_string t.line (Text.quote_not_mem h)
  rw [← htext, String.ofList_toList, String.ofList_toList, ← hkind] at hstored
  have hevaluate := Formula.evaluate_quoted h
  rw [← htext, String.ofList_toList] at hevaluate
  exact ⟨hstored, hevaluate⟩

/-- Every number and every string can be stored as it is written. Evaluated, a number gives the same
value if it is written plainly and none otherwise, and a string of whole characters without escapes
gives the same value. -/
theorem stored_as_evaluated (h : tokenize d code = .ok tokens) (ht : t ∈ tokens) :
    (t.kind = .number → ('.' ∉ t.text.toList → t.text.length ≤ Text.digitLimit) →
      ∃ v, t.IsStoredAs v ∧
        ∀ (s : State) (w : Value), s.EvaluatesTo [t] w ↔ Formula.IsPlain t.text.toList ∧ w = v) ∧
    (t.kind = .string → '\\' ∉ t.text.toList → '\r' ∉ t.text.toList → '\x00' ∉ t.text.toList →
      ∃ body : String, t.text.toList = '"' :: body.toList ++ ['"'] ∧ t.IsStoredAs (.str body) ∧
        ∀ (s : State) (w : Value), s.EvaluatesTo [t] w ↔ w = .str body) := by
  refine ⟨fun hkind hlength => ?_, fun hkind hbackslash hreturn hnull => ?_⟩
  · obtain ⟨v, hstored, hevaluate⟩ := number_paths (isNumeral_of_tokenize h ht hkind) hkind hlength
    refine ⟨v, hstored, fun s w => ?_⟩
    rw [State.evaluatesTo_literal (.inl hkind), hevaluate]
    by_cases hplain : Formula.IsPlain t.text.toList
    · simp [hplain, eq_comm]
    · simp [hplain]
  · obtain ⟨body, htext, hbody⟩ := isString_of_tokenize h ht hkind
    have hspecial : ∀ c ∈ body.toList, Text.isSpecial c = false := by
      intro c hc
      have hmem : c ∈ t.text.toList := by simp [htext, hc]
      exact Rule.isSpecial_of_isQuotable (hbody c hc) (ne_of_mem_of_not_mem hmem hbackslash)
        (ne_of_mem_of_not_mem hmem hreturn) (ne_of_mem_of_not_mem hmem hnull)
    obtain ⟨hstored, hevaluate⟩ := string_paths htext hkind hspecial
    refine ⟨body, htext, hstored, fun s w => ?_⟩
    rw [State.evaluatesTo_literal (.inr hkind), hevaluate, Except.ok.injEq, eq_comm]

end Token

/-! ### Printing a string -/

namespace Program

open Token

def printing (v : String) : List (Rule × List Char) :=
  [(.start, "INICIO".toList), (.blank, [' ']), (.keyword, "print".toList), (.symbol, ['(']),
    (.string, '"' :: v.toList ++ ['"']), (.symbol, [')']), (.symbol, ['!']), (.blank, [' ']), (.finish, "FIN".toList)]

variable {v : String}

theorem pieces_printing (d : Dialect) (h : ∀ c ∈ v.toList, Text.isSpecial c = false) : Pieces d (printing v) := by
  have hstring (rest : List Char) : Rule.first? d (('"' :: v.toList ++ ['"']) ++ rest) =
      some (.string, '"' :: v.toList ++ ['"']) :=
    Rule.first?_string d (fun c hc => Rule.isQuotable_of_not_isSpecial (h c hc)) rest
  refine .cons (by decide) rfl <| .cons (by decide) ?_ <| .cons (by decide) (by cases d <;> rfl) <|
    .cons (by decide) ?_ <| .cons (by simp) (hstring _) <| .cons (by decide) ?_ <| .cons (by decide) ?_ <|
      .cons (by decide) ?_ <| .cons (by decide) rfl .nil
  all_goals exact (Rule.first?_of_not_wordHead d (by decide) _).trans rfl

def printStatement (v : String) (line : Int) : List Token :=
  [⟨.keyword, "print", 1⟩, bracket "(" 1, ⟨.string, String.ofList ('"' :: v.toList ++ ['"']), 1⟩, bracket ")" line]

theorem tokensOf_printing (v : String) :
    ∃ line line' : Int, tokensOf 1 (printing v) =
      ⟨.start, "INICIO", 1⟩ :: (printStatement v (1 + v.toList.count '!' : Nat) ++
        [⟨.symbol, "!", line⟩, ⟨.finish, "FIN", line'⟩]) := by
  have hcount : ('"' :: v.toList ++ ['"']).count '!' = v.toList.count '!' := by simp
  rw [← hcount]
  exact ⟨_, _, rfl⟩

theorem run_print_closed (h : ∀ c ∈ v.toList, Text.isSpecial c = false) (s : State) :
    ∃ t, (print (printStatement v 1) : Run Unit).run s = (.ok (), t) ∧ t.logs = s.logs ++ [v] := by
  have hbrackets : bracketed? 1 (printStatement v 1) =
      some ([⟨.string, String.ofList ('"' :: v.toList ++ ['"']), 1⟩], []) := rfl
  have hvalue : s.EvaluatesTo [⟨.string, String.ofList ('"' :: v.toList ++ ['"']), 1⟩] (.str v) := by
    rw [State.evaluatesTo_literal (.inr rfl), String.toList_ofList, Formula.evaluate_quoted h, String.ofList_toList]
  obtain ⟨t, hrun, halike⟩ := hvalue.run
  have hprint := run_print hbrackets hrun rfl
  rw [String.ofList_toList] at hprint
  exact ⟨t.log v, hprint, congrArg (· ++ [v]) halike.logs⟩

theorem print_unclosed {line : Int} (h : line ≠ 1) :
    (print (printStatement v line) : Run Unit) = report (.printForm 1) := by
  apply print_of_not_mem
  simp [bracket, h.symm]

theorem toList_printing (v : String) :
    ("INICIO print(\"" ++ v ++ "\")! FIN").toList = (printing v).flatMap Prod.snd := by
  simp [printing]

theorem statements_printing (d : Dialect) (limits : Limits) (hdepth : 0 < limits.depth)
    (h : ∀ c ∈ v.toList, Text.isSpecial c = false) :
    ∃ tokens, Token.tokenize d ("INICIO print(\"" ++ v ++ "\")! FIN") = .ok tokens ∧
      (statements d limits tokens : Run Unit) = print (printStatement v (1 + v.toList.count '!' : Nat)) := by
  obtain ⟨line, line', htokens⟩ := tokensOf_printing v
  refine ⟨_, tokenize_pieces (pieces_printing d h) (toList_printing v), ?_⟩
  generalize ((1 + v.toList.count '!' : Nat) : Int) = closing at htokens ⊢
  have hplain : All IsPlain (printStatement v closing) :=
    .cons ⟨rfl, rfl⟩ <| .cons ⟨rfl, rfl⟩ <| .cons (isPlain_of_quote rfl) <| .cons ⟨rfl, rfl⟩ .nil
  have hinner : All IsInner (printStatement v closing) :=
    .cons ⟨nofun, nofun⟩ <| .cons ⟨nofun, nofun⟩ <| .cons ⟨nofun, nofun⟩ <| .cons ⟨nofun, nofun⟩ .nil
  have hexec : (exec d limits.rounds limits.depth (printStatement v closing) : Run Unit) =
      print (printStatement v closing) := exec_print hdepth rfl _
  rw [htokens, statements_single d limits hplain hinner line line', hexec, bind_pure_unit]

/-- A program that prints a string prints it as it is, unless there is a `!` in it. The string is
made of whole characters: no half of a pair of 16-bit units is one. -/
theorem literal_printed (d : Dialect) (limits : Limits) (hdepth : 0 < limits.depth) (v : String)
    (h : ∀ c ∈ v.toList, Text.isSpecial c = false) (s : State) :
    ('!' ∉ v.toList →
      (run d limits ("INICIO print(\"" ++ v ++ "\")! FIN") s).1.result = .ok () ∧
        (run d limits ("INICIO print(\"" ++ v ++ "\")! FIN") s).2.logs = [v]) ∧
    ('!' ∈ v.toList →
      (run d limits ("INICIO print(\"" ++ v ++ "\")! FIN") s).1.result = .error (.diagnostic (.printForm 1)) ∧
        (Diagnostic.printForm 1).message = "Error en línea 1: print debe tener la forma print(expresión)." ∧
        (run d limits ("INICIO print(\"" ++ v ++ "\")! FIN") s).2.logs = []) := by
  obtain ⟨tokens, htokens, hstatements⟩ := statements_printing d limits hdepth h
  constructor
  · intro hbang
    rw [List.count_eq_zero.mpr hbang] at hstatements
    obtain ⟨t, hprint, hlogs⟩ := run_print_closed h (start d { s with logs := [] })
    have hrun : (statements d limits tokens : Run Unit).run (start d { s with logs := [] }) = (.ok (), t) := by
      rw [hstatements]
      exact hprint
    rw [run_of_ok htokens hrun]
    exact ⟨rfl, hlogs⟩
  · intro hbang
    have hline : ((1 + v.toList.count '!' : Nat) : Int) ≠ 1 := by
      have hcount : 0 < v.toList.count '!' := List.count_pos_iff.mpr hbang
      omega
    have hrun : (statements d limits tokens : Run Unit).run (start d { s with logs := [] }) =
        (.error (.diagnostic (.printForm 1)), start d { s with logs := [] }) := by
      rw [hstatements, print_unclosed hline]
      rfl
    rw [run_of_error htokens hrun]
    exact ⟨rfl, by decide +kernel, rfl⟩

end Program

end Bang
