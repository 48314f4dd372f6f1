import Bang.Proofs.Expression
import Bang.Proofs.Formula.Quoted
import Bang.Proofs.Segments
import Bang.Proofs.Token.Scan

/-! Strings in programs. A program can store every string; a variable that holds one reads as it exactly if the
string is inert. -/

namespace Bang

namespace Text

def isSpecial (c : Char) : Bool := c ∈ ['"', '\\', '\n', '\r', '\x00']

def source (cs : List Char) : List Char := cs.flatMap fun c => if isSpecial c then hexEscape c else [c]

theorem source_cons (c : Char) (cs : List Char) :
    source (c :: cs) = (if isSpecial c then hexEscape c else [c]) ++ source cs := rfl

theorem eq_of_isSpecial {c : Char} (h : isSpecial c = true) :
    c = '"' ∨ c = '\\' ∨ c = '\n' ∨ c = '\r' ∨ c = '\x00' := by
  simpa [isSpecial] using h

theorem mem_source {c : Char} {cs : List Char} (h : c ∈ source cs) : c = '\\' ∨ isSpecial c = false := by
  obtain ⟨d, _, hd⟩ := List.mem_flatMap.mp h
  cases hspecial : isSpecial d with
  | false =>
    rw [hspecial] at hd
    obtain rfl : c = d := by simpa using hd
    exact .inr hspecial
  | true =>
    rw [hspecial, if_pos rfl] at hd
    have hall : (hexEscape d).all (fun c => c == '\\' || !isSpecial c) = true := by
      rcases eq_of_isSpecial hspecial with rfl | rfl | rfl | rfl | rfl <;> decide
    simpa using List.all_eq_true.mp hall c hd

theorem not_mem_source {c : Char} (hc : isSpecial c = true) (hne : c ≠ '\\') (cs : List Char) : c ∉ source cs := by
  intro hmem
  rcases mem_source hmem with he | hspecial
  · exact hne he
  · rw [hc] at hspecial
    cases hspecial

theorem unescape_source (cs : List Char) : unescape 0 (source cs) = some cs := by
  induction cs with
  | nil => rfl
  | cons c cs ih =>
    rw [source_cons]
    cases hspecial : isSpecial c with
    | false =>
      have hplain : isPlainBefore c (source cs) = true := by
        have : c ≠ '\\' := by
          rintro rfl
          cases hspecial
        simp [isPlainBefore, this]
      simp only [Bool.false_eq_true, if_false, List.singleton_append]
      rw [unescape_cons hplain, ih]
      rfl
    | true =>
      have hescape : unescape 0 (hexEscape c ++ source cs) = (unescape 0 (source cs)).map (c :: ·) := by
        rcases eq_of_isSpecial hspecial with rfl | rfl | rfl | rfl | rfl <;> rfl
      rw [if_pos rfl, hescape, ih]
      rfl

end Text

namespace Formula

open Text

theorem lineBody?_hexEscape {c : Char} (h : isSpecial c = true) (rest : List Char) :
    lineBody? '"' (hexEscape c ++ rest) = (lineBody? '"' rest).map (hexEscape c ++ ·) := by
  have hdigits : ∃ a b, hexEscape c = ['\\', 'x', a, b] ∧ (a ≠ '\\' ∧ a ≠ '"' ∧ a ≠ '\n') ∧
      b ≠ '\\' ∧ b ≠ '"' ∧ b ≠ '\n' := by
    rcases eq_of_isSpecial h with rfl | rfl | rfl | rfl | rfl <;> exact ⟨_, _, rfl, by decide, by decide⟩
  obtain ⟨a, b, htext, ha, hb⟩ := hdigits
  simp only [htext, List.cons_append, List.nil_append]
  rw [lineBody?, lineBody?_cons ha.1 ha.2.1 ha.2.2, lineBody?_cons hb.1 hb.2.1 hb.2.2, Option.map_map, Option.map_map]
  rfl

theorem lineBody?_source (cs : List Char) : lineBody? '"' (source cs ++ ['"']) = some (source cs) := by
  induction cs with
  | nil => rfl
  | cons c cs ih =>
    rw [source_cons, List.append_assoc]
    cases hspecial : isSpecial c with
    | true =>
      rw [if_pos rfl, lineBody?_hexEscape hspecial, ih]
      rfl
    | false =>
      simp only [isSpecial, List.mem_cons, List.not_mem_nil, or_false, decide_eq_false_iff_not, not_or] at hspecial
      obtain ⟨hquote, hbackslash, hline, _⟩ := hspecial
      simp only [Bool.false_eq_true, if_false, List.singleton_append]
      rw [lineBody?_cons hbackslash hquote hline, ih]
      rfl

theorem quotedText?_source (cs : List Char) : quotedText? (source cs) = some cs := by
  rw [quotedText?, lineBody?_source, Option.bind_some, unescape_source]

theorem lexeme?_inert {cs rest : List Char} (h : isInert cs = true) (hquote : '"' ∉ cs)
    (hrest : rest.head? ≠ some '"') :
    lexeme? ('"' :: cs ++ ['"'] ++ rest) = some (some (.text cs), ('"' :: cs ++ ['"']).length) := by
  have happend : '"' :: cs ++ ['"'] ++ rest = '"' :: (cs ++ '"' :: rest) := by simp
  rw [happend, lexeme?_quote, string?_line hquote hrest, lineBody?_of_isInert h hquote]
  simp [unescape_of_isInert h]

theorem evaluate_sum {a b t : List Char} (ha : isInert a = true) (haquote : '"' ∉ a) (hb : quotedText? b = some t)
    (hbquote : '"' ∉ b) (hbplain : '\x00' ∉ b ∧ '\r' ∉ b) :
    evaluate ('"' :: a ++ ['"'] ++ '+' :: ('"' :: b ++ ['"'])) = .ok (.str (String.ofList (a ++ t))) := by
  have haplain := not_mem_of_isInert ha
  have hnull : '\x00' ∉ '"' :: a ++ ['"'] ++ '+' :: ('"' :: b ++ ['"']) := by simp [haplain, hbplain]
  have hreturn : '\r' ∉ '"' :: a ++ ['"'] ++ '+' :: ('"' :: b ++ ['"']) := by simp [haplain, hbplain]
  have hplus : lexemesFrom 0 (['+'] ++ ('"' :: b ++ ['"'])) = some [.symbol (.operator .add), .text t] := by
    have hoperator : lexeme? (['+'] ++ ('"' :: b ++ ['"'])) = some (some (.symbol (.operator .add)), 1) :=
      lexeme?_operator (.arithmetic .add) (by decide) (b ++ ['"'])
    rw [lexemesFrom_append (by decide) hoperator, lexemesFrom_quoted hbquote, hb]
    rfl
  have hlexemes : lexemesFrom 0 ('"' :: a ++ ['"'] ++ '+' :: ('"' :: b ++ ['"'])) =
      some [.text a, .symbol (.operator .add), .text t] := by
    rw [lexemesFrom_append (by simp) (lexeme?_inert ha haquote (by simp)), ← List.singleton_append, hplus]
    rfl
  have hparse : parse? ('"' :: a ++ ['"'] ++ '+' :: ('"' :: b ++ ['"'])) =
      some (.binary .add (.constant (.str (String.ofList a))) (.constant (.str (String.ofList t)))) := by
    rw [parse?, lexemes, unifyLines_of_not_mem hreturn, hlexemes]
    rfl
  rw [evaluate, if_neg hnull, hparse, String.ofList_append]
  rfl

end Formula

/-! ### Storing a string -/

namespace Program

open Token Statement Machine Run

/-- The pieces of a program that stores a string. Escapes count only in an expression that is
evaluated, so the string is added to an empty one. -/
def storing (v : String) : List (Rule × List Char) :=
  [(.start, "INICIO".toList), (.blank, [' ']), (.identifier, ['x']), (.operator, ['=']), (.string, ['"', '"']),
    (.operator, ['+']), (.string, '"' :: Text.source v.toList ++ ['"']), (.symbol, ['!']), (.blank, [' ']),
    (.finish, "FIN".toList)]

theorem pieces_storing (d : Dialect) (v : String) : Pieces d (storing v) := by
  have hstring (rest : List Char) : Rule.first? d (('"' :: Text.source v.toList ++ ['"']) ++ rest) =
      some (.string, '"' :: Text.source v.toList ++ ['"']) := by
    refine Rule.first?_string d (fun c hc => ?_) rest
    have hquote : c ≠ '"' := fun he => Text.not_mem_source rfl (by decide) _ (he ▸ hc)
    have hline : c ≠ '\n' := fun he => Text.not_mem_source rfl (by decide) _ (he ▸ hc)
    simp [Rule.isQuotable, hquote, hline]
  refine .cons (by decide) rfl <| .cons (by decide) ?_ <| .cons (by decide) ?_ <| .cons (by decide) ?_ <|
    .cons (by decide) ?_ <| .cons (by decide) ?_ <| .cons (by simp) (hstring _) <| .cons (by decide) ?_ <|
      .cons (by decide) ?_ <| .cons (by decide) rfl .nil
  -- No other piece starts like a word, so the string behind it does not matter.
  all_goals exact (Rule.first?_of_not_wordHead d (by decide) _).trans rfl

def storedTokens (v : String) : List Token :=
  [⟨.string, "\"\"", 1⟩, ⟨.operator, "+", 1⟩, ⟨.string, String.ofList ('"' :: Text.source v.toList ++ ['"']), 1⟩]

theorem run_assigned_stored (v : String) (s : State) :
    ∃ t, (assigned (storedTokens v) : Run Value).run s = (.ok (.str v), t) ∧ s.Alike t := by
  have hoperands : (checkOperands (storedTokens v) : Run Unit).run s = (.ok (), s) := rfl
  have htext : s.scope.formulaText? (storedTokens v) =
      some ('"' :: [] ++ ['"'] ++ '+' :: ('"' :: Text.source v.toList ++ ['"'])) := by
    simp [Scope.formulaText?, Scope.tokenText?, storedTokens]
  have hvalue : s.EvaluatesTo (storedTokens v) (.str v) := by
    have hnot {c : Char} (hc : Text.isSpecial c = true) (hne : c ≠ '\\') := Text.not_mem_source hc hne v.toList
    rw [State.evaluatesTo_iff htext, Formula.evaluate_sum rfl List.not_mem_nil (Formula.quotedText?_source v.toList)
      (hnot rfl (by decide)) ⟨hnot rfl (by decide), hnot rfl (by decide)⟩]
    simp
  obtain ⟨t, hrun, halike⟩ := hvalue.run
  refine ⟨t, ?_, halike⟩
  change ((checkOperands (storedTokens v) : Run Unit) >>= fun _ => evaluate (storedTokens v)).run s = _
  rw [run_bind_ok hoperands, hrun]

def assignment (v : String) : List Token := ⟨.identifier, "x", 1⟩ :: ⟨.operator, "=", 1⟩ :: storedTokens v

theorem run_assign_stored (d : Dialect) (v : String) {s : State} (h : s.scope.get? "x" = none) :
    ∃ t, (assign d (assignment v) : Run Unit).run s = (.ok (), t) ∧
      t.scope.get? "x" = some (.value (.str v)) := by
  obtain ⟨t, hassigned, halike⟩ := run_assigned_stored v s
  have hrefusal : refusal? d 1 "x" (.str v) t = none := by
    have hx : t.scope.get? "x" = none := by rw [halike.scope, h]
    cases d with
    | basic => rfl
    | extended => simp [refusal?, Value.type?, hx]
  refine ⟨t.put "x" (.str v), ?_, Scope.get?_bind_self _ "x" _⟩
  change ((assigned (storedTokens v) : Run Value) >>= fun w => store d 1 "x" w).run s = _
  rw [run_bind_ok hassigned, run_store_of_none hrefusal]

theorem tokensOf_storing (v : String) :
    ∃ line line' : Int, tokensOf 1 (storing v) =
      ⟨.start, "INICIO", 1⟩ :: (assignment v ++ [⟨.symbol, "!", line⟩, ⟨.finish, "FIN", line'⟩]) :=
  ⟨_, _, rfl⟩

theorem statements_single (d : Dialect) (limits : Limits) {tokens : List Token} (hplain : All IsPlain tokens)
    (hinner : All IsInner tokens) (line line' : Int) :
    (statements d limits (⟨.start, "INICIO", 1⟩ :: (tokens ++ [⟨.symbol, "!", line⟩, ⟨.finish, "FIN", line'⟩])) :
        Run Unit) =
      (do exec d limits.rounds limits.depth tokens; return) := by
  have hlast : (⟨.start, "INICIO", 1⟩ :: (tokens ++ [⟨.symbol, "!", line⟩, ⟨.finish, "FIN", line'⟩])).getLast? =
      some (⟨.finish, "FIN", line'⟩ : Token) := by
    rw [List.getLast?_cons, List.getLast?_append]
    rfl
  have hbang : IsInner ⟨.symbol, "!", line⟩ := ⟨nofun, nofun⟩
  rw [statements, hlast]
  change topLevel (exec d limits.rounds limits.depth) true 0 [] (tokens ++ [_, _]) = _
  rw [topLevel_plain _ hplain hinner, topLevel_cons _ hbang, List.append_nil, List.reverse_reverse]
  rfl

theorem isPlain_of_quote {t : Token} {cs : List Char} (h : t.text = String.ofList ('"' :: cs)) : IsPlain t := by
  have hne (text : String) (htext : text.toList.head? ≠ some '"') : t.text ≠ text := by
    rintro rfl
    rw [h] at htext
    simp at htext
  have hends := hne "!" (by decide)
  have hopens := hne "\x7b" (by decide)
  have hcloses := hne "\x7d" (by decide)
  simp [IsPlain, braceStep, endsStatement, opensBlock, closesBlock, hends, hopens, hcloses]

theorem run_storing (d : Dialect) (limits : Limits) (hdepth : 0 < limits.depth) (v : String) (s : State) :
    (run d limits (String.ofList ((storing v).flatMap Prod.snd)) s).1.result = .ok () ∧
      (run d limits (String.ofList ((storing v).flatMap Prod.snd)) s).2.scope.get? "x" =
        some (.value (.str v)) := by
  have htokens := tokenize_pieces (pieces_storing d v) String.toList_ofList
  obtain ⟨line, line', hlist⟩ := tokensOf_storing v
  rw [hlist] at htokens
  have hfresh : (start d { s with logs := [] }).scope.get? "x" = none := by cases d <;> rfl
  obtain ⟨t, hassign, hx⟩ := run_assign_stored d v hfresh
  have hplain : All IsPlain (assignment v) :=
    .cons ⟨rfl, rfl⟩ <| .cons ⟨rfl, rfl⟩ <| .cons ⟨rfl, rfl⟩ <| .cons ⟨rfl, rfl⟩ <| .cons (isPlain_of_quote rfl) .nil
  have hinner : All IsInner (assignment v) :=
    .cons ⟨nofun, nofun⟩ <| .cons ⟨nofun, nofun⟩ <| .cons ⟨nofun, nofun⟩ <| .cons ⟨nofun, nofun⟩ <|
      .cons ⟨nofun, nofun⟩ .nil
  have hexec : (exec d limits.rounds limits.depth (assignment v) : Run Unit) = assign d (assignment v) := by
    obtain ⟨depth, hdepth⟩ := Nat.exists_eq_succ_of_ne_zero (Nat.ne_of_gt hdepth)
    rw [hdepth]
    cases d <;> rfl
  have hrun : (do exec d limits.rounds limits.depth (assignment v); return : Run Unit).run
      (start d { s with logs := [] }) = (.ok (), t) := by
    rw [hexec, run_bind_ok hassign]
    rfl
  rw [← statements_single d limits hplain hinner line line'] at hrun
  rw [run_of_ok htokens hrun]
  exact ⟨rfl, hx⟩

end Program

/-! ### Reading a string -/

def Scope.string? (scope : Scope) (name : String) : Option String :=
  match scope.get? name with
  | some (.value (.str v)) => some v
  | _ => none

theorem Scope.string?_eq_some {scope : Scope} {name v : String} (h : scope.string? name = some v) :
    scope.get? name = some (.value (.str v)) := by
  unfold Scope.string? at h
  split at h
  · rename_i hget
    rw [hget, Option.some.inj h]
  · cases h

namespace State

variable {s : State} {x v : String}

theorem formulaText?_string (line : Int) (hx : s.scope.get? x = some (.value (.str v))) :
    s.scope.formulaText? [⟨.identifier, x, line⟩] = some ('"' :: v.toList ++ ['"']) := by
  simp [Scope.formulaText?, Scope.tokenText?, hx, Binding.toValue, Statement.operandText?]

/-- A program can store every string of whole characters. A variable that holds one without a quote
reads as that string exactly if the string is inert; with a quote, what stands behind it is code. -/
theorem string_reading (v : String) :
    (∃ code, ∀ (d : Dialect) (limits : Limits) (s : State), 0 < limits.depth →
      (Program.run d limits code s).1.result = .ok () ∧
        (Program.run d limits code s).2.scope.get? "x" = some (.value (.str v))) ∧
    ∀ (s : State) (x : String) (line : Int), s.scope.get? x = some (.value (.str v)) →
      ('"' ∉ v.toList → (s.EvaluatesTo [⟨.identifier, x, line⟩] (.str v) ↔ Text.isInert v.toList = true)) ∧
      ∀ a b : String, v = a ++ "\"+\"" ++ b → Text.isInert a.toList = true → '"' ∉ a.toList →
        Text.isInert b.toList = true → '"' ∉ b.toList → s.EvaluatesTo [⟨.identifier, x, line⟩] (.str (a ++ b)) := by
  refine ⟨⟨_, fun d limits s hdepth => Program.run_storing d limits hdepth v s⟩, fun s x line hx => ?_⟩
  have htext := formulaText?_string line hx
  constructor
  · intro hquote
    rw [evaluatesTo_iff htext, ← Formula.evaluate_quoted_iff hquote, String.ofList_toList]
  · rintro a b rfl ha haquote hb hbquote
    have hsum := Formula.evaluate_sum ha haquote (Formula.quotedText?_of_isInert hb hbquote) hbquote
      (Text.not_mem_of_isInert hb)
    rw [evaluatesTo_iff htext]
    simpa [String.ofList_append] using hsum

def holding (x v : String) : State := { scope := ({} : Scope).bind x (.str v) }

theorem get?_holding (x v : String) : (holding x v).scope.get? x = some (.value (.str v)) := Scope.get?_bind_self _ x _

theorem string_reading_path :
    (holding "ruta" "C:\\datos").EvaluatesTo [⟨.identifier, "ruta", 1⟩] (.str "C:\\datos") ∧
      ¬ (holding "ruta" "C:\\notas").EvaluatesTo [⟨.identifier, "ruta", 1⟩] (.str "C:\\notas") ∧
        (holding "ruta" "C:\"+\"D:").EvaluatesTo [⟨.identifier, "ruta", 1⟩] (.str "C:D:") := by
  refine ⟨?_, ?_, ?_⟩
  · exact (((string_reading _).2 _ _ 1 (get?_holding "ruta" "C:\\datos")).1 (by decide)).mpr (by decide)
  · rw [((string_reading _).2 _ _ 1 (get?_holding "ruta" "C:\\notas")).1 (by decide)]
    decide
  · exact ((string_reading _).2 _ _ 1 (get?_holding "ruta" "C:\"+\"D:")).2 "C:" "D:" (by decide) (by decide) (by decide)
      (by decide) (by decide)

theorem strings_not_kept :
    ¬ ∀ (d : Dialect) (limits : Limits) (code : String) (s : State) (x v : String) (line : Int),
      (Program.run d limits code s).2.scope.get? x = some (.value (.str v)) →
        (Program.run d limits code s).2.EvaluatesTo [⟨.identifier, x, line⟩] (.str v) := by
  intro h
  let t := (Program.run .extended ⟨1, 0⟩ "INICIO x=\"a\\tb\"! FIN" {}).2
  have hx : t.scope.get? "x" = some (.value (.str "a\\tb")) := Scope.string?_eq_some (by decide +kernel)
  have hreads : t.EvaluatesTo [⟨.identifier, "x", 1⟩] (.str "a\\tb") := h _ _ _ _ _ _ 1 hx
  rw [evaluatesTo_iff (formulaText?_string 1 hx)] at hreads
  have hinert := (Formula.evaluate_quoted_iff (by decide)).mp hreads
  exact absurd hinert (by decide)

end State

end Bang
