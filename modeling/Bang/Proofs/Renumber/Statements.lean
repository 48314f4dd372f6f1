import Bang.Proofs.Guard
import Bang.Proofs.Segments
import Bang.Proofs.Visits

/-! Programs whose lines are numbered in another way. Statements look at lines only to find their round brackets,
which stand on the line of their first token. If they find them at the same places, they do the same, whatever the
numbers are. -/

namespace Bang

open Machine Run Statement

def Token.renumber (φ : Int → Int) (t : Token) : Token := { t with line := φ t.line }

theorem Token.line_renumber (φ : Int → Int) (t : Token) : (t.renumber φ).line = φ t.line := rfl

namespace Statement

variable {φ : Int → Int} {d : Dialect} {line : Int} {tokens : List Token} {text : String}

/-! ### Parts of statements -/

theorem splitOn_renumber (φ : Int → Int) (text : String) (tokens : List Token) :
    splitOn text (tokens.map (.renumber φ)) = (splitOn text tokens).map (List.map (.renumber φ)) := by
  induction tokens with
  | nil => rfl
  | cons t ts ih =>
    rw [List.map_cons, splitOn, splitOn, ih]
    change (if t.text == text then _ else _) = _
    split
    · rfl
    · cases splitOn text ts with
      | nil => rfl
      | cons part parts => rfl

theorem upToClosing?_closing {t : Token} (h : t.text = ")") (ts : List Token) :
    upToClosing? 0 (t :: ts) = some ([], ts) := by
  simp [upToClosing?, h]

theorem upToClosing?_inside {t : Token} {depth : Nat} (h : ¬ (t.text = ")" ∧ depth = 0)) (ts : List Token) :
    upToClosing? depth (t :: ts) =
      (upToClosing? (if t.text = ")" then depth - 1 else if t.text = "(" then depth + 1 else depth) ts).map
        (Prod.map (t :: ·) id) := by
  by_cases hclosing : t.text = ")"
  · cases depth with
    | zero => exact absurd ⟨hclosing, rfl⟩ h
    | succ depth =>
      simp only [upToClosing?, hclosing, beq_self_eq_true, if_true]
      rfl
  · simp only [upToClosing?, beq_iff_eq, hclosing, if_false]
    rfl

theorem upToClosing?_renumber (φ : Int → Int) (depth : Nat) (tokens : List Token) :
    upToClosing? depth (tokens.map (.renumber φ)) =
      (upToClosing? depth tokens).map (Prod.map (List.map (.renumber φ)) (List.map (.renumber φ))) := by
  induction tokens generalizing depth with
  | nil => rfl
  | cons t ts ih =>
    by_cases h : t.text = ")" ∧ depth = 0
    · obtain ⟨hclosing, rfl⟩ := h
      have hrenumbered : (t.renumber φ).text = ")" := hclosing
      rw [List.map_cons, upToClosing?_closing hrenumbered, upToClosing?_closing hclosing]
      rfl
    · have hrenumbered : ¬ ((t.renumber φ).text = ")" ∧ depth = 0) := h
      rw [List.map_cons, upToClosing?_inside hrenumbered, upToClosing?_inside h]
      change (upToClosing? (if t.text = ")" then _ else if t.text = "(" then _ else _) _).map _ = _
      rw [ih, Option.map_map, Option.map_map]
      rfl

theorem block_cons {m : Type → Type} [Machine m] (inner : List Token → m Unit) (first : Token) (rest : List Token) :
    block inner (first :: rest) =
      if opensBlock first && (first :: rest).getLast?.any closesBlock then sequence inner 0 [] rest.dropLast
      else report (.blockMalformed first.line) := by
  unfold block
  rw [List.getLast?_eq_some_getLast (List.cons_ne_nil first rest)]
  rfl

theorem startsBlock_renumber (φ : Int → Int) (tokens : List Token) :
    startsBlock (tokens.map (.renumber φ)) = startsBlock tokens := by
  cases tokens <;> rfl

def FindsBracket (φ : Int → Int) (line : Int) (text : String) (tokens : List Token) : Prop :=
  (tokens.map (.renumber φ)).idxOf? (bracket text (φ line)) = tokens.idxOf? (bracket text line)

theorem bracketed?_renumber (hopening : FindsBracket φ line "(" tokens) (hclosing : FindsBracket φ line ")" tokens) :
    bracketed? (φ line) (tokens.map (.renumber φ)) =
      (bracketed? line tokens).map (Prod.map (List.map (.renumber φ)) (List.map (.renumber φ))) := by
  unfold bracketed?
  rw [hopening, hclosing]
  cases tokens.idxOf? (bracket "(" line) with
  | none => rfl
  | some start =>
    cases tokens.idxOf? (bracket ")" line) with
    | none => rfl
    | some stop => simp [List.map_take, List.map_drop]

theorem loopBracketed?_renumber (hopening : FindsBracket φ line "(" (tokens.drop 1))
    (hclosing : FindsBracket φ line ")" tokens) :
    loopBracketed? (φ line) (tokens.map (.renumber φ)) =
      (loopBracketed? line tokens).map (Prod.map (List.map (.renumber φ)) (List.map (.renumber φ))) := by
  unfold loopBracketed?
  rw [← List.map_drop, hopening, hclosing]
  cases (tokens.drop 1).idxOf? (bracket "(" line) with
  | none => rfl
  | some start =>
    cases tokens.idxOf? (bracket ")" line) with
    | none => rfl
    | some stop => simp [List.map_take, List.map_drop]

/-! ### Where statements begin -/

/-- Statements begin behind the end of another one, behind a brace and behind `else`. -/
def startsBehind (before : List Token) : Bool :=
  before.getLast?.all fun t => endsStatement t || opensBlock t || closesBlock t || t.text == "else"

def seeksBrackets (d : Dialect) (tokens : List Token) : Bool :=
  tokens.head?.any (·.text ∈ ["if", "while", "doFor", "print"]) ||
    d == .extended && (tokens.drop 1).head?.any (·.text == "(")

/-- Every statement of a program finds its brackets. -/
def Faithful (φ : Int → Int) (d : Dialect) (whole : List Token) : Prop :=
  ∀ before first rest, whole = before ++ first :: rest → startsBehind before = true →
    seeksBrackets d (first :: rest) = true → ∀ text ∈ ["(", ")"], FindsBracket φ first.line text (first :: rest)

def Begins (whole tokens : List Token) : Prop :=
  ∃ before behind, whole = before ++ tokens ++ behind ∧ startsBehind before = true

theorem Begins.isInfix {whole : List Token} (h : Begins whole tokens) : tokens <:+: whole := by
  obtain ⟨before, behind, rfl, _⟩ := h
  exact ⟨before, behind, rfl⟩

theorem Begins.front {whole front back : List Token} (h : Begins whole (front ++ back)) : Begins whole front := by
  obtain ⟨before, behind, rfl, hbefore⟩ := h
  exact ⟨before, back ++ behind, by simp, hbefore⟩

theorem Begins.behind {whole front back : List Token} {t : Token} (h : Begins whole (front ++ t :: back))
    (ht : startsBehind [t] = true) : Begins whole back := by
  obtain ⟨before, behind, rfl, _⟩ := h
  refine ⟨before ++ front ++ [t], behind, by simp, ?_⟩
  rwa [startsBehind, List.getLast?_append]

theorem begins_block {whole rest : List Token} {first : Token} (h : first :: rest <:+: whole)
    (hfirst : opensBlock first = true) : Begins whole rest.dropLast := by
  obtain ⟨before, behind, rfl⟩ := h
  obtain ⟨last, hlast⟩ := List.dropLast_prefix rest
  have hcut : first :: rest = [first] ++ (rest.dropLast ++ last) := by rw [hlast, List.singleton_append]
  refine ⟨before ++ [first], last ++ behind, ?_, ?_⟩
  · rw [hcut]
    simp only [List.append_assoc]
  · simp [startsBehind, hfirst]

theorem idxOf?_front (a : Token) (front back : List Token) :
    front.idxOf? a = ((front ++ back).idxOf? a).filter (· < front.length) := by
  induction front with
  | nil => simp
  | cons t ts ih =>
    rw [List.cons_append, List.idxOf?_cons, List.idxOf?_cons]
    split
    · rfl
    · rw [ih]
      cases (ts ++ back).idxOf? a with
      | none => rfl
      | some i => simp [Option.filter, apply_ite]

theorem FindsBracket.of_append {front back : List Token} (h : FindsBracket φ line text (front ++ back)) :
    FindsBracket φ line text front := by
  unfold FindsBracket at h ⊢
  rw [idxOf?_front _ front back, ← h, List.map_append, ← List.length_map (Token.renumber φ), ← idxOf?_front]

theorem FindsBracket.tail {first : Token} (hne : first.text ≠ text) (h : FindsBracket φ line text (first :: tokens)) :
    FindsBracket φ line text tokens := by
  unfold FindsBracket at h ⊢
  have hfirst : ¬ (first == bracket text line) = true := fun heq => hne (congrArg Token.text (eq_of_beq heq))
  have hrenumbered : ¬ (first.renumber φ == bracket text (φ line)) = true := fun heq =>
    hne (congrArg Token.text (eq_of_beq heq))
  rw [List.map_cons, List.idxOf?_cons, List.idxOf?_cons, if_neg hfirst, if_neg hrenumbered] at h
  exact Option.map_injective Nat.succ_injective h

theorem Faithful.finds {whole : List Token} (h : Faithful φ d whole) {first : Token} {rest : List Token}
    (hbegins : Begins whole (first :: rest)) (hseeks : seeksBrackets d (first :: rest) = true)
    (htext : text ∈ ["(", ")"]) : FindsBracket φ first.line text (first :: rest) := by
  obtain ⟨before, behind, hwhole, hbefore⟩ := hbegins
  refine .of_append (h before first (rest ++ behind) (by simp [hwhole]) hbefore ?_ text htext)
  unfold seeksBrackets at hseeks ⊢
  cases rest with
  | nil =>
    have hword : [first].head?.any (·.text ∈ ["if", "while", "doFor", "print"]) = true := by simpa using hseeks
    exact (Bool.or_eq_true _ _).mpr (.inl hword)
  | cons second rest => exact hseeks

theorem Faithful.bracketed? {whole : List Token} (h : Faithful φ d whole) {first : Token} {rest : List Token}
    (hbegins : Begins whole (first :: rest)) (hseeks : seeksBrackets d (first :: rest) = true) :
    Statement.bracketed? (first.renumber φ).line ((first :: rest).map (.renumber φ)) =
      (Statement.bracketed? first.line (first :: rest)).map
        (Prod.map (List.map (.renumber φ)) (List.map (.renumber φ))) :=
  bracketed?_renumber (h.finds hbegins hseeks (by decide)) (h.finds hbegins hseeks (by decide))

end Statement

/-! ### Both programs side by side -/

def Matched {α : Type} (R : State → State → Prop) (x y : Except Fault α × State) : Prop :=
  y.1.toOption = x.1.toOption ∧ R x.2 y.2

theorem Matched.bind {R : State → State → Prop} {α β : Type} {x y : Run α} {f g : α → Run β} {s t : State}
    (h : Matched R (x.run s) (y.run t))
    (hf : ∀ a s' t', x.run s = (.ok a, s') → R s' t' → Matched R ((f a).run s') ((g a).run t')) :
    Matched R ((x >>= f).run s) ((y >>= g).run t) := by
  rcases hs : x.run s with ⟨result, s'⟩
  rcases ht : y.run t with ⟨result', t'⟩
  rw [hs, ht] at h
  obtain ⟨hresult, hstates⟩ := h
  cases result with
  | error fault =>
    cases result' with
    | error fault' =>
      rw [run_bind_error hs, run_bind_error ht]
      exact ⟨rfl, hstates⟩
    | ok b => cases hresult
  | ok a =>
    cases result' with
    | error fault' => cases hresult
    | ok b =>
      obtain rfl : b = a := Option.some.inj hresult
      rw [run_bind_ok hs, run_bind_ok ht]
      exact hf b s' t' hs hstates

def matching (R : State → State → Prop) : Simulation Run Run where
  Rel x y := ∀ s t, R s t → Matched R (x.run s) (y.run t)
  ret _ _ _ h := ⟨rfl, h⟩
  seq hx hf s t h := (hx s t h).bind fun a s' t' _ h' => hf a s' t' h'
  stop _ _ _ _ h := ⟨rfl, h⟩

namespace matching

variable {R : State → State → Prop} {α : Type}

theorem stops (fault fault' : Fault) : (matching R).Rel (fail fault : Run α) (fail fault') := fun _ _ h => ⟨rfl, h⟩

structure Leaves (R : State → State → Prop) (d : Dialect) (whole : List Token) : Prop where
  lookup : ∀ u ∈ whole, (matching R).Rel (lookup? u.text) (lookup? u.text)
  note : ∀ event event' : Event, event.isPassing → event'.isPassing → (matching R).Rel (note event) (note event')
  log : ∀ line, (matching R).Rel (log line) (log line)
  store : ∀ u ∈ whole, ∀ line v, (matching R).Rel (store d u.line u.text v) (store d line u.text v)

section Leaves

variable {φ : Int → Int} {d : Dialect} {whole tokens : List Token}
variable (L : Leaves R d whole)
include L

theorem tokenText {u : Token} (hu : u ∈ whole) : (matching R).Rel (tokenText u) (tokenText (u.renumber φ)) := by
  obtain ⟨kind, text, line⟩ := u
  cases kind with
  | identifier =>
    refine (matching R).seq (L.lookup _ hu) fun binding => ?_
    cases binding with
    | none => exact stops _ _
    | some binding =>
      refine (matching R).seq (L.note _ _ rfl rfl) fun _ => ?_
      cases operandText? binding.toValue with
      | none => exact stops _ _
      | some text => exact (matching R).ret text
  | string => exact (matching R).ret _
  | number => exact (matching R).ret _
  | operator => exact (matching R).ret _
  | _ => exact stops _ _

theorem formulaText (h : tokens ⊆ whole) :
    (matching R).Rel (formulaText tokens) (formulaText (tokens.map (.renumber φ))) := by
  induction tokens with
  | nil => exact (matching R).ret []
  | cons t ts ih =>
    refine (matching R).seq (tokenText L (h List.mem_cons_self)) fun text => ?_
    refine (matching R).seq (ih fun u hu => h (List.mem_cons_of_mem t hu)) fun rest => ?_
    exact (matching R).ret (text ++ rest)

theorem evaluate (h : tokens ⊆ whole) : (matching R).Rel (evaluate tokens) (evaluate (tokens.map (.renumber φ))) := by
  refine (matching R).seq (L.note _ _ rfl rfl) fun _ => (matching R).seq (formulaText L h) fun text => ?_
  split
  · exact (matching R).ret _
  · exact (matching R).stop _ fun _ => rfl
  · exact stops _ _

theorem evaluateAll {parts : List (List Token)} (h : ∀ part ∈ parts, part ⊆ whole) :
    (matching R).Rel (evaluateAll parts) (evaluateAll (parts.map (List.map (.renumber φ)))) := by
  induction parts with
  | nil => exact (matching R).ret []
  | cons part rest ih =>
    refine (matching R).seq (evaluate L (h part List.mem_cons_self)) fun v => ?_
    refine (matching R).seq (ih fun part hpart => h part (List.mem_cons_of_mem _ hpart)) fun vs => ?_
    exact (matching R).ret (v :: vs)

theorem checkOperands (h : tokens ⊆ whole) :
    (matching R).Rel (checkOperands tokens) (checkOperands (tokens.map (.renumber φ))) := by
  induction tokens with
  | nil => exact (matching R).ret ()
  | cons t ts ih =>
    refine (matching R).seq (L.lookup t (h List.mem_cons_self)) fun binding => ?_
    change (matching R).Rel _ (if t.isIdentifier && binding.isNone then _ else _)
    split
    · exact stops _ _
    · exact ih fun u hu => h (List.mem_cons_of_mem t hu)

theorem arguments (h : tokens ⊆ whole) :
    (matching R).Rel (arguments tokens) (arguments (tokens.map (.renumber φ))) := by
  have hparts : ∀ part ∈ splitOn "," tokens, part ⊆ whole := fun part hpart u hu =>
    h ((isInfix_splitOn "," hpart).subset hu)
  unfold Statement.arguments
  rw [splitOn_renumber]
  generalize splitOn "," tokens = parts at hparts
  dsimp only
  rw [List.getLast?_map]
  cases parts.getLast? with
  | none => exact evaluateAll L hparts
  | some last =>
    cases last with
    | cons u us => exact evaluateAll L hparts
    | nil =>
      have hlast : (matching R).Rel (Statement.evaluateAll parts.dropLast)
          (Statement.evaluateAll (parts.dropLast.map (List.map (.renumber φ)))) :=
        evaluateAll L fun part hpart => hparts part (List.dropLast_subset _ hpart)
      rw [List.map_dropLast] at hlast
      exact hlast

omit L in
theorem numberValue (text : String) : (matching R).Rel (numberValue text) (numberValue text) := by
  unfold Statement.numberValue
  split
  · split
    · exact (matching R).ret _
    · exact stops _ _
  · split
    · exact (matching R).ret _
    · exact stops _ _
    · exact stops _ _

theorem assigned (h : tokens ⊆ whole) :
    (matching R).Rel (assigned tokens) (assigned (tokens.map (.renumber φ))) := by
  have hevaluated : (matching R).Rel (do Statement.checkOperands tokens; Statement.evaluate tokens)
      (do Statement.checkOperands (tokens.map (.renumber φ)); Statement.evaluate (tokens.map (.renumber φ))) :=
    (matching R).seq (checkOperands L h) fun _ => evaluate L h
  cases tokens with
  | nil => exact hevaluated
  | cons t ts =>
    obtain ⟨kind, text, line⟩ := t
    cases ts with
    | cons u us => cases kind <;> exact hevaluated
    | nil =>
      cases kind with
      | number => exact numberValue text
      | string => exact (matching R).ret _
      | _ => exact hevaluated

theorem assign (h : tokens ⊆ whole) :
    (matching R).Rel (assign d tokens) (assign d (tokens.map (.renumber φ))) := by
  unfold Statement.assign
  split
  · rename_i name line line' t ts
    refine (matching R).seq (assigned L fun u hu => h (List.mem_cons_of_mem _ (List.mem_cons_of_mem _ hu))) fun v => ?_
    exact L.store ⟨.identifier, name, line⟩ (h List.mem_cons_self) _ v
  · rename_i hform
    split
    · rename_i name line line' t ts heq
      obtain ⟨⟨_, _, _⟩, tail, rfl, ha, htail⟩ := List.map_eq_cons_iff.mp heq
      obtain ⟨⟨_, _, _⟩, tail, rfl, hb, htail⟩ := List.map_eq_cons_iff.mp htail
      obtain ⟨c, cs, rfl, _, _⟩ := List.map_eq_cons_iff.mp htail
      cases ha
      cases hb
      exact absurd rfl (hform _ _ _ c cs)
    · exact stops _ _

end Leaves

/-! ### Statements that hold others -/

theorem behind {β : Type} {a b : α} {f g : α → Run β} (h : (matching R).Rel (f a) (g b)) :
    (matching R).Rel (pure a >>= f) (pure b >>= g) := h

section Compound

variable {φ : Int → Int} {d : Dialect} {whole tokens : List Token} {inner : List Token → Run Unit}
variable (L : Leaves R d whole) (F : Faithful φ d whole)

section

include L F

theorem print {first : Token} {rest : List Token} (h : Begins whole (first :: rest))
    (hseeks : seeksBrackets d (first :: rest) = true) :
    (matching R).Rel (print (first :: rest)) (print ((first :: rest).map (.renumber φ))) := by
  refine behind ?_
  rw [F.bracketed? h hseeks]
  cases hb : bracketed? first.line (first :: rest) with
  | none => exact stops _ _
  | some parts =>
    obtain ⟨inside, rest⟩ := parts
    have hinside : inside ⊆ whole := fun u hu => h.isInfix.subset ((isInfix_bracketed? hb).1.subset hu)
    refine (matching R).seq (evaluate L hinside) fun v => ?_
    split
    · exact L.log _
    · exact stops _ _

end

variable (hinner : ∀ {tokens}, Begins whole tokens → (matching R).Rel (inner tokens) (inner (tokens.map (.renumber φ))))
include hinner

theorem sequence {braces : Int} {pending : List Token} (h : Begins whole (pending.reverse ++ tokens)) :
    (matching R).Rel (sequence inner braces pending tokens)
      (sequence inner braces (pending.map (.renumber φ)) (tokens.map (.renumber φ))) := by
  induction tokens generalizing braces pending with
  | nil =>
    cases pending with
    | nil => exact (matching R).ret ()
    | cons last _ => exact stops _ _
  | cons t ts ih =>
    simp only [Statement.sequence, List.map_cons]
    change (matching R).Rel _ (if endsStatement t && braces == 0 then _ else _)
    split
    · rename_i hend
      rw [← List.map_reverse]
      refine (matching R).seq (hinner h.front) fun _ => ?_
      exact ih (h.behind (by simp [startsBehind, ((Bool.and_eq_true _ _).mp hend).1]))
    · refine ih ?_
      rwa [List.reverse_cons, List.append_assoc, List.singleton_append]

theorem block (h : tokens <:+: whole) :
    (matching R).Rel (block inner tokens) (block inner (tokens.map (.renumber φ))) := by
  cases tokens with
  | nil => exact stops _ _
  | cons first rest =>
    have hlast : ((first :: rest).map (Token.renumber φ)).getLast?.any closesBlock =
        (first :: rest).getLast?.any closesBlock := by
      rw [List.getLast?_map]
      cases (first :: rest).getLast? <;> rfl
    rw [List.map_cons, block_cons, block_cons, ← List.map_cons, hlast]
    change (matching R).Rel _ (if opensBlock first && _ then _ else _)
    split
    · rename_i hbraces
      rw [← List.map_dropLast]
      exact sequence hinner (begins_block h ((Bool.and_eq_true _ _).mp hbraces).1)
    · exact stops _ _

theorem braced {x y : Run Unit} (h : tokens <:+: whole) (hxy : (matching R).Rel x y) :
    (matching R).Rel (if startsBlock tokens then Statement.block inner tokens else x)
      (if startsBlock (tokens.map (.renumber φ)) then Statement.block inner (tokens.map (.renumber φ)) else y) := by
  rw [startsBlock_renumber]
  split
  · exact block hinner h
  · exact hxy

include L F

theorem ifThen {first : Token} {rest : List Token} (h : Begins whole (first :: rest))
    (hseeks : seeksBrackets d (first :: rest) = true) :
    (matching R).Rel (ifThen inner (first :: rest)) (ifThen inner ((first :: rest).map (.renumber φ))) := by
  refine behind ?_
  rw [F.bracketed? h hseeks]
  cases hb : bracketed? first.line (first :: rest) with
  | none => exact stops _ _
  | some parts =>
    obtain ⟨condition, body⟩ := parts
    obtain ⟨hcondition, hbody⟩ := isInfix_bracketed? hb
    refine (matching R).seq (evaluate L (hcondition.trans h.isInfix).subset) fun v => ?_
    split
    · exact braced hinner (hbody.trans h.isInfix) (stops _ _)
    · exact (matching R).ret ()
    · exact stops _ _

theorem whileDo {first : Token} {rest : List Token} (h : Begins whole (first :: rest))
    (hseeks : seeksBrackets d (first :: rest) = true) :
    (matching R).Rel (whileDo inner (first :: rest)) (whileDo inner ((first :: rest).map (.renumber φ))) := by
  refine behind ?_
  rw [F.bracketed? h hseeks]
  cases hb : bracketed? first.line (first :: rest) with
  | none => exact stops _ _
  | some parts =>
    obtain ⟨condition, body⟩ := parts
    obtain ⟨hcondition, hbody⟩ := isInfix_bracketed? hb
    refine (matching R).seq (evaluate L (hcondition.trans h.isInfix).subset) fun v => ?_
    split
    · exact braced hinner (hbody.trans h.isInfix) (stops _ _)
    · exact stops _ _

omit L F in
theorem otherwise {first : Token} {rest : List Token} (h : Begins whole (first :: rest)) (helse : first.text = "else") :
    (matching R).Rel (otherwise inner (first :: rest)) (otherwise inner ((first :: rest).map (.renumber φ))) := by
  refine behind ?_
  cases rest with
  | nil => exact stops _ _
  | cons next rest =>
    have hrest : Begins whole ([] ++ first :: next :: rest) := h
    exact hinner (hrest.behind (by simp [startsBehind, helse]))

theorem doFor (rounds : Nat) {first : Token} {rest : List Token} (h : Begins whole (first :: rest))
    (hword : first.text = "doFor") :
    (matching R).Rel (doFor d rounds inner (first :: rest))
      (doFor d rounds inner ((first :: rest).map (.renumber φ))) := by
  have hseeks : seeksBrackets d (first :: rest) = true := by simp [seeksBrackets, hword]
  have hopening : FindsBracket φ first.line "(" rest := (F.finds h hseeks (by decide)).tail (by simp [hword])
  refine behind ?_
  have hsecond : (((first :: rest).map (Token.renumber φ)).drop 1).head?.all (·.text != "(") =
      ((first :: rest).drop 1).head?.all (·.text != "(") := by
    cases rest <;> rfl
  rw [hsecond]
  split
  · exact stops _ _
  · rw [Token.line_renumber, loopBracketed?_renumber hopening (F.finds h hseeks (by decide))]
    cases hb : loopBracketed? first.line (first :: rest) with
    | none => exact stops _ _
    | some parts =>
      obtain ⟨header, body⟩ := parts
      obtain ⟨hheader, hbody⟩ := isInfix_loopBracketed? hb
      rw [Option.map_some]
      dsimp only [Prod.map]
      rw [splitOn_renumber]
      have hparts : ∀ part ∈ splitOn ";" header, part ⊆ whole := fun part hpart u hu =>
        h.isInfix.subset (hheader.subset ((isInfix_splitOn ";" hpart).subset hu))
      generalize splitOn ";" header = parts at hparts
      rcases parts with _ | ⟨start, _ | ⟨condition, _ | ⟨update, _ | ⟨part, parts⟩⟩⟩⟩
      · exact stops _ _
      · exact stops _ _
      · exact stops _ _
      · refine (matching R).seq (assign L (hparts start (by simp))) fun _ => ?_
        refine (matching R).seq (evaluate L (hparts condition (by simp))) fun v => ?_
        split
        · rw [startsBlock_renumber]
          split
          · exact Simulation.loop (block hinner (hbody.trans h.isInfix)) (assign L (hparts update (by simp)))
              (evaluate L (hparts condition (by simp))) (.inl rfl) _
          · exact stops _ _
        · exact stops _ _
      · exact stops _ _

theorem statement (rounds : Nat) (h : Begins whole tokens)
    (hunmarked : ∀ first rest, Begins whole (first :: rest) → (matching R).Rel (unmarked d inner first rest)
      (unmarked d inner (first.renumber φ) (rest.map (.renumber φ)))) :
    (matching R).Rel (statement d rounds inner tokens) (statement d rounds inner (tokens.map (.renumber φ))) := by
  cases tokens with
  | nil => exact (matching R).ret ()
  | cons first rest =>
    have hseeks {word : String} (htext : (first.text == word) = true)
        (hword : word ∈ ["if", "while", "doFor", "print"]) :
        seeksBrackets d (first :: rest) = true := by
      have hmem : first.text ∈ ["if", "while", "doFor", "print"] := eq_of_beq htext ▸ hword
      exact (Bool.or_eq_true _ _).mpr (.inl (decide_eq_true hmem))
    simp only [Statement.statement, List.map_cons]
    change (matching R).Rel _ (if first.text == "if" then _ else if first.text == "else" then _
      else if first.text == "while" then _ else if first.text == "doFor" then _
      else if first.text == "print" then _ else _)
    split
    · exact ifThen L F hinner h (hseeks ‹_› (by decide))
    · split
      · exact otherwise hinner h (eq_of_beq ‹_›)
      · split
        · exact whileDo L F hinner h (hseeks ‹_› (by decide))
        · split
          · exact doFor L F hinner rounds h (eq_of_beq ‹_›)
          · split
            · exact print L F h (hseeks ‹_› (by decide))
            · exact hunmarked first rest h

omit L F in
theorem topLevel {braces : Nat} {pending : List Token} (h : Begins whole (pending.reverse ++ unstarted tokens)) :
    (matching R).Rel (topLevel inner true braces pending tokens)
      (topLevel inner true braces (pending.map (.renumber φ)) (tokens.map (.renumber φ))) := by
  induction tokens generalizing braces pending with
  | nil => exact stops _ _
  | cons t ts ih =>
    obtain ⟨kind, text, line⟩ := t
    by_cases hstart : kind = .start
    · subst hstart
      exact ih h
    · by_cases hfinish : kind = .finish
      · subst hfinish
        cases pending with
        | nil => exact (matching R).ret ()
        | cons last _ => exact stops _ _
      · rw [unstarted_of_ne hstart] at h
        generalize ht : (⟨kind, text, line⟩ : Token) = t at h
        have hinner' : IsInner t ∧ IsInner (t.renumber φ) := by
          subst ht
          exact ⟨⟨hstart, hfinish⟩, hstart, hfinish⟩
        have hgrown : Begins whole ((t :: pending).reverse ++ unstarted ts) := by
          rwa [List.reverse_cons, List.append_assoc, List.singleton_append]
        have grown {braces : Nat} : (matching R).Rel (Statement.topLevel inner true braces (t :: pending) ts)
            (Statement.topLevel inner true braces ((t :: pending).map (.renumber φ))
              (ts.map (.renumber φ))) := ih hgrown
        have ended {done : List Token} (hdone : Begins whole done) (ht : startsBehind [t] = true) :
            (matching R).Rel (do inner done; Statement.topLevel inner true 0 [] ts)
              (do inner (done.map (.renumber φ)); Statement.topLevel inner true 0 [] (ts.map (.renumber φ))) :=
          (matching R).seq (hinner hdone) fun _ => ih (h.behind ht)
        rw [List.map_cons, topLevel_cons inner hinner'.1, topLevel_cons inner hinner'.2]
        change (matching R).Rel _ (if endsStatement t then _ else if opensBlock t then _
          else if closesBlock t then _ else _)
        split
        · rename_i hend
          split
          · rw [← List.map_reverse]
            exact ended h.front (by simp [startsBehind, hend])
          · exact grown
        · split
          · exact grown
          · split
            · rename_i hclose
              split
              · exact stops _ _
              · rw [← List.map_cons, ← List.map_reverse]
                exact ended hgrown.front (by simp [startsBehind, hclose])
              · exact grown
            · exact grown

end Compound

section Program

variable {φ : Int → Int} {d : Dialect} {whole tokens : List Token}

theorem exec (L : Leaves R d whole) (F : Faithful φ d whole) (rounds : Nat)
    (hunmarked : ∀ {inner : List Token → Run Unit},
      (∀ {tokens}, Begins whole tokens → (matching R).Rel (inner tokens) (inner (tokens.map (.renumber φ)))) →
        ∀ first rest, Begins whole (first :: rest) → (matching R).Rel (unmarked d inner first rest)
          (unmarked d inner (first.renumber φ) (rest.map (.renumber φ)))) (depth : Nat) (h : Begins whole tokens) :
    (matching R).Rel (exec d rounds depth tokens) (exec d rounds depth (tokens.map (.renumber φ))) := by
  induction depth generalizing tokens with
  | zero => exact stops _ _
  | succ depth ih => exact statement L F ih rounds h (hunmarked ih)

theorem statements {limits : Limits}
    (hexec : ∀ {part}, Begins (unstarted tokens) part →
      (matching R).Rel (Statement.exec d limits.rounds limits.depth part)
      (Statement.exec d limits.rounds limits.depth (part.map (.renumber φ)))) :
    (matching R).Rel (Program.statements d limits tokens) (Program.statements d limits (tokens.map (.renumber φ))) := by
  rw [Program.statements_eq_framed, Program.statements_eq_framed]
  unfold Program.framed
  cases tokens with
  | nil => exact stops _ _
  | cons first rest =>
    obtain ⟨last, hlast⟩ : ∃ last, (first :: rest).getLast? = some last :=
      ⟨_, List.getLast?_eq_some_getLast (List.cons_ne_nil first rest)⟩
    have hlast' : ((first :: rest).map (Token.renumber φ)).getLast? = some (last.renumber φ) := by
      rw [List.getLast?_map, hlast, Option.map_some]
    rw [hlast, hlast']
    change (matching R).Rel (if Program.isFramed first last then _ else _)
      (if Program.isFramed first last then _ else _)
    split
    · rename_i hframed
      have hstart : first.kind = .start := eq_of_beq ((Bool.and_eq_true _ _).mp hframed).1
      have hskip {t : Token} (ht : t.kind = .start) (inner : List Token → Run Unit) (ts : List Token) :
          Statement.topLevel inner false 0 [] (t :: ts) = Statement.topLevel inner true 0 [] ts := by
        simp [Statement.topLevel, ht]
      have hstart' : (first.renumber φ).kind = .start := hstart
      rw [unstarted_of_start hstart] at hexec
      rw [List.map_cons, hskip hstart, hskip hstart']
      exact topLevel hexec ⟨[], [], by simp, rfl⟩
    · exact stops _ _

end Program

/-! ### Programs without functions -/

theorem of_likeness {x y : Run α} (h : likeness.Rel x y) : (matching State.Alike).Rel x y := by
  intro s t hst
  obtain ⟨hresult, halike⟩ := h s t hst
  exact ⟨congrArg Except.toOption hresult, halike⟩

theorem basicLeaves (whole : List Token) : Leaves State.Alike .basic whole where
  lookup u _ := of_likeness (likeness.lookup u.text)
  note event event' h h' := by
    intro s t hst
    exact ⟨rfl, ((State.Alike.note_passing s h).symm.trans hst).trans (State.Alike.note_passing t h')⟩
  log line := of_likeness (likeness.change fun _ _ h => h.log line)
  store u _ line v := of_likeness (likeness.store .basic line u.text v)

theorem basic_statements {φ : Int → Int} {tokens : List Token} (F : Faithful φ .basic (unstarted tokens))
    (limits : Limits) :
    (matching State.Alike).Rel (Program.statements .basic limits tokens)
      (Program.statements .basic limits (tokens.map (.renumber φ))) := by
  refine statements fun hpart => exec (basicLeaves _) F limits.rounds (fun hinner first rest h => ?_) limits.depth hpart
  rw [unmarked_basic, unmarked_basic]
  change (matching State.Alike).Rel _ (if opensBlock first then _ else _)
  split
  · exact block hinner h.isInfix
  · exact assign (basicLeaves _) h.isInfix.subset

end matching

end Bang
