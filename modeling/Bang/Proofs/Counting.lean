import Bang.Proofs.Branching
import Bang.Proofs.Expression
import Bang.Proofs.Limits
import Bang.Proofs.Text.Numeral

/-! Counted loops: `doFor (i = a; i < b; i = i + 1)` with a body that leaves the counter alone. For every test and
every update the counter is printed and read back. Still the body runs once for each number from `a` up to `b`,
and the counter ends at the larger of the two. -/

namespace Bang

open Machine Statement Run

/-! ### Runs that end -/

/-- A computation with limited loops ends in a state, as soon as the limit is large enough. -/
def Run.Ends (x : Nat → Run Unit) (s t : State) : Prop :=
  ∃ enough, ∀ rounds, enough ≤ rounds → (x rounds).run s = (.ok (), t)

theorem Run.Ends.unique {x : Nat → Run Unit} {s t u : State} (ht : Ends x s t) (hu : Ends x s u) : t = u := by
  obtain ⟨enough, ht⟩ := ht
  obtain ⟨enough', hu⟩ := hu
  have hrun := (ht _ (Nat.le_max_left enough enough')).symm.trans (hu _ (Nat.le_max_right enough enough'))
  exact (Prod.mk.inj hrun).2

theorem Statement.ends_block {d : Dialect} {rounds depth : Nat} {tokens : List Token} {s t : State}
    (h : (block (exec d rounds depth) tokens : Run Unit).run s = (.ok (), t)) :
    Ends (fun rounds => block (exec d rounds depth) tokens) s t := by
  refine ⟨rounds, fun larger hle => ?_⟩
  have hinner : ∀ tokens, All (fun _ => True) tokens →
      limitSimulation.Rel (exec d rounds depth tokens) (exec d larger depth tokens) := fun tokens htokens =>
    Simulation.exec (limitSimulation.leaves d) limitSimulation.callLeaves (limitSimulation.allows hle)
      (limitSimulation.allows le_rfl) htokens
  rcases Simulation.block hinner (All.trivial tokens) s with hexhausted | hsame
  · rw [h] at hexhausted
    cases hexhausted
  · exact hsame.trans h

/-! ### Counters -/

namespace State

variable {d : Dialect} {name : String} {n : Nat} {s t : State}

structure Counts (d : Dialect) (name : String) (n : Nat) (s : State) : Prop where
  value : s.scope.get? name = some (.value (.int n))
  typed : d = .extended → s.journal.typeOf? name = some .number

def MayCount (d : Dialect) (name : String) (s : State) : Prop :=
  d = .extended → s.scope.get? name = none ∨ s.journal.typeOf? name = some .number

theorem Counts.mayCount (h : s.Counts d name n) : s.MayCount d name := fun hd => .inr (h.typed hd)

theorem Counts.congr (h : s.Counts d name n) (halike : s.Alike t) : t.Counts d name n where
  value := by rw [halike.scope, h.value]
  typed hd := by rw [halike.types, h.typed hd]

theorem MayCount.congr (h : s.MayCount d name) (halike : s.Alike t) : t.MayCount d name := by
  unfold MayCount
  rw [halike.scope, halike.types]
  exact h

theorem MayCount.put (h : s.MayCount d name) (n : Nat) : (s.put name (.int n)).Counts d name n where
  value := s.scope.get?_bind_self name (.int n)
  typed hd := by
    change Journal.typeOf? (_ :: s.journal) name = _
    rw [Journal.typeOf?_cons]
    cases hname : s.scope.get? name with
    | none => simp [Journal.typeGiven?, Value.type?]
    | some binding =>
      have htype : s.journal.typeOf? name = some .number := (h hd).resolve_left (by simp [hname])
      simp [Journal.typeGiven?, htype]

theorem MayCount.run_store (h : s.MayCount d name) (line : Int) (n : Nat) :
    (store d line name (.int n) : Run Unit).run s = (.ok (), s.put name (.int n)) := by
  apply run_store_of_none
  cases d with
  | basic => rfl
  | extended =>
    refine refusal?_extended_eq_none.mpr ⟨.number, rfl, fun hknown => ?_⟩
    exact (h rfl).resolve_left (Option.isSome_iff_ne_none.mp hknown)

end State

/-! ### The loop -/

theorem length_toDigits_of_le {n m : Nat} (hle : n ≤ m) (h : (Nat.toDigits 10 m).length ≤ Text.digitLimit) :
    (Nat.toDigits 10 n).length ≤ Text.digitLimit := by
  have hpos : 0 < Text.digitLimit := by decide
  rw [Nat.length_toDigits_le_iff (by decide) hpos] at h ⊢
  exact hle.trans_lt h

theorem not_mem_repr {c : Char} (hc : c.isDigit = false) (n : Nat) : c ∉ n.repr.toList := by
  rw [Nat.toList_repr]
  intro hmem
  exact Formula.ne_of_isDigit (Nat.isDigit_of_mem_toDigits (by decide) (by decide) hmem) hc rfl

/-- The head of a counted loop. The tokens between the brackets may stand on any lines; the brackets
stand on the line of the word. -/
structure Count where
  name : String
  first : Nat
  bound : Nat
  line : Int
  lines : Nat → Int
  name_ne : name ≠ ";"
  first_length : (Nat.toDigits 10 first).length ≤ Text.digitLimit
  bound_length : (Nat.toDigits 10 bound).length ≤ Text.digitLimit

namespace Count

variable (c : Count)

def start : List Token :=
  [⟨.identifier, c.name, c.lines 0⟩, ⟨.operator, "=", c.lines 1⟩, ⟨.number, c.first.repr, c.lines 2⟩]

def condition : List Token :=
  [⟨.identifier, c.name, c.lines 4⟩, ⟨.operator, "<", c.lines 5⟩, ⟨.number, c.bound.repr, c.lines 6⟩]

def successor : List Token :=
  [⟨.identifier, c.name, c.lines 10⟩, ⟨.operator, "+", c.lines 11⟩, ⟨.number, "1", c.lines 12⟩]

def update : List Token := ⟨.identifier, c.name, c.lines 8⟩ :: ⟨.operator, "=", c.lines 9⟩ :: c.successor

def header : List Token :=
  c.start ++ bracket ";" (c.lines 3) :: (c.condition ++ bracket ";" (c.lines 7) :: c.update)

def statement (body : List Token) : List Token := headed "doFor" c.line c.header body

def times : Nat := c.bound - c.first

/-- The states in which the turns start, when the loop starts in `s`. A turn runs the body, adds one
to the counter and compares it with the bound. -/
inductive Turns (body : State → State → Prop) (s : State) : Nat → State → Prop
  | first : Turns body s 0 ((s.put c.name (.int c.first)).consult c.condition)
  | next {k : Nat} {t u : State} (h : Turns body s k t) (hbody : body t u) :
    Turns body s (k + 1)
      (((u.consult c.successor).put c.name (.int (c.first + k + 1 : Nat))).consult c.condition)

variable {c} {d : Dialect} {n : Nat} {s t u : State}

theorem splitOn_header : splitOn ";" c.header = [c.start, c.condition, c.update] := by
  have hrepr (n : Nat) : n.repr ≠ ";" := by
    intro heq
    exact not_mem_repr (by decide) n (heq ▸ (by decide : ';' ∈ ";".toList))
  simp [header, start, condition, update, successor, splitOn, bracket, c.name_ne, hrepr]

theorem closing_not_mem_header : bracket ")" c.line ∉ c.header := by
  simp [header, start, condition, update, successor, bracket]

theorem run_start (h : s.MayCount d c.name) :
    (assign d c.start : Run Unit).run s = (.ok (), s.put c.name (.int c.first)) := by
  have hvalue : (assigned [⟨.number, c.first.repr, c.lines 2⟩] : Run Value) = pure (.int c.first) := by
    unfold assigned
    dsimp only
    unfold numberValue
    rw [if_neg (not_mem_repr (by decide) c.first), Nat.toList_repr, Text.readInteger_toDigits c.first_length]
  simp only [assign, start]
  rw [hvalue, pure_bind]
  exact h.run_store (c.lines 0) c.first

theorem run_condition (h : t.Counts d c.name n) (hn : (Nat.toDigits 10 n).length ≤ Text.digitLimit) :
    (evaluate c.condition : Run Value).run t = (.ok (.bool (n < c.bound)), t.consult c.condition) := by
  have hreads : t.scope.Reads c.condition ⟨.int n, [(.relation .lt, .int c.bound)]⟩ :=
    .cons (.relation .lt) (c.lines 5) (.int h.value hn) (.single (.repr c.bound_length (c.lines 6)))
  have heval : Chain.eval ⟨.int n, [(.relation .lt, .int c.bound)]⟩ = some (.bool (n < c.bound)) := by
    change (if decide ((n : Int) < c.bound) then some (Scalar.bool true) else some (.bool false)) = _
    by_cases hlt : n < c.bound <;> simp [hlt]
  exact State.run_evaluate_of_reads hreads heval

theorem run_update (h : t.Counts d c.name n) (hn : (Nat.toDigits 10 n).length ≤ Text.digitLimit) :
    (assign d c.update : Run Unit).run t =
      (.ok (), (t.consult c.successor).put c.name (.int (n + 1 : Nat))) := by
  have hreads : t.scope.Reads c.successor ⟨.int n, [(.arithmetic .add, .int 1)]⟩ :=
    .cons (.arithmetic .add) (c.lines 11) (.int h.value hn) (.single (@Scope.Operand.repr _ 1 (by decide) (c.lines 12)))
  have hsum : (evaluate c.successor : Run Value).run t = (.ok (.int (n + 1 : Nat)), t.consult c.successor) :=
    State.run_evaluate_of_reads hreads rfl
  have hoperands : (checkOperands c.successor : Run Unit).run t = (.ok (), t) := by
    simp only [successor, checkOperands]
    rw [run_bind_ok run_lookup?, h.value]
    rfl
  have hvalue : (assigned c.successor : Run Value).run t = (.ok (.int (n + 1 : Nat)), t.consult c.successor) :=
    (run_bind_ok hoperands).trans hsum
  have hstore := (h.mayCount.congr (t.alike_consult c.successor)).run_store (c.lines 8) (n + 1)
  simp only [assign, update, successor] at hvalue ⊢
  rw [run_bind_ok hvalue]
  exact hstore

theorem run_doFor {rounds : Nat} {inner : List Token → Run Unit} {body : List Token} {b : Bool}
    (hblock : startsBlock body = true) (hstart : (assign d c.start : Run Unit).run s = (.ok (), t))
    (hcondition : (evaluate c.condition : Run Value).run t = (.ok (.bool b), u)) :
    (doFor d rounds inner (c.statement body) : Run Unit).run s =
      (loop (block inner body) (assign d c.update) (evaluate c.condition) rounds (.bool b)).run u := by
  have hbrackets : loopBracketed? c.line (c.statement body) = some (c.header, body) :=
    loopBracketed?_headed "doFor" closing_not_mem_header
  have hopening : ((c.statement body).drop 1).head?.all (·.text != "(") = false := rfl
  have hline : (firstLine (c.statement body) : Run Int) = pure c.line := firstLine_headed _ _ _ _
  rewrite [doFor, hline, pure_bind, hopening, hbrackets]
  simp only [Bool.false_eq_true, if_false, splitOn_header, hblock, if_true]
  rw [run_bind_ok hstart, run_bind_ok hcondition]

/-! ### The turns -/

def Spared (c : Count) (d : Dialect) (body : State → State → Prop) : Prop :=
  ∀ n t, c.first ≤ n → n < c.bound → t.Counts d c.name n → ∃ u, body t u ∧ u.Counts d c.name n

theorem Spared.ends {depth : Nat} {body : List Token}
    (h : c.Spared d fun t u => ∃ rounds, (block (exec d rounds depth) body : Run Unit).run t = (.ok (), u)) :
    c.Spared d (Ends fun rounds => block (exec d rounds depth) body) := by
  intro n t hfirst hbound hcounts
  obtain ⟨u, ⟨rounds, hrun⟩, hu⟩ := h n t hfirst hbound hcounts
  exact ⟨u, ends_block hrun, hu⟩

variable {x : Nat → Run Unit} {k : Nat}

theorem length_turn (h : k ≤ c.times) : (Nat.toDigits 10 (c.first + k)).length ≤ Text.digitLimit := by
  unfold times at h
  -- Without a turn the counter stays at its first value, which may lie beyond the bound.
  by_cases hempty : c.bound ≤ c.first
  · exact length_toDigits_of_le (by omega) c.first_length
  · exact length_toDigits_of_le (by omega) c.bound_length

theorem Turns.counts (hbody : c.Spared d (Ends x)) (hstart : s.MayCount d c.name) (h : c.Turns (Ends x) s k t)
    (hk : k ≤ c.times) : t.Counts d c.name (c.first + k) := by
  induction h with
  | first => exact (hstart.put c.first).congr (State.alike_consult _ _)
  | @next k t u _ hrun ih =>
    have hbelow : c.first + k < c.bound := by
      unfold times at hk
      omega
    obtain ⟨v, hv, hcounts⟩ := hbody _ t (Nat.le_add_right _ _) hbelow (ih (Nat.le_of_succ_le hk))
    obtain rfl := hrun.unique hv
    have hmay := hcounts.mayCount.congr (State.alike_consult u c.successor)
    exact (hmay.put (c.first + k + 1)).congr (State.alike_consult _ _)

theorem Turns.loop_ends (hbody : c.Spared d (Ends x)) (hstart : s.MayCount d c.name) (left : Nat)
    (h : c.Turns (Ends x) s k t) (hk : k + left = c.times) :
    ∃ u enough, c.Turns (Ends x) s c.times u ∧ ∀ rounds more, enough ≤ rounds → left ≤ more →
      (loop (x rounds) (assign d c.update) (evaluate c.condition) more (.bool (c.first + k < c.bound))).run t =
        (.ok (), u) := by
  have hcounts := h.counts hbody hstart (by omega)
  -- The induction is on the turns that are left.
  induction left generalizing k t with
  | zero =>
    have hbound : decide (c.first + k < c.bound) = false := by
      unfold times at hk
      simp
      omega
    obtain rfl : k = c.times := hk
    refine ⟨t, 0, h, fun rounds more _ _ => ?_⟩
    rw [hbound, loop_of_not_isTrue rfl]
    rfl
  | succ left ih =>
    have hbelow : c.first + k < c.bound := by
      unfold times at hk
      omega
    obtain ⟨v, hv, hcounted⟩ := hbody _ t (Nat.le_add_right _ _) hbelow hcounts
    have hnext := h.next hv
    have hcountsNext := hnext.counts hbody hstart (by omega)
    obtain ⟨u, enough, hlast, hloop⟩ := ih hnext (by omega) hcountsNext
    obtain ⟨enough', hv⟩ := hv
    refine ⟨u, max enough enough', hlast, fun rounds more hrounds hmore => ?_⟩
    obtain ⟨more, rfl⟩ := Nat.exists_eq_add_of_le' (Nat.le_trans (Nat.le_add_left 1 left) hmore)
    have hupdate := run_update (c := c) hcounted (length_turn (by omega))
    have hmay := hcounted.mayCount.congr (State.alike_consult v c.successor)
    have htest := run_condition (hmay.put (c.first + k + 1)) (length_turn (k := k + 1) (by omega))
    rw [decide_eq_true hbelow, loop_succ rfl, run_bind_ok (hv rounds (by omega)), run_bind_ok hupdate,
      run_bind_ok htest]
    exact hloop rounds more (by omega) (by omega)

end Count

section Printing

def fromTwo : Count where
  name := "i"
  first := 2
  bound := 5
  line := 1
  lines _ := 1
  name_ne := by decide
  first_length := by decide
  bound_length := by decide

def counterToken : Token := ⟨.identifier, "i", 1⟩

def printCounter : List Token := [⟨.keyword, "print", 1⟩, bracket "(" 1, counterToken, bracket ")" 1]

def printBody : List Token := braced 1 2 (printCounter ++ [bracket "!" 1])

theorem run_printBody {t : State} {n : Nat} (h : t.Counts .extended "i" n)
    (hn : (Nat.toDigits 10 n).length ≤ Text.digitLimit) :
    (block (exec .extended 0 1) printBody : Run Unit).run t = (.ok (), (t.consult [counterToken]).log n.repr) := by
  have hvalue : (evaluate [counterToken] : Run Value).run t = (.ok (.int n), t.consult [counterToken]) :=
    State.run_evaluate_of_reads (.single (.int h.value hn)) rfl
  have htext : (Value.int n).display = some (Nat.toDigits 10 n) := by
    simp [Value.display, Value.literal, Value.literalWith, Value.intText?, Value.intText, hn]
  have hprint : (print printCounter : Run Unit).run t = (.ok (), (t.consult [counterToken]).log n.repr) := by
    have hbrackets : bracketed? 1 printCounter = some ([counterToken], []) := rfl
    rw [Nat.repr_eq_ofList_toDigits]
    exact run_print hbrackets hvalue htext
  have hblock : (block (exec .extended 0 1) printBody : Run Unit) = (do print printCounter; pure ()) := rfl
  rw [hblock, run_bind_ok hprint]
  rfl

theorem spared_printBody :
    fromTwo.Spared .extended fun t u =>
      ∃ rounds, (block (exec .extended rounds 1) printBody : Run Unit).run t = (.ok (), u) := by
  intro n t _ hbound hcounts
  have hlength := length_toDigits_of_le (Nat.le_of_lt hbound) fromTwo.bound_length
  have hread := hcounts.congr (t.alike_consult [counterToken])
  exact ⟨_, ⟨0, run_printBody hcounts hlength⟩, hread.value, hread.typed⟩

theorem logs_of_turns {s t : State} {k : Nat} (hstart : s.MayCount .extended "i")
    (h : fromTwo.Turns (Ends fun rounds => block (exec .extended rounds 1) printBody) s k t) (hk : k ≤ fromTwo.times) :
    t.logs = s.logs ++ (List.range k).map fun j => (2 + j).repr := by
  induction h with
  | first =>
    rw [(State.alike_consult _ _).logs]
    exact (List.append_nil _).symm
  | @next k t u h hrun ih =>
    have hcounts := h.counts spared_printBody.ends hstart (Nat.le_of_succ_le hk)
    have hprint := run_printBody hcounts (Count.length_turn (Nat.le_of_succ_le hk))
    obtain rfl := hrun.unique (ends_block hprint)
    have hlog : ((t.consult [counterToken]).log (2 + k).repr).logs = t.logs ++ [(2 + k).repr] :=
      congrArg (· ++ [(2 + k).repr]) (t.alike_consult _).logs
    rw [List.range_succ, List.map_append, ← List.append_assoc, ← ih (Nat.le_of_succ_le hk),
      (State.alike_consult _ _).logs]
    exact (State.alike_consult _ _).logs.trans hlog

end Printing

end Bang
