import Bang.Formula.Eval
import Bang.Proofs.Chain

/-! Chains of integers as expressions: the tree that is read from one has the value of the chain. -/

namespace Bang

open Value (BinaryOp Comparison)

def Arithmetic.toBinary : Arithmetic → BinaryOp
  | mul => .mul
  | mod => .mod
  | add => .add
  | sub => .sub
  | bitAnd => .bitAnd
  | bitOr => .bitOr

def Relation.toComparison : Relation → Comparison
  | eq => .eq
  | lt => .lt
  | gt => .gt
  | le => .le
  | ge => .ge

def Operator.symbol : Operator → Formula.Symbol
  | arithmetic op => .operator op.toBinary
  | relation op => .comparison op.toComparison

namespace Formula

/-! ### The tree of a chain -/

theorem level_toBinary (op : Arithmetic) : level op.toBinary = op.level := by
  cases op <;> rfl

def joined (e : Expr) (op : Arithmetic) (f : Expr) : Expr := .binary op.toBinary e f

def links {α : Type} (rest : List (Arithmetic × α)) : List (BinaryOp × α) := rest.map fun (op, a) => (op.toBinary, a)

theorem joinLevel_links (n : Nat) (e : Expr) (rest : List (Arithmetic × Expr)) :
    joinLevel n e (links rest) =
      let parts := (Chain.cut (·.level != n) ⟨e, rest⟩).map (Chain.foldl joined)
      (parts.first, links parts.rest) := by
  induction rest generalizing e with
  | nil => rfl
  | cons link rest ih =>
    obtain ⟨op, f⟩ := link
    have hcut := Chain.cut_cons (p := fun op : Arithmetic => op.level != n) e op ⟨f, rest⟩
    have htail : links ((op, f) :: rest) = (op.toBinary, f) :: links rest := rfl
    rw [htail, joinLevel, level_toBinary]
    change _ = let parts := ((Chain.cons e op ⟨f, rest⟩).cut _).map (Chain.foldl joined);
      (parts.first, links parts.rest)
    by_cases hop : op.level = n
    · -- The first two operands become one, which then stands first.
      have hfirst := Chain.first_cut (fun op : Arithmetic => op.level != n) ⟨f, rest⟩
      have hgrown := Chain.cut_replace (p := fun op : Arithmetic => op.level != n) (joined e op f) ⟨f, rest⟩
      have hjoined := ih (joined e op f)
      rw [hgrown] at hjoined
      rw [if_pos (by simpa using hop), hcut, if_neg (by simpa using hop)]
      refine hjoined.trans ?_
      simp only [Chain.map, Chain.cons, hfirst, Chain.foldl]
      rfl
    · rw [if_neg (by simpa using hop), hcut, if_pos (by simpa using hop), ih]
      rfl

def joinedTo (n : Nat) (c : Chain Arithmetic Expr) : Expr × List (BinaryOp × Expr) :=
  let parts := (c.cut (n < ·.level)).map (Chain.join joined n)
  (parts.first, links parts.rest)

theorem joinLevel_joinedTo (n : Nat) (c : Chain Arithmetic Expr) :
    joinLevel (n + 1) (joinedTo n c).1 (joinedTo n c).2 = joinedTo (n + 1) c := by
  unfold joinedTo
  rw [joinLevel_links, ← Chain.join_succ]

def Operand.expr (o : Operand) : Expr := o.signed o.base

theorem joinPowers_links (o : Operand) (rest : List (Arithmetic × Operand)) :
    joinPowers o (links rest) = (o.expr, (links rest).map fun (op, p) => (op, p.expr)) := by
  induction rest generalizing o with
  | nil => rfl
  | cons link rest ih =>
    obtain ⟨op, p⟩ := link
    have hop : (op.toBinary == .pow) = false := by cases op <;> rfl
    have htail : links ((op, p) :: rest) = (op.toBinary, p) :: links rest := rfl
    rw [htail, joinPowers, ih, hop]
    rfl

theorem joinChain_links (c : Chain Arithmetic Operand) :
    joinChain c.first (links c.rest) = (c.map Operand.expr).join joined 6 := by
  have hstart : joinPowers c.first (links c.rest) = joinedTo 0 (c.map Operand.expr) := by
    have hsingle := Chain.cut_of_all (p := fun op : Arithmetic => decide (0 < op.level))
      (fun op => by cases op <;> rfl) (c.map Operand.expr)
    have hjoin : Chain.join joined 0 = Chain.first := rfl
    rw [joinPowers_links, joinedTo, hjoin, hsingle]
    simp [links, Chain.map]
  have hend : joinedTo 6 (c.map Operand.expr) = ((c.map Operand.expr).join joined 6, []) := by
    rw [joinedTo, Chain.cut_of_none fun op => by cases op <;> rfl]
    rfl
  unfold joinChain
  simp only [hstart, List.foldl_cons, List.foldl_nil, joinLevel_joinedTo, hend]

/-! ### Values -/

theorem ldiff_add_and (m n : Nat) : Nat.ldiff m n + (m &&& n) = m := by
  induction m using Nat.binaryRec generalizing n with
  | zero => simp [Nat.ldiff]
  | bit a m ih =>
    induction n using Nat.bitCasesOn with
    | bit b n =>
      rw [Nat.ldiff_bit, Nat.land_bit, Nat.bit_val, Nat.bit_val, Nat.bit_val]
      have := ih n
      cases a <;> cases b <;> simp <;> omega

theorem sub_and (m n : Nat) : m - (m &&& n) = Nat.ldiff m n := by
  have := ldiff_add_and m n
  omega

theorem bitAnd_eq_land (a b : Int) : Value.bitAnd a b = a.land b := by
  cases a <;> cases b <;> simp [Value.bitAnd, Int.land, sub_and]

theorem bitOr_eq_lor (a b : Int) : Value.bitOr a b = a.lor b := by
  cases a <;> cases b <;> simp [Value.bitOr, Int.lor, sub_and]

def outcome : Option Scalar → Except Fault Value
  | some a => .ok a.toValue
  | none => .error (.value .zeroModulus)

theorem binary_toValue (op : Arithmetic) (a b : Scalar) :
    (Value.binary op.toBinary a.toValue b.toValue).mapError Fault.ofValue = outcome (op.apply a b) := by
  -- Only `&` and `|` look at whether both operands are truth values.
  have hints (h : op ≠ .bitAnd ∧ op ≠ .bitOr) :
      Value.binary op.toBinary a.toValue b.toValue = Value.onInts op.toBinary a.toInt b.toInt := by
    cases op <;> cases a <;> cases b <;> first | rfl | simp at h
  cases op with
  | mul | add | sub =>
    rw [hints (by decide)]
    rfl
  | mod =>
    rw [hints (by decide), Arithmetic.toBinary, Value.onInts, Arithmetic.apply]
    by_cases hb : b.toInt = 0 <;>
      simp [hb, outcome, Except.mapError, Scalar.toValue, Fault.ofValue, Value.Fault.isBeyond]
  | bitAnd =>
    have hint (m n : Int) : outcome (some (.int (Value.bitAnd m n))) = outcome (some (.int (m.land n))) := by
      rw [bitAnd_eq_land]
    cases a <;> cases b
    · rfl
    all_goals exact hint _ _
  | bitOr =>
    have hint (m n : Int) : outcome (some (.int (Value.bitOr m n))) = outcome (some (.int (m.lor n))) := by
      rw [bitOr_eq_lor]
    cases a <;> cases b
    · rfl
    all_goals exact hint _ _

theorem same_toValue (a b : Scalar) : Value.same a.toValue b.toValue =
    (some (compare a.toInt b.toInt) == some .eq) := by
  cases a <;> cases b <;> simp only [Scalar.toValue, Value.same] <;> rfl

theorem order_toValue (op : Comparison) (a b : Scalar) :
    Value.order op a.toValue b.toValue = .ok (op.holds (compare a.toInt b.toInt)) := by
  cases a <;> cases b <;> simp only [Scalar.toValue, Value.order] <;> rfl

theorem holds_compare (op : Relation) (a b : Scalar) :
    op.toComparison.holds (compare a.toInt b.toInt) = op.holds a b := by
  rw [Bool.eq_iff_iff]
  cases op <;>
    simp [Relation.toComparison, Comparison.holds, Relation.holds, Int.compare_eq_lt, Int.compare_eq_gt]

theorem compareValues_toValue (op : Relation) (a b : Scalar) :
    Value.compareValues op.toComparison a.toValue b.toValue = .ok (op.holds a b) := by
  rw [← holds_compare]
  cases op with
  | eq => exact congrArg Except.ok (same_toValue a b)
  | lt | gt | le | ge => exact order_toValue _ a b

/-! ### Evaluating the tree -/

variable {names : String → Except Fault Value}

def combined (x : Except Fault Value) (op : Arithmetic) (y : Except Fault Value) : Except Fault Value := do
  let a ← x
  let b ← y
  (Value.binary op.toBinary a b).mapError .ofValue

theorem eval_joined (e : Expr) (op : Arithmetic) (f : Expr) :
    (joined e op f).eval names = combined (e.eval names) op (f.eval names) := by
  rw [joined, Expr.eval]
  rfl

theorem outcome_apply (x : Option Scalar) (op : Arithmetic) (y : Option Scalar) :
    outcome (do op.apply (← x) (← y)) = combined (outcome x) op (outcome y) := by
  cases x with
  | none => rfl
  | some a =>
    cases y with
    | none => rfl
    | some b => exact (binary_toValue op a b).symm

theorem eval_join {f : Scalar → Expr} (hf : ∀ a, (f a).eval names = .ok a.toValue) (c : Chain Arithmetic Scalar) :
    ((c.map f).join joined 6).eval names = outcome c.result := by
  have hitems : (c.map f).map (Expr.eval names) = (c.map some).map outcome := by
    rw [Chain.map_map, Chain.map_map]
    exact congrArg (fun g => c.map g) (funext hf)
  rw [Chain.join_hom eval_joined, hitems, ← Chain.join_hom outcome_apply]
  rfl

theorem evalLinks_outcome {tree : Chain Arithmetic Scalar → Expr}
    (htree : ∀ c, (tree c).eval names = outcome c.result) (left : Scalar)
    (sides : List (Relation × Chain Arithmetic Scalar)) :
    evalLinks names left.toValue (sides.map fun (op, side) => (op.toComparison, tree side)) =
      outcome (Chain.compared left sides) := by
  induction sides generalizing left with
  | nil => rfl
  | cons link sides ih =>
    obtain ⟨op, side⟩ := link
    rw [List.map_cons, evalLinks, htree, Chain.compared]
    cases side.result with
    | none => rfl
    | some right =>
      change ((Value.compareValues op.toComparison left.toValue right.toValue).mapError Fault.ofValue >>= fun holds =>
          if holds then evalLinks names right.toValue _ else return .bool false) =
        outcome (if op.holds left right then Chain.compared right sides else return .bool false)
      rw [compareValues_toValue]
      cases op.holds left right with
      | true => exact ih right
      | false => rfl

/-! ### Reading a chain -/

def operandOf : Scalar → Operand
  | .bool b => ⟨[], .constant (.bool b)⟩
  | .int n => ⟨if n < 0 then [.minus] else [], .constant (.int n.natAbs)⟩

theorem eval_operandOf (a : Scalar) : (operandOf a).expr.eval names = .ok a.toValue := by
  cases a with
  | bool b => rfl
  | int n =>
    by_cases hn : n < 0
    · have hsize : n = -(n.natAbs : Int) := by omega
      have hvalue : (Expr.unary .minus (.constant (.int n.natAbs))).eval names = .ok (.int (-(n.natAbs : Int))) := rfl
      simp only [operandOf, Operand.expr, Operand.signed, if_pos hn, List.foldl_cons, List.foldl_nil, hvalue, ← hsize]
      rfl
    · have hsize : (n.natAbs : Int) = n := by omega
      simp only [operandOf, Operand.expr, Operand.signed, if_neg hn, List.foldl_nil, hsize]
      rfl

def scalarLexemes : Scalar → List Lexeme
  | .bool b => [.constant (.bool b)]
  | .int n => (if n < 0 then [.symbol (.operator .sub)] else []) ++ [.constant (.int n.natAbs)]

def chainLexemes (c : Chain Operator Scalar) : List Lexeme :=
  scalarLexemes c.first ++ c.rest.flatMap fun (op, a) => .symbol op.symbol :: scalarLexemes a

def within (clause : Clause) : Reading := { level := { clause } }

theorem read_scalar (links : List (Expr × Comparison)) (operands : List (Operand × BinaryOp)) (a : Scalar) :
    (scalarLexemes a).foldlM Reading.next? (within { links, operands }) =
      some (within { links, operands, signs := (operandOf a).signs, current := some (operandOf a).base }) := by
  cases a with
  | bool b => rfl
  | int n => by_cases hn : n < 0 <;> simp [scalarLexemes, operandOf, hn] <;> rfl

theorem read_operator (links : List (Expr × Comparison)) (operands : List (Operand × BinaryOp)) (o : Operand)
    (op : Operator) :
    (within { links, operands, signs := o.signs, current := some o.base }).next? (.symbol op.symbol) =
      some (within (match op with
        | .arithmetic op => { links, operands := (o, op.toBinary) :: operands }
        | .relation op => { links := (Clause.chain operands o [], op.toComparison) :: links })) := by
  cases op <;> rfl

theorem finish?_within {clause : Clause} {e : Expr} (h : clause.current = some e) :
    (within clause).finish? = clause.finish? := by
  simp [within, Reading.finish?, Level.grouped?, Clause.isEmpty, h]

def sideExpr (c : Chain Arithmetic Scalar) : Expr := (c.map fun a => (operandOf a).expr).join joined 6

theorem joinChain_sideExpr (c : Chain Arithmetic Scalar) :
    joinChain (operandOf c.first) (links (c.map operandOf).rest) = sideExpr c := by
  have := joinChain_links (c.map operandOf)
  rwa [Chain.map_map] at this

theorem read_chain (earlier : List (Expr × Comparison)) (operands : List (Operand × BinaryOp)) (a : Scalar)
    (rest : List (Operator × Scalar)) :
    ((chainLexemes ⟨a, rest⟩).foldlM Reading.next? (within { links := earlier, operands })).bind Reading.finish? =
      let sides := Chain.sidesFrom a rest
      some (Clause.compared earlier
        (Clause.chain operands (operandOf sides.first.first) (links (sides.first.map operandOf).rest))
        (sides.rest.map fun (op, side) => (op.toComparison, sideExpr side))) := by
  induction rest generalizing earlier operands a with
  | nil =>
    rw [chainLexemes, List.flatMap_nil, List.append_nil, read_scalar, Option.bind_some, finish?_within rfl]
    rfl
  | cons link rest ih =>
    obtain ⟨op, b⟩ := link
    have hlexemes : chainLexemes ⟨a, (op, b) :: rest⟩ =
        scalarLexemes a ++ .symbol op.symbol :: chainLexemes ⟨b, rest⟩ := by
      simp [chainLexemes]
    rw [hlexemes, List.foldlM_append, read_scalar]
    simp only [Option.bind_eq_bind, Option.bind_some, List.foldlM_cons]
    rw [read_operator, Option.bind_some]
    cases op with
    | arithmetic op =>
      rw [ih]
      rfl
    | relation op =>
      rw [ih]
      simp only [Clause.chain, joinChain_sideExpr]
      rfl

theorem eval_read_chain (c : Chain Operator Scalar) :
    ∃ e, ((chainLexemes c).foldlM Reading.next? {}).bind Reading.finish? = some e ∧
      e.eval names = outcome c.eval := by
  have hside : ∀ side, (sideExpr side).eval names = outcome side.result := eval_join eval_operandOf
  refine ⟨_, read_chain [] [] c.first c.rest, ?_⟩
  simp only [Clause.chain, joinChain_sideExpr]
  unfold Chain.eval Chain.sides
  cases hlinks : (Chain.sidesFrom c.first c.rest).rest with
  | nil => exact hside _
  | cons link links =>
    change (Expr.compare (sideExpr _) _).eval names = _
    rw [Expr.eval, hside]
    cases (Chain.sidesFrom c.first c.rest).first.result with
    | none => rfl
    | some left => exact evalLinks_outcome hside left (link :: links)

end Formula

end Bang
