import Bang.Formula.Lexeme

/-! Expressions as trees, and how a flat chain of operands becomes one: powers bind tightest and to the
right, then signs, then the other operators level by level and to the left. -/

namespace Bang.Formula

open Value (BinaryOp UnaryOp Comparison)

inductive Expr where
  | constant (value : Value)
  | name (name : String)
  | list (items : List Expr)
  | tuple (items : List Expr)
  | record (fields : List (Expr × Expr))
  | item (target index : Expr)
  | call (target : Expr) (arguments : List Expr)
  | unary (op : UnaryOp) (operand : Expr)
  | binary (op : BinaryOp) (left right : Expr)
  | compare (first : Expr) (links : List (Comparison × Expr))

/-- An operand with the signs before it, the nearest first. -/
structure Operand where
  signs : List UnaryOp
  base : Expr

def Operand.signed (o : Operand) (e : Expr) : Expr := o.signs.foldl (fun e op => .unary op e) e

/-- A power takes everything up to the next other operator on its right, signs included; the signs
on its left apply to its result. -/
def joinPowers : Operand → List (BinaryOp × Operand) → Expr × List (BinaryOp × Expr)
  | o, [] => (o.signed o.base, [])
  | o, (op, p) :: rest =>
    let (e, links) := joinPowers p rest
    if op == .pow then (o.signed (.binary .pow o.base e), links) else (o.signed o.base, (op, e) :: links)

/-- Lower levels bind tighter. -/
def level : BinaryOp → Nat
  | .pow => 0
  | .mul | .div | .floorDiv | .mod => 1
  | .add | .sub => 2
  | .shiftLeft | .shiftRight => 3
  | .bitAnd => 4
  | .bitXor => 5
  | .bitOr => 6

def joinLevel (n : Nat) : Expr → List (BinaryOp × Expr) → Expr × List (BinaryOp × Expr)
  | e, [] => (e, [])
  | e, (op, f) :: rest =>
    if level op == n then joinLevel n (.binary op e f) rest
    else
      let (f, links) := joinLevel n f rest
      (e, (op, f) :: links)

def joinChain (first : Operand) (rest : List (BinaryOp × Operand)) : Expr :=
  let chain := joinPowers first rest
  ([1, 2, 3, 4, 5, 6].foldl (fun chain n => joinLevel n chain.1 chain.2) chain).1

end Bang.Formula
