import Bang.Formula.Expr

/-! Reading an expression from its lexemes, one lexeme at a time. What is open is kept on a stack: one
level for each bracket, and in each level the clause that is being read. -/

namespace Bang.Formula

open Value (BinaryOp UnaryOp Comparison)

/-- An expression being read. Lists hold the newest entry first. -/
structure Clause where
  links : List (Expr × Comparison) := []
  operands : List (Operand × BinaryOp) := []
  signs : List UnaryOp := []
  /-- The operand just read; `none` where one is expected. -/
  current : Option Expr := none
  /-- The operand is a text that a further text would extend. -/
  isText : Bool := false

namespace Clause

def isEmpty (c : Clause) : Bool :=
  c.links.isEmpty && c.operands.isEmpty && c.signs.isEmpty && c.current.isNone

def chain : List (Operand × BinaryOp) → Operand → List (BinaryOp × Operand) → Expr
  | [], first, rest => joinChain first rest
  | (o, op) :: earlier, p, rest => chain earlier o ((op, p) :: rest)

def side? (c : Clause) : Option Expr := c.current.map fun e => chain c.operands ⟨c.signs, e⟩ []

def compared : List (Expr × Comparison) → Expr → List (Comparison × Expr) → Expr
  | [], e, [] => e
  | [], e, links => .compare e links
  | (e, op) :: earlier, f, links => compared earlier e ((op, f) :: links)

def finish? (c : Clause) : Option Expr := c.side?.map fun e => compared c.links e []

def extend (c : Clause) (e : Expr) : Clause := { c with current := some e, isText := false }

def operand? (c : Clause) (e : Expr) : Option Clause :=
  if c.current.isNone then some (c.extend e) else none

def text? (c : Clause) (cs : List Char) : Option Clause :=
  match c.current, c.isText with
  | none, _ => some { c with current := some (.constant (.str (String.ofList cs))), isText := true }
  | some (.constant (.str s)), true =>
    some { c with current := some (.constant (.str (s ++ String.ofList cs))) }
  | _, _ => none

def operator? (c : Clause) (symbol : Symbol) : Option Clause :=
  match c.current with
  | none => symbol.sign?.map fun op => { c with signs := op :: c.signs }
  | some e =>
    match symbol with
    | .operator op => some { links := c.links, operands := (⟨c.signs, e⟩, op) :: c.operands }
    | .comparison op => c.side?.map fun side => { links := (side, op) :: c.links }
    | _ => none

end Clause

structure Level where
  items : List Expr := []
  fields : List (Expr × Expr) := []
  key : Option Expr := none
  clause : Clause := {}

namespace Level

def comma? (l : Level) (isRecord : Bool) : Option Level := do
  let e ← l.clause.finish?
  if isRecord then return { fields := (← l.key, e) :: l.fields }
  else return { items := e :: l.items }

def colon? (l : Level) : Option Level := do
  let e ← l.clause.finish?
  if l.key.isSome then none else return { l with key := some e, clause := {} }

def allItems? (l : Level) : Option (List Expr) :=
  if l.clause.isEmpty then some l.items.reverse
  else l.clause.finish?.map fun e => (e :: l.items).reverse

/-- Items with a comma are a tuple; one without is itself. -/
def grouped? (l : Level) : Option Expr :=
  if l.items.isEmpty && !l.clause.isEmpty then l.clause.finish? else l.allItems?.map .tuple

def fields? (l : Level) : Option (List (Expr × Expr)) :=
  if l.clause.isEmpty && l.key.isNone then some l.fields.reverse
  else do return ((← l.key, ← l.clause.finish?) :: l.fields).reverse

def close? (l : Level) : Bracket → Option Expr
  | .round => l.grouped?
  | .square => l.allItems?.map .list
  | .curly => l.fields?.map .record

def attach? (l : Level) (target : Expr) : Bracket → Option Expr
  | .round => l.allItems?.map (.call target)
  | .square => if l.clause.isEmpty && l.items.isEmpty then none else l.grouped?.map (.item target)
  | .curly => none

end Level

/-- Where the reading stands: the innermost level, and the levels around it with the brackets that
opened the next one. -/
structure Reading where
  level : Level := {}
  outer : List (Level × Bracket) := []

namespace Reading

def isRecord (r : Reading) : Bool := r.outer.head?.any fun entry => entry.2 == .curly

def inClause (r : Reading) (f : Clause → Option Clause) : Option Reading :=
  (f r.level.clause).map fun clause => { r with level := { r.level with clause } }

def symbol? (r : Reading) : Symbol → Option Reading
  | .opening bracket => some { level := {}, outer := (r.level, bracket) :: r.outer }
  | .closing bracket =>
    match r.outer with
    | (level, opened) :: outer =>
      if opened == bracket then do
        let e ← match level.clause.current with
          | none => r.level.close? bracket
          | some target => r.level.attach? target bracket
        return { level := { level with clause := level.clause.extend e }, outer }
      else none
    | [] => none
  | .comma => (r.level.comma? r.isRecord).map fun level => { r with level }
  | .colon => if r.isRecord then r.level.colon?.map fun level => { r with level } else none
  | symbol => r.inClause (·.operator? symbol)

def next? (r : Reading) : Lexeme → Option Reading
  | .constant value => r.inClause (·.operand? (.constant value))
  | .name name => r.inClause (·.operand? (.name name))
  | .text cs => r.inClause (·.text? cs)
  | .symbol symbol => r.symbol? symbol
  | .lineEnd => none

def finish? (r : Reading) : Option Expr :=
  if r.outer.isEmpty && !(r.level.items.isEmpty && r.level.clause.isEmpty) then r.level.grouped? else none

end Reading

def parse? (cs : List Char) : Option Expr := do
  let reading ← (← lexemes cs).foldlM Reading.next? {}
  reading.finish?

end Bang.Formula
