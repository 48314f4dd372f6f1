import Bang.Binary64.Arithmetic
import Bang.Value.Order
import Bang.Value.Template

/-! Operators on values. Truth values count as integers, an integer beside a decimal becomes a decimal,
division and remainder round down, and a percent sign behind a text fills it with values. -/

namespace Bang.Value

/-- Integers in two's complement without end: `negSucc m` has the bits of `m` inverted. -/
def bitAnd : Int → Int → Int
  | .ofNat m, .ofNat n => .ofNat (m &&& n)
  | .ofNat m, .negSucc n => .ofNat (m - (m &&& n))
  | .negSucc m, .ofNat n => .ofNat (n - (n &&& m))
  | .negSucc m, .negSucc n => .negSucc (m ||| n)

def bitOr : Int → Int → Int
  | .ofNat m, .ofNat n => .ofNat (m ||| n)
  | .ofNat m, .negSucc n => .negSucc (n - (n &&& m))
  | .negSucc m, .ofNat n => .negSucc (m - (m &&& n))
  | .negSucc m, .negSucc n => .negSucc (m &&& n)

def bitXor : Int → Int → Int
  | .ofNat m, .ofNat n => .ofNat (m ^^^ n)
  | .ofNat m, .negSucc n => .negSucc (m ^^^ n)
  | .negSucc m, .ofNat n => .negSucc (m ^^^ n)
  | .negSucc m, .negSucc n => .ofNat (m ^^^ n)

/-- An integer is kept in groups of thirty bits. -/
def groups (bits : Nat) : Nat := (bits + 29) / 30

def addressLimit : Nat := (0x7FFFFFFFFFFFFFFF - 24) / 4

def shiftLeft (a b : Int) : Except Fault Int :=
  if b < 0 then .error .negativeShift
  else if a == 0 then .ok 0
  else if addressLimit < groups (a.natAbs.log2 + 1) + groups b.toNat then .error .shiftTooLarge
  else if (bitLimit : Int) ≤ b then .error .outOfMemory
  else .ok (a * (Nat.pow 2 b.toNat : Nat))

def shiftRight (a b : Int) : Except Fault Int :=
  if b < 0 then .error .negativeShift
  else if (a.natAbs.log2 : Int) + 1 < b then .ok (if a < 0 then -1 else 0)
  else .ok (Int.fdiv a (Nat.pow 2 b.toNat : Nat))

def powFloat (x y : Float) : Except Fault Value :=
  match Binary64.power x y with
  | .value z => .ok (.float z)
  | .zeroBase => .error .zeroToNegativePower
  | .overflow => .error .powerOverflow
  | .notReal => .error .complexResult

def toFloat (n : Int) : Except Fault Float :=
  match Binary64.ofInt? n with
  | some x => .ok x
  | none => .error .intTooLarge

def powInt (a b : Int) : Except Fault Value := do
  if b < 0 then powFloat (← toFloat a) (← toFloat b)
  else if a.natAbs ≤ 1 then
    return .int (if b == 0 then 1 else if b % 2 == 0 then a * a else a)
  else if bitLimit < a.natAbs.log2 * b.toNat then .error .outOfMemory
  else
    let size : Int := (Nat.pow a.natAbs b.toNat : Nat)
    return .int (if a < 0 && b % 2 == 1 then -size else size)

/-- The quotient of two integers, rounded once. -/
def divideInts (a b : Int) : Except Fault Value :=
  if b == 0 then .error .zeroDivisor
  else
    let x := Binary64.ofRatio a.natAbs b.natAbs
    if Binary64.isFinite x then .ok (.float (Binary64.withSign ((a < 0) != (b < 0)) x))
    else .error .quotientTooLarge

def onInts (op : BinaryOp) (a b : Int) : Except Fault Value :=
  match op with
  | .add => .ok (.int (a + b))
  | .sub => .ok (.int (a - b))
  | .mul => .ok (.int (a * b))
  | .div => divideInts a b
  | .floorDiv => if b == 0 then .error .zeroFloorDivisor else .ok (.int (Int.fdiv a b))
  | .mod => if b == 0 then .error .zeroModulus else .ok (.int (Int.fmod a b))
  | .pow => powInt a b
  | .shiftLeft => (shiftLeft a b).map .int
  | .shiftRight => (shiftRight a b).map .int
  | .bitAnd => .ok (.int (bitAnd a b))
  | .bitXor => .ok (.int (bitXor a b))
  | .bitOr => .ok (.int (bitOr a b))

def onFloats (op : BinaryOp) (x y : Float) : Except Fault Value :=
  match op with
  | .add => .ok (.float (x + y))
  | .sub => .ok (.float (x - y))
  | .mul => .ok (.float (x * y))
  | .div => if y == 0.0 then .error .zeroFloatDivisor else .ok (.float (x / y))
  | .floorDiv =>
    if y == 0.0 then .error .zeroFloatFloorDivisor else .ok (.float (Binary64.floorDiv x y))
  | .mod => if y == 0.0 then .error .zeroFloatModulus else .ok (.float (Binary64.floorMod x y))
  | .pow => powFloat x y
  | op => .error (.operands op .float .float)

def BinaryOp.isArithmetic : BinaryOp → Bool
  | .add | .sub | .mul | .div | .floorDiv | .mod | .pow => true
  | _ => false

def onBools (op : BinaryOp) (a b : Bool) : Option Value :=
  match op with
  | .bitAnd => some (.bool (a && b))
  | .bitOr => some (.bool (a || b))
  | .bitXor => some (.bool (a != b))
  | _ => none

def onNumbers (op : BinaryOp) (a b : Value) : Except Fault Value :=
  match a.number?, b.number? with
  | some (.int m), some (.int n) => onInts op m n
  | some m, some n =>
    if op.isArithmetic then do
      let real : Number → Except Fault Float
        | .int k => toFloat k
        | .float x => .ok x
      onFloats op (← real m) (← real n)
    else .error (.operands op a.kind b.kind)
  | _, _ => .error (.operands op a.kind b.kind)

def repetitions (tooLong : Fault) (length : Nat) (n : Int) : Except Fault Nat :=
  if !fitsWord n then .error .indexTooLarge
  else if 0x8000000000000000 ≤ n * length then .error tooLong
  else if (lengthLimit : Int) ≤ n * length then .error .outOfMemory
  else .ok (if length == 0 then 0 else n.toNat)

def repeated (n : Nat) (items : List α) : List α := (List.replicate n items).flatten

def repeatSequence? (v count : Value) : Option (Except Fault Value) :=
  let times (tooLong : Fault) (length : Nat) : Except Fault Nat :=
    match count.int? with
    | some n => repetitions tooLong length n
    | none => .error (.repetition count.kind)
  match v with
  | .str s => some do
    return .str (String.ofList (repeated (← times .repetitionTooLong s.length) s.toList))
  | .list items => some do return .list (repeated (← times .outOfMemory items.length) items)
  | .tuple items => some do return .tuple (repeated (← times .outOfMemory items.length) items)
  | _ => none

def multiply (a b : Value) : Except Fault Value :=
  match repeatSequence? a b, repeatSequence? b a with
  | some result, _ => result
  | none, some result => result
  | none, none => onNumbers .mul a b

def addValues (a b : Value) : Except Fault Value :=
  match a, b with
  | .str s, .str t => .ok (.str (s ++ t))
  | .list as, .list bs => .ok (.list (as ++ bs))
  | .tuple as, .tuple bs => .ok (.tuple (as ++ bs))
  | .str _, _ | .list _, _ | .tuple _, _ => .error (.concatenation a.kind b.kind)
  | _, _ => onNumbers .add a b

def mergeFields (as bs : List (String × Value)) : List (String × Value) :=
  as.map (fun (key, v) => (key, (bs.lookup key).getD v)) ++
    bs.filter fun (key, _) => !as.any fun (k, _) => k == key

def binary (op : BinaryOp) (a b : Value) : Except Fault Value :=
  match op, a, b with
  | .add, a, b => addValues a b
  | .mul, a, b => multiply a b
  | .mod, .str template, v => (Template.fill template v).map .str
  | .bitOr, .record as, .record bs => .ok (.record (mergeFields as bs))
  | op, .bool p, .bool q => (onBools op p q).elim (onNumbers op a b) .ok
  | op, a, b => onNumbers op a b

def unary (op : UnaryOp) (v : Value) : Except Fault Value :=
  match op, v.number? with
  | .plus, some (.int n) => .ok (.int n)
  | .plus, some (.float x) => .ok (.float x)
  | .minus, some (.int n) => .ok (.int (-n))
  | .minus, some (.float x) => .ok (.float (-x))
  | .invert, some (.int n) => .ok (.int (-n - 1))
  | op, _ => .error (.unaryOperand op v.kind)

end Bang.Value
