import Bang.Text.Quoted
import Bang.Value.Basic

/-! Why an operation on values has no result. -/

namespace Bang.Value

inductive BinaryOp where
  | add
  | sub
  | mul
  | div
  | floorDiv
  | mod
  | pow
  | shiftLeft
  | shiftRight
  | bitAnd
  | bitXor
  | bitOr
  deriving DecidableEq, Repr

inductive UnaryOp where
  | plus
  | minus
  | invert
  deriving DecidableEq, Repr

inductive Comparison where
  | eq
  | ne
  | lt
  | gt
  | le
  | ge
  deriving DecidableEq, Repr

def BinaryOp.symbol : BinaryOp → String
  | add => "+"
  | sub => "-"
  | mul => "*"
  | div => "/"
  | floorDiv => "//"
  | mod => "%"
  | pow => "**"
  | shiftLeft => "<<"
  | shiftRight => ">>"
  | bitAnd => "&"
  | bitXor => "^"
  | bitOr => "|"

def BinaryOp.described : BinaryOp → String
  | pow => "** or pow()"
  | op => op.symbol

def UnaryOp.symbol : UnaryOp → String
  | plus => "+"
  | minus => "-"
  | invert => "~"

def Comparison.symbol : Comparison → String
  | eq => "=="
  | ne => "!="
  | lt => "<"
  | gt => ">"
  | le => "<="
  | ge => ">="

inductive TemplateFault where
  | tooFewValues
  | unusedValues
  | incomplete
  | incompleteKey
  | notAMapping
  | missingKey (key : String)
  | keyedList
  | starNotInteger
  | widthTooBig
  | precisionTooBig
  | starWidth
  | starPrecision
  | precisionTooLarge
  | unknownConversion (c : Char) (index : Nat)
  | integerRequired (c : Char) (kind : Kind)
  | numberRequired (c : Char) (kind : Kind)
  | realRequired (kind : Kind)
  | characterRequired
  | characterRange
  deriving DecidableEq, Repr

inductive Fault where
  | unaryOperand (op : UnaryOp) (kind : Kind)
  | operands (op : BinaryOp) (left right : Kind)
  | unordered (op : Comparison) (left right : Kind)
  | concatenation (kind other : Kind)
  | repetition (other : Kind)
  | indexTooLarge
  | repetitionTooLong
  | zeroDivisor
  | zeroFloorDivisor
  | zeroModulus
  | zeroFloatDivisor
  | zeroFloatFloorDivisor
  | zeroFloatModulus
  | zeroToNegativePower
  | powerOverflow
  | quotientTooLarge
  | intTooLarge
  | infinityToInt
  | nanToInt
  | negativeShift
  | shiftTooLarge
  | outOfMemory
  | tooManyDigits
  | complexResult
  | noItems (kind : Kind)
  | indexKind (kind index : Kind)
  | indexRange (kind : Kind)
  | missingField (key : String)
  | unusableKey (kind : Kind)
  | notCallable (kind : Kind)
  | halfCharacter
  | template (fault : TemplateFault)
  deriving DecidableEq, Repr

def bitLimit : Nat := 0x1000000000

def lengthLimit : Nat := 0x10000000

def fitsWord (n : Int) : Bool := -0x8000000000000000 ≤ n && n < 0x8000000000000000

def TemplateFault.message : TemplateFault → String
  | tooFewValues => "not enough arguments for format string"
  | unusedValues => "not all arguments converted during string formatting"
  | incomplete => "incomplete format"
  | incompleteKey => "incomplete format key"
  | notAMapping => "format requires a mapping"
  | missingKey key => String.ofList (Text.quoted key.toList)
  | keyedList => "list indices must be integers or slices, not str"
  | starNotInteger => "* wants int"
  | widthTooBig => "width too big"
  | precisionTooBig => "precision too big"
  | starWidth => "Python int too large to convert to C ssize_t"
  | starPrecision => "Python int too large to convert to C int"
  | precisionTooLarge => "precision too large"
  | unknownConversion c index =>
    let shown := if 31 ≤ c.toNat && c.toNat ≤ 126 then c else '?'
    let code := String.ofList (Nat.toDigits 16 c.toNat)
    s!"unsupported format character '{shown}' (0x{code}) at index {index}"
  | integerRequired c kind => s!"%{c} format: an integer is required, not {kind.name}"
  | numberRequired c kind => s!"%{c} format: a real number is required, not {kind.name}"
  | realRequired kind => s!"must be real number, not {kind.name}"
  | characterRequired => "%c requires int or char"
  | characterRange => "%c arg not in range(0x110000)"

def digitLimitMessage : String :=
  "Exceeds the limit (4300 digits) for integer string conversion; use sys.set_int_max_str_digits() to increase the limit"

def Fault.message : Fault → String
  | unaryOperand op kind => s!"bad operand type for unary {op.symbol}: '{kind.name}'"
  | operands op left right =>
    s!"unsupported operand type(s) for {op.described}: '{left.name}' and '{right.name}'"
  | unordered op left right =>
    s!"'{op.symbol}' not supported between instances of '{left.name}' and '{right.name}'"
  | concatenation kind other => s!"can only concatenate {kind.name} (not \"{other.name}\") to {kind.name}"
  | repetition other => s!"can't multiply sequence by non-int of type '{other.name}'"
  | indexTooLarge => "cannot fit 'int' into an index-sized integer"
  | repetitionTooLong => "repeated string is too long"
  | zeroDivisor => "division by zero"
  | zeroFloorDivisor => "integer division or modulo by zero"
  | zeroModulus => "integer modulo by zero"
  | zeroFloatDivisor => "float division by zero"
  | zeroFloatFloorDivisor => "float floor division by zero"
  | zeroFloatModulus => "float modulo"
  | zeroToNegativePower => "0.0 cannot be raised to a negative power"
  | powerOverflow => "(34, 'Numerical result out of range')"
  | quotientTooLarge => "integer division result too large for a float"
  | intTooLarge => "int too large to convert to float"
  | infinityToInt => "cannot convert float infinity to integer"
  | nanToInt => "cannot convert float NaN to integer"
  | negativeShift => "negative shift count"
  | shiftTooLarge => "too many digits in integer"
  | outOfMemory => ""
  | tooManyDigits => digitLimitMessage
  | complexResult => "complex numbers are not supported"
  | noItems kind => s!"'{kind.name}' object is not subscriptable"
  | indexKind .str index => s!"string indices must be integers, not '{index.name}'"
  | indexKind kind index => s!"{kind.name} indices must be integers or slices, not {index.name}"
  | indexRange .str => "string index out of range"
  | indexRange kind => s!"{kind.name} index out of range"
  | missingField key => key
  | unusableKey kind => s!"unhashable type: '{kind.name}'"
  | notCallable kind => s!"'{kind.name}' object is not callable"
  | halfCharacter => ""
  | template fault => fault.message

/-- Faults that are ours alone: the host has a value there, or runs out of memory at a size of its
own. -/
def Fault.isBeyond : Fault → Bool
  | outOfMemory | complexResult | halfCharacter => true
  | _ => false

end Bang.Value
