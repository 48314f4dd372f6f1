import Bang.Binary64.Basic
import Bang.Text.Blank
import Bang.Text.Digit

/-! Numbers written on their own, with the digits of any script: an optional sign, digits that may be
grouped by single underscores, blanks around the whole. -/

namespace Bang.Text

def groupedDigits? : List Char → Option (List Nat)
  | [] => none
  | [c] => (digit? c).map ([·])
  | c :: '_' :: cs => do return (← digit? c) :: (← groupedDigits? cs)
  | c :: cs => do return (← digit? c) :: (← groupedDigits? cs)

def ofDigits (digits : List Nat) : Nat := digits.foldl (10 * · + ·) 0

def signed : List Char → Bool × List Char
  | '-' :: cs => (true, cs)
  | '+' :: cs => (false, cs)
  | cs => (false, cs)

def digitLimit : Nat := 4300

inductive IntegerFault where
  | malformed
  | tooLong (digits : Nat)
  deriving DecidableEq, Repr

/-- White space around a number; the information separators do not count. -/
def isPadding (c : Char) : Bool := isBlank c && !(0x1C ≤ c.toNat && c.toNat ≤ 0x1F)

def withoutPadding (cs : List Char) : List Char :=
  ((cs.dropWhile isPadding).reverse.dropWhile isPadding).reverse

def readInteger (cs : List Char) : Except IntegerFault Int :=
  let (negative, rest) := signed (withoutPadding cs)
  let run := rest.takeWhile fun c => isDigit c || c == '_'
  match groupedDigits? run with
  | none => .error .malformed
  | some digits =>
    -- leading zeros count, and the limit comes before what stands behind the digits
    if digitLimit < digits.length then .error (.tooLong digits.length)
    else if run.length < rest.length then .error .malformed
    else .ok (if negative then -(ofDigits digits : Int) else ofDigits digits)

def optionalDigits? (cs : List Char) : Option (List Nat) := if cs.isEmpty then some [] else groupedDigits? cs

def exponent? : List Char → Option Int
  | [] => some 0
  | _ :: cs =>
    let (negative, rest) := signed cs
    (groupedDigits? rest).map fun digits => if negative then -(ofDigits digits : Int) else ofDigits digits

def isExponentMark (c : Char) : Bool := c == 'e' || c == 'E'

def size? (cs : List Char) : Option Float := do
  let mantissa := cs.takeWhile (!isExponentMark ·)
  let exponent ← exponent? (cs.dropWhile (!isExponentMark ·))
  let whole ← optionalDigits? (mantissa.takeWhile (· != '.'))
  let fraction ← optionalDigits? ((mantissa.dropWhile (· != '.')).drop 1)
  if whole.isEmpty && fraction.isEmpty then none
  else some (Binary64.ofDecimal (ofDigits (whole ++ fraction)) (exponent - fraction.length))

def readReal? (cs : List Char) : Option Float :=
  let (negative, rest) := signed (withoutPadding cs)
  (size? rest).map (Binary64.withSign negative)

end Bang.Text
