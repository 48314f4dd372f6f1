/-! Binary64 numbers taken apart into sign, mantissa and exponent, and made from exact ratios. Every
operation here works on the integers behind the number, so that nothing is rounded twice. -/

namespace Bang.Binary64

/-- The value of `finite` is `± mantissa * 2 ^ exponent`. -/
inductive Parts where
  | finite (negative : Bool) (mantissa : Nat) (exponent : Int)
  | infinite (negative : Bool)
  | nan
  deriving DecidableEq, Repr

def twoTo (n : Nat) : Nat := Nat.pow 2 n

def tenTo (n : Nat) : Nat := Nat.pow 10 n

def ofBits (bits : Nat) : Parts :=
  let negative := bits / twoTo 63 % 2 == 1
  let biased : Nat := bits / twoTo 52 % twoTo 11
  let fraction := bits % twoTo 52
  if biased == 2047 then if fraction == 0 then .infinite negative else .nan
  else if biased == 0 then .finite negative fraction (-1074)
  else .finite negative (twoTo 52 + fraction) ((biased : Int) - 1075)

def parts (x : Float) : Parts := ofBits x.toBits.toNat

def infinity : Float := Float.ofBits 0x7FF0000000000000

def isFinite (x : Float) : Bool :=
  match parts x with
  | .finite .. => true
  | _ => false

def isNegative (x : Float) : Bool := x.toBits.toNat / twoTo 63 == 1

def withSign (negative : Bool) (x : Float) : Float := if negative then -x else x

/-- `num / den` rounded to an integer, a half to the even neighbour. -/
def roundRatio (num den : Nat) : Nat :=
  let quotient := num / den
  let twice := 2 * (num % den)
  if twice < den || (twice == den && quotient % 2 == 0) then quotient else quotient + 1

def scaled (num den : Nat) (e : Int) : Nat × Nat :=
  if 0 ≤ e then (num, den * twoTo e.toNat) else (num * twoTo (-e).toNat, den)

/-- The exponent at which `num / den` has a mantissa of 53 bits, or the least exponent there is. -/
def exponentFor (num den : Nat) : Int :=
  let low : Int := num.log2 - den.log2 - 53
  let (n, d) := scaled num den low
  max (-1074) (if n / d < twoTo 53 then low else low + 1)

/-- The number nearest to `num / den`, a half to the even neighbour; infinite when the ratio is too
large. -/
def ofRatio (num den : Nat) : Float :=
  if num == 0 || den == 0 then 0.0
  else
    let e := exponentFor num den
    let (n, d) := scaled num den e
    -- rounding up to the next power of two carries into the exponent field, as it should
    let bits := (e + 1074).toNat * twoTo 52 + roundRatio n d
    if bits < 0x7FF0000000000000 then Float.ofBits bits.toUInt64 else infinity

def ofDecimal (digits : Nat) (exponent : Int) : Float :=
  let magnitude : Int := (Nat.toDigits 10 digits).length + exponent
  if digits == 0 || magnitude < -330 then 0.0
  else if 330 < magnitude then infinity
  else if 0 ≤ exponent then ofRatio (digits * tenTo exponent.toNat) 1
  else ofRatio digits (tenTo (-exponent).toNat)

def ofInt? (n : Int) : Option Float :=
  let x := ofRatio n.natAbs 1
  if isFinite x then some (withSign (n < 0) x) else none

def truncate (negative : Bool) (mantissa : Nat) (exponent : Int) : Int :=
  let magnitude := if 0 ≤ exponent then mantissa * twoTo exponent.toNat else mantissa / twoTo (-exponent).toNat
  if negative then -(magnitude : Int) else magnitude

def compareInt (n : Int) (x : Float) : Option Ordering :=
  match parts x with
  | .nan => none
  | .infinite negative => some (if negative then .gt else .lt)
  | .finite negative mantissa exponent =>
    let signed : Int := if negative then -(mantissa : Int) else mantissa
    some (compare (n * twoTo (-exponent).toNat) (signed * twoTo exponent.toNat))

def compareFloat (x y : Float) : Option Ordering :=
  if x < y then some .lt else if y < x then some .gt else if x == y then some .eq else none

end Bang.Binary64
