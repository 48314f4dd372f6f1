import Bang.Binary64.Basic

/-! Remainder, floor division and powers of binary64 numbers. A remainder takes the sign of the
divisor; the quotient that goes with it is rounded down. -/

namespace Bang.Binary64

/-- The remainder of `x` by a nonzero `y`, with the sign of `x`. It is exact. -/
def truncatedMod (x y : Float) : Float :=
  match parts x, parts y with
  | .finite negative m e, .finite _ n f =>
    let low := min e f
    let rest := (m * twoTo (e - low).toNat) % (n * twoTo (f - low).toNat)
    let size := if 0 ≤ low then ofRatio (rest * twoTo low.toNat) 1 else ofRatio rest (twoTo (-low).toNat)
    withSign negative size
  | .finite .., .infinite _ => x
  | _, _ => 0.0 / 0.0

def floorMod (x y : Float) : Float :=
  let rest := truncatedMod x y
  if rest == 0.0 then withSign (isNegative y) 0.0
  else if (y < 0.0) != (rest < 0.0) then rest + y else rest

def floor (x : Float) : Float :=
  match parts x with
  | .finite negative mantissa exponent =>
    if 0 ≤ exponent then x
    else
      let unit := twoTo (-exponent).toNat
      let down := mantissa / unit + (if negative && mantissa % unit != 0 then 1 else 0)
      withSign negative (ofRatio down 1)
  | _ => x

def floorDiv (x y : Float) : Float :=
  let rest := truncatedMod x y
  let quotient := (x - rest) / y
  let quotient := if rest != 0.0 && (y < 0.0) != (rest < 0.0) then quotient - 1.0 else quotient
  if quotient == 0.0 then withSign (isNegative (x / y)) 0.0
  else
    let down := floor quotient
    if 0.5 < quotient - down then down + 1.0 else down

def isOdd (x : Float) : Bool :=
  match parts x with
  | .finite _ mantissa exponent =>
    exponent ≤ 0 && mantissa % twoTo (-exponent).toNat == 0 && mantissa / twoTo (-exponent).toNat % 2 == 1
  | _ => false

inductive Power where
  | value (x : Float)
  | zeroBase
  | overflow
  | notReal

def power (x y : Float) : Power :=
  if y == 0.0 || x == 1.0 then .value 1.0
  else if x.isNaN then .value x
  else if y.isNaN then .value y
  else if y.isInf then
    let size := x.abs
    if size == 1.0 then .value 1.0
    else .value (if (0.0 < y) == (1.0 < size) then infinity else 0.0)
  else if x.isInf then
    if 0.0 < y then .value (if isOdd y then x else x.abs)
    else .value (withSign (isOdd y && x < 0.0) 0.0)
  else if x == 0.0 then
    if y < 0.0 then .zeroBase else .value (if isOdd y then x else 0.0)
  else if x < 0.0 && floor y != y then .notReal
  else
    let size := Float.pow x.abs y
    if size.isInf then .overflow else .value (withSign (x < 0.0 && isOdd y) size)

end Bang.Binary64
