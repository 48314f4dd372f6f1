import Bang.Binary64.Decimal

/-! How binary64 numbers are written: in their shortest form, with a set number of places, with an
exponent, or in the form that suits their size. -/

namespace Bang.Binary64

def zeros (n : Nat) : List Char := List.replicate n '0'

def leftPad (width : Nat) (cs : List Char) : List Char := zeros (width - cs.length) ++ cs

def exponentText (exponent : Int) : List Char :=
  'e' :: (if exponent < 0 then '-' else '+') :: leftPad 2 (Nat.toDigits 10 exponent.natAbs)

def pointed (keepPoint : Bool) : List Char → List Char
  | [] => []
  | [c] => if keepPoint then [c, '.'] else [c]
  | c :: cs => c :: '.' :: cs

def positional (digits : List Char) (point : Int) : List Char :=
  if point ≤ 0 then '0' :: '.' :: zeros (-point).toNat ++ digits
  else if digits.length ≤ point.toNat then digits ++ zeros (point.toNat - digits.length) ++ ['.', '0']
  else digits.take point.toNat ++ '.' :: digits.drop point.toNat

def layoutShortest (d : Decimal) : List Char :=
  let digits := Nat.toDigits 10 d.digits
  let point := digits.length + d.exponent
  -- positional from four zeros behind the point up to sixteen digits before it
  if -4 < point && point ≤ 16 then positional digits point
  else pointed false digits ++ exponentText (point - 1)

def render (layout : Nat → Int → List Char) (x : Float) : List Char :=
  match parts x with
  | .nan => ['n', 'a', 'n']
  | .infinite negative => if negative then ['-', 'i', 'n', 'f'] else ['i', 'n', 'f']
  | .finite negative m q => if negative then '-' :: layout m q else layout m q

def text (x : Float) : List Char :=
  render (fun m q => if m == 0 then ['0', '.', '0'] else layoutShortest (shortest m q)) x

def lastPlace : Nat := 1074

def lastDigit : Nat := 767

def layoutFixed (n : Nat) (keepPoint : Bool) (m : Nat) (q : Int) : List Char :=
  let k := min n lastPlace
  let digits := leftPad (k + 1) (Nat.toDigits 10 (places m q k).digits)
  let whole := digits.take (digits.length - k)
  let fraction := digits.drop (digits.length - k) ++ zeros (n - k)
  if fraction.isEmpty && !keepPoint then whole else whole ++ '.' :: fraction

def leading (n : Nat) (m : Nat) (q : Int) : List Char × Int :=
  if m == 0 then (zeros n, 0)
  else
    let k := min n lastDigit
    let d := significant m q k
    (Nat.toDigits 10 d.digits ++ zeros (n - k), d.exponent + k - 1)

def layoutExponent (n : Nat) (keepPoint : Bool) (m : Nat) (q : Int) : List Char :=
  let (digits, exponent) := leading (n + 1) m q
  pointed keepPoint digits ++ exponentText exponent

def stripFraction (cs : List Char) : List Char :=
  if '.' ∈ cs then
    let stripped := cs.reverse.dropWhile (· == '0')
    (if stripped.head? = some '.' then stripped.tail else stripped).reverse
  else cs

/-- `n` significant digits, positional if the exponent is small enough. Zeros at the end of the
fraction stay only if asked. -/
def layoutGeneral (n : Nat) (keepZeros : Bool) (m : Nat) (q : Int) : List Char :=
  let n := max 1 (if keepZeros then n else min n lastDigit)
  let (digits, exponent) := leading n m q
  if -4 ≤ exponent && exponent < n then
    let fixed := layoutFixed ((n : Int) - 1 - exponent).toNat keepZeros m q
    if keepZeros then fixed else stripFraction fixed
  else
    let mantissa := pointed keepZeros digits
    (if keepZeros then mantissa else stripFraction mantissa) ++ exponentText exponent

end Bang.Binary64
