import Bang.Binary64.Basic

/-! The decimal digits of a positive binary64 number `m * 2 ^ q`: the fewest that read back as the same
number, or a set number of them. -/

namespace Bang.Binary64

structure Decimal where
  digits : Nat
  exponent : Int
  deriving DecidableEq, Repr

def compareScaled (a : Nat) (i : Int) (b : Nat) (j : Int) : Ordering :=
  compare (a * tenTo i.toNat * twoTo (-j).toNat) (b * twoTo j.toNat * tenTo (-i).toNat)

/-- Below a power of two the next number is half as far away as above it. -/
def isNarrowBelow (m : Nat) (q : Int) : Bool := m == twoTo 52 && -1074 < q

/-- Whether a decimal lies among the reals that round to `m * 2 ^ q`: not beyond half the distance
to either neighbour, and at half the distance only if `m` is even. -/
def readsBack (m : Nat) (q : Int) (d : Decimal) : Bool :=
  let low := if isNarrowBelow m q then 4 * m - 1 else 4 * m - 2
  let fromLow := compareScaled d.digits d.exponent low (q - 2)
  let fromHigh := compareScaled d.digits d.exponent (4 * m + 2) (q - 2)
  let even := m % 2 == 0
  (fromLow == .gt || (even && fromLow == .eq)) && (fromHigh == .lt || (even && fromHigh == .eq))

/-- The least `k` with `m * 2 ^ q < 10 ^ k`, from an estimate that is at most two too low. -/
def decimalLength (m : Nat) (q : Int) : Int :=
  let estimate := Int.fdiv ((m.log2 + q) * 30103) 100000
  if compareScaled 1 estimate m q == .gt then estimate
  else if compareScaled 1 (estimate + 1) m q == .gt then estimate + 1
  else estimate + 2

def overTen (m : Nat) (q i : Int) : Nat × Nat :=
  (m * twoTo q.toNat * tenTo (-i).toNat, twoTo (-q).toNat * tenTo i.toNat)

/-- Of the two neighbours with `n` digits, the one that reads back; the nearer one if both do. -/
def candidate? (m : Nat) (q : Int) (n : Nat) : Option Decimal :=
  let i := decimalLength m q - n
  let (num, den) := overTen m q i
  let low : Decimal := ⟨num / den, i⟩
  let high : Decimal := ⟨num / den + 1, i⟩
  match readsBack m q low, readsBack m q high with
  | true, true => some ⟨roundRatio num den, i⟩
  | true, false => some low
  | false, true => some high
  | false, false => none

def stripZeros : (bound : Nat) → Decimal → Decimal
  | 0, d => d
  | bound + 1, d =>
    if d.digits != 0 && d.digits % 10 == 0 then stripZeros bound ⟨d.digits / 10, d.exponent + 1⟩ else d

/-- The fewest digits that read back, the nearest of those. -/
def shortest (m : Nat) (q : Int) : Decimal :=
  match (List.range 17).findSome? fun i => candidate? m q (i + 1) with
  | some d => stripZeros 17 d
  -- seventeen digits always read back
  | none => if 0 ≤ q then ⟨m * twoTo q.toNat, 0⟩ else ⟨m * Nat.pow 5 (-q).toNat, q⟩

def significant (m : Nat) (q : Int) (n : Nat) : Decimal :=
  let i := decimalLength m q - n
  let (num, den) := overTen m q i
  let digits := roundRatio num den
  if digits < tenTo n then ⟨digits, i⟩ else ⟨digits / 10, i + 1⟩

def places (m : Nat) (q : Int) (n : Nat) : Decimal :=
  let (num, den) := overTen m q (-n)
  ⟨roundRatio num den, -n⟩

end Bang.Binary64
