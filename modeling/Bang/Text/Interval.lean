/-! Character properties are kept as closed intervals of code points, in rising order. -/

namespace Bang.Text

def within (intervals : List (Nat × Nat)) (n : Nat) : Bool :=
  intervals.any fun interval => interval.1 ≤ n && n ≤ interval.2

end Bang.Text
