import Bang.Binary64.Basic
import Bang.Value.Fault

/-! Equality and order of values. Numbers compare by size whatever their kind, texts by code points,
lists and tuples by their first difference. Values of other kinds differ and have no order. -/

namespace Bang.Value

def compareNumbers : Number → Number → Option Ordering
  | .int a, .int b => some (compare a b)
  | .int a, .float b => Binary64.compareInt a b
  | .float a, .int b => (Binary64.compareInt b a).map Ordering.swap
  | .float a, .float b => Binary64.compareFloat a b

def sameAtom : Value → Value → Bool
  | .nothing, .nothing => true
  | .str a, .str b => a == b
  | a, b =>
    match a.number?, b.number? with
    | some m, some n => compareNumbers m n == some .eq
    | _, _ => false

mutual

def same : Value → Value → Bool
  | .list as, .list bs => sameItems as bs
  | .tuple as, .tuple bs => sameItems as bs
  | .record as, .record bs => as.length == bs.length && sameFields as bs
  | a, b => sameAtom a b

def sameItems : List Value → List Value → Bool
  | [], [] => true
  | a :: as, b :: bs => same a b && sameItems as bs
  | _, _ => false

def sameFields : List (String × Value) → List (String × Value) → Bool
  | [], _ => true
  | (key, a) :: as, bs =>
    (match bs.lookup key with
      | some b => same a b
      | none => false) && sameFields as bs

end

def Comparison.holds : Comparison → Ordering → Bool
  | .eq, o => o == .eq
  | .ne, o => o != .eq
  | .lt, o => o == .lt
  | .gt, o => o == .gt
  | .le, o => o != .gt
  | .ge, o => o != .lt

def orderAtom (op : Comparison) (a b : Value) : Except Fault Bool :=
  match a, b with
  | .str s, .str t => .ok (op.holds (compare s t))
  | _, _ =>
    match a.number?, b.number? with
    -- beside NaN nothing holds
    | some m, some n => .ok ((compareNumbers m n).elim false op.holds)
    | _, _ => .error (.unordered op a.kind b.kind)

mutual

def order (op : Comparison) : Value → Value → Except Fault Bool
  | .list as, .list bs => orderItems op as bs
  | .tuple as, .tuple bs => orderItems op as bs
  | a, b => orderAtom op a b

def orderItems (op : Comparison) : List Value → List Value → Except Fault Bool
  | a :: as, b :: bs => if same a b then orderItems op as bs else order op a b
  | as, bs => .ok (op.holds (compare as.length bs.length))

end

def compareValues (op : Comparison) (a b : Value) : Except Fault Bool :=
  match op with
  | .eq => .ok (same a b)
  | .ne => .ok (!same a b)
  | op => order op a b

end Bang.Value
