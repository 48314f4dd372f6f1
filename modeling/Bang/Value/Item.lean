import Bang.Value.Fault
import Bang.Value.Text

/-! Items of a value: a character of a text, an item of a list or tuple by its place, a field of a
record by its key. Places count from the end if they are negative. -/

namespace Bang.Value

def place? (length : Nat) (n : Int) : Option Nat :=
  let k := if n < 0 then n + length else n
  if 0 ≤ k && k < length then some k.toNat else none

def itemAt (kind : Kind) (items : List Value) (index : Value) : Except Fault Value :=
  match index.int? with
  | none => .error (.indexKind kind index.kind)
  | some n =>
    if !fitsWord n then .error .indexTooLarge
    else match (place? items.length n).bind (items[·]?) with
      | some v => .ok v
      | none => .error (.indexRange kind)

mutual

def unusable? : Value → Option Kind
  | .list _ => some .list
  | .record _ => some .record
  | .tuple items => anyUnusable? items
  | _ => none

def anyUnusable? : List Value → Option Kind
  | [] => none
  | v :: vs => (unusable? v).or (anyUnusable? vs)

end

def fieldAt (fields : List (String × Value)) (key : Value) : Except Fault Value :=
  match key with
  | .str name =>
    match fields.lookup name with
    | some v => .ok v
    | none => .error (.missingField (String.ofList (Text.quoted name.toList)))
  | key =>
    match unusable? key, key.literal with
    | some kind, _ => .error (.unusableKey kind)
    | none, some text => .error (.missingField (String.ofList text))
    | none, none => .error .tooManyDigits

def item (v index : Value) : Except Fault Value :=
  match v with
  | .str s => itemAt .str (s.toList.map fun c => .str (String.singleton c)) index
  | .list items => itemAt .list items index
  | .tuple items => itemAt .tuple items index
  | .record fields => fieldAt fields index
  | v => .error (.noItems v.kind)

end Bang.Value
