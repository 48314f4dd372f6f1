import Bang.Binary64.Text
import Bang.Text.Numeral
import Bang.Text.Quoted
import Bang.Value.Basic

/-! The text of a value. `display` writes a string as it is; `literal` writes it between quotes, so
that reading the text gives the value back. Integers with too many digits have no text. -/

namespace Bang.Value

def intText (n : Int) : List Char :=
  if n < 0 then '-' :: Nat.toDigits 10 n.natAbs else Nat.toDigits 10 n.natAbs

def intText? (n : Int) : Option (List Char) :=
  if (Nat.toDigits 10 n.natAbs).length ≤ Text.digitLimit then some (intText n) else none

def commaJoined : List (List Char) → List Char
  | [] => []
  | [cs] => cs
  | cs :: rest => cs ++ ',' :: ' ' :: commaJoined rest

def tupleText : List (List Char) → List Char
  | [cs] => '(' :: cs ++ [',', ')']
  | items => '(' :: commaJoined items ++ [')']

mutual

def literalWith (quote : List Char → List Char) : Value → Option (List Char)
  | .nothing => some "None".toList
  | .bool b => some (if b then "True".toList else "False".toList)
  | .int n => intText? n
  | .float x => some (Binary64.text x)
  | .str s => some (quote s.toList)
  | .list items => (itemTexts quote items).map fun texts => '[' :: commaJoined texts ++ [']']
  | .tuple items => (itemTexts quote items).map tupleText
  | .record fields => (fieldTexts quote fields).map fun texts => '\x7b' :: commaJoined texts ++ ['\x7d']

def itemTexts (quote : List Char → List Char) : List Value → Option (List (List Char))
  | [] => some []
  | v :: vs => do return (← literalWith quote v) :: (← itemTexts quote vs)

def fieldTexts (quote : List Char → List Char) : List (String × Value) → Option (List (List Char))
  | [] => some []
  | (key, v) :: rest => do
    return (quote key.toList ++ ':' :: ' ' :: (← literalWith quote v)) :: (← fieldTexts quote rest)

end

def literal (v : Value) : Option (List Char) := literalWith Text.quoted v

def display : Value → Option (List Char)
  | .str s => some s.toList
  | v => v.literal

end Bang.Value
