import Bang.Text.Numeral
import Bang.Text.Quoted

/-! Reading JSON. Besides the standard form the three special numbers `NaN`, `Infinity` and `-Infinity`
are read. Integers and decimals stay apart, and integers have a limit on their digits. -/

namespace Bang

inductive Json where
  | null
  | bool (b : Bool)
  | int (n : Int)
  | float (x : Float)
  | str (s : String)
  /-- A text with a character of which only one half is there. -/
  | broken
  | arr (items : List Json)
  | obj (fields : List (String × Json))
  deriving Inhabited

namespace Json

def kindName : Json → String
  | null => "NoneType"
  | bool _ => "bool"
  | int _ => "int"
  | float _ => "float"
  | str _ | broken => "str"
  | arr _ => "list"
  | obj _ => "dict"

/-- A field of an object; the last one of a name counts. -/
def field? (key : String) : Json → Option Json
  | obj fields => fields.reverse.lookup key
  | _ => none

def isBlank (c : Char) : Bool := c == ' ' || c == '\t' || c == '\n' || c == '\r'

def skipBlanks (cs : List Char) : List Char := cs.dropWhile isBlank

def unit? (cs : List Char) : Option (Nat × List Char) :=
  if (cs.take 4).length == 4 then (Text.ofHex? (cs.take 4)).map (·, cs.drop 4) else none

/-- The character written by one 16-bit unit or a pair of them; none if a unit lacks its partner. -/
def unicode? (cs : List Char) : Option (Option Char × List Char) := do
  let (high, rest) ← unit? cs
  if 0xD800 ≤ high && high < 0xDC00 then
    match rest with
    | '\\' :: 'u' :: more =>
      match unit? more with
      | some (low, rest') =>
        if 0xDC00 ≤ low && low < 0xE000 then
          return (some (Char.ofNat (0x10000 + (high - 0xD800) * 0x400 + (low - 0xDC00))), rest')
        else return (none, rest)
      | none => return (none, rest)
    | _ => return (none, rest)
  else return (Text.charOfCode? high, rest)

def escaped? : Char → Option Char
  | '"' => some '"'
  | '\\' => some '\\'
  | '/' => some '/'
  | 'b' => some '\x08'
  | 'f' => some '\x0c'
  | 'n' => some '\n'
  | 'r' => some '\r'
  | 't' => some '\t'
  | _ => none

/-- A text behind its opening quote, and what follows it. `done` holds the characters read, the last
one first; `fuel` is at least the number of characters. -/
def text? : (fuel : Nat) → (done : List (Option Char)) → List Char → Option (Option String × List Char)
  | 0, _, _ => none
  | _, _, [] => none
  | fuel + 1, done, c :: cs =>
    if c == '"' then some ((done.reverse.mapM id).map String.ofList, cs)
    else if c.toNat < 0x20 then none
    else if c == '\\' then
      match cs with
      | 'u' :: cs =>
        match unicode? cs with
        | some (c, rest) => text? fuel (c :: done) rest
        | none => none
      | e :: cs =>
        match escaped? e with
        | some c => text? fuel (some c :: done) cs
        | none => none
      | [] => none
    else text? fuel (some c :: done) cs

def startsWith? (word : String) (cs : List Char) : Option (List Char) :=
  if word.toList.isPrefixOf cs then some (cs.drop word.length) else none

def wholeDigits? : List Char → Option (List Char × List Char)
  | '0' :: cs => some (['0'], cs)
  | cs => if (cs.takeWhile Char.isDigit).isEmpty then none else some (cs.span Char.isDigit)

def fractionPart : List Char → List Char × List Char
  | '.' :: cs =>
    let digits := cs.takeWhile Char.isDigit
    if digits.isEmpty then ([], '.' :: cs) else ('.' :: digits, cs.drop digits.length)
  | cs => ([], cs)

def exponentPart : List Char → List Char × List Char
  | [] => ([], [])
  | c :: cs =>
    let sign := cs.take 1 |>.filter fun c => c == '+' || c == '-'
    let digits := (cs.drop sign.length).takeWhile Char.isDigit
    if Text.isExponentMark c && !digits.isEmpty then
      (c :: sign ++ digits, cs.drop (sign.length + digits.length))
    else ([], c :: cs)

def number? (negative : Bool) (cs : List Char) : Option (Json × List Char) := do
  let (whole, rest) ← wholeDigits? cs
  let (fraction, rest) := fractionPart rest
  let (exponent, rest) := exponentPart rest
  if fraction.isEmpty && exponent.isEmpty then
    if Text.digitLimit < whole.length then none
    else
      let n := Nat.ofDigitChars 10 whole 0
      return (.int (if negative then -(n : Int) else n), rest)
  else
    let size ← Text.size? (whole ++ fraction ++ exponent)
    return (.float (Binary64.withSign negative size), rest)

def constants : List (String × Json) :=
  [("null", .null), ("true", .bool true), ("false", .bool false), ("NaN", .float (0.0 / 0.0)),
   ("Infinity", .float Binary64.infinity), ("-Infinity", .float (-Binary64.infinity))]

def constant? (cs : List Char) : Option (Json × List Char) :=
  constants.findSome? fun (word, value) => (startsWith? word cs).map (value, ·)

mutual

def value? : (fuel : Nat) → List Char → Option (Json × List Char)
  | 0, _ => none
  | fuel + 1, cs =>
    match cs with
    | '"' :: cs => (text? (cs.length + 1) [] cs).map fun (text, rest) => (text.elim .broken .str, rest)
    | '[' :: cs =>
      match skipBlanks cs with
      | ']' :: rest => some (.arr [], rest)
      | cs => items? fuel [] cs
    | '\x7b' :: cs =>
      match skipBlanks cs with
      | '\x7d' :: rest => some (.obj [], rest)
      | cs => fields? fuel [] cs
    | cs =>
      match constant? cs with
      | some result => some result
      | none =>
        match cs with
        | '-' :: digits => number? true digits
        | cs => number? false cs

def items? : (fuel : Nat) → (done : List Json) → List Char → Option (Json × List Char)
  | 0, _, _ => none
  | fuel + 1, done, cs =>
    match value? fuel cs with
    | none => none
    | some (v, rest) =>
      match skipBlanks rest with
      | ',' :: rest => items? fuel (v :: done) (skipBlanks rest)
      | ']' :: rest => some (.arr (v :: done).reverse, rest)
      | _ => none

def fields? : (fuel : Nat) → (done : List (String × Json)) → List Char → Option (Json × List Char)
  | 0, _, _ => none
  | fuel + 1, done, cs =>
    match cs with
    | '"' :: cs =>
      match text? (cs.length + 1) [] cs with
      | none => none
      | some (key, rest) =>
        match skipBlanks rest with
        | ':' :: rest =>
          match value? fuel (skipBlanks rest) with
          | none => none
          | some (v, rest) =>
            -- nobody asks for a field with a broken name
            let done := key.elim done fun key => (key, v) :: done
            match skipBlanks rest with
            | ',' :: rest => fields? fuel done (skipBlanks rest)
            | '\x7d' :: rest => some (.obj done.reverse, rest)
            | _ => none
        | _ => none
    | _ => none

end

def read? (text : String) : Option Json :=
  let cs := match text.toList with
    | '\uFEFF' :: cs => cs
    | cs => cs
  match value? (2 * cs.length + 2) (skipBlanks cs) with
  | some (v, rest) => if (skipBlanks rest).isEmpty then some v else none
  | none => none

end Json

end Bang
