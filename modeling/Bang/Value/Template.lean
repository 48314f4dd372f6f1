import Bang.Value.Text
import Bang.Value.Fault

/-! Texts with conversions. A conversion is a percent sign, an optional key between round brackets,
flags, a width, a precision and a letter that says how a value is written. -/

namespace Bang.Value.Template

structure Flags where
  left : Bool := false
  sign : Bool := false
  blank : Bool := false
  alternate : Bool := false
  zero : Bool := false

/-- The values still to be converted. `one` is a single value that may serve once; `used` says
whether it has. Beside a record or a list nothing has to be used. -/
inductive Supply where
  | many (values : List Value)
  | one (value : Value) (used : Bool)

def Supply.ofValue : Value → Supply
  | .tuple values => .many values
  | v => .one v false

def Supply.next : Supply → Except TemplateFault (Value × Supply)
  | .many (v :: vs) => .ok (v, .many vs)
  | .one v false => .ok (v, .one v true)
  | _ => .error .tooFewValues

def Supply.isSpent : Supply → Bool
  | .many vs => vs.isEmpty
  | .one _ used => used

inductive Mapping where
  | absent
  | keyed (fields : List (String × Value))
  | unkeyed

def Mapping.ofValue : Value → Mapping
  | .record fields => .keyed fields
  | .list _ => .unkeyed
  | _ => .absent

def Mapping.get (key : String) : Mapping → Except TemplateFault Value
  | .absent => .error .notAMapping
  | .unkeyed => .error .keyedList
  | .keyed fields =>
    match fields.lookup key with
    | some v => .ok v
    | none => .error (.missingKey key)

/-- A text to be fitted into its width: sign, base mark and digits apart, so that zeros can stand
between them. -/
structure Piece where
  sign : List Char := []
  mark : List Char := []
  body : List Char
  isNumber : Bool := false

def Piece.fit (flags : Flags) (width : Nat) (p : Piece) : List Char :=
  let missing := width - (p.sign.length + p.mark.length + p.body.length)
  if flags.left then p.sign ++ p.mark ++ p.body ++ List.replicate missing ' '
  else if flags.zero && p.isNumber then p.sign ++ p.mark ++ List.replicate missing '0' ++ p.body
  else List.replicate missing ' ' ++ p.sign ++ p.mark ++ p.body

def signText (flags : Flags) (negative : Bool) : List Char :=
  if negative then ['-'] else if flags.sign then ['+'] else if flags.blank then [' '] else []

def upper (cs : List Char) : List Char := cs.map Char.toUpper

def digitsLimit : Nat := 0x7FFFFFFC

def integerPiece (flags : Flags) (precision : Option Nat) (letter : Char) (n : Int) :
    Except Fault Piece :=
  let base := if letter == 'x' || letter == 'X' then 16 else if letter == 'o' then 8 else 10
  let least := precision.getD 0
  let digits := Nat.toDigits base n.natAbs
  if digitsLimit < least then .error (.template .precisionTooLarge)
  else if base == 10 && Text.digitLimit < digits.length then .error .tooManyDigits
  else if lengthLimit ≤ least then .error .outOfMemory
  else
    let digits := Text.padded least digits
    let mark := if flags.alternate && base != 10 then ['0', letter] else []
    .ok { sign := signText flags (n < 0), mark, isNumber := true,
          body := if letter == 'X' then upper digits else digits }

def isFloatLetter (c : Char) : Bool := c ∈ ['e', 'E', 'f', 'F', 'g', 'G']

/-- The places behind the first digit of a mantissa; a count of digits beyond 31 bits is taken for
one. -/
def mantissaPlaces (n : Nat) : Nat := if n + 1 < 0x80000000 then n else 0

def layout (flags : Flags) (n : Nat) (letter : Char) : Nat × Bool × (Nat → Int → List Char) :=
  if letter == 'e' || letter == 'E' then
    let n := mantissaPlaces n
    (n, true, Binary64.layoutExponent n flags.alternate)
  else if letter == 'f' || letter == 'F' then (n, true, Binary64.layoutFixed n flags.alternate)
  else (n, flags.alternate, Binary64.layoutGeneral n flags.alternate)

def floatPiece (flags : Flags) (precision : Option Nat) (letter : Char) (x : Float) :
    Except Fault Piece :=
  let (n, isPadded, write) := layout flags (precision.getD 6) letter
  if isPadded && lengthLimit ≤ n && Binary64.isFinite x then .error .outOfMemory
  else
    let text := Binary64.render write x
    let text := if letter.isUpper then upper text else text
    match text with
    | '-' :: body => .ok { sign := ['-'], body, isNumber := true }
    | body => .ok { sign := signText flags false, body, isNumber := true }

def toInteger (letter : Char) (v : Value) : Except Fault Int :=
  match v with
  | .float x =>
    match Binary64.parts x with
    | .nan => .error .nanToInt
    | .infinite _ => .error .infinityToInt
    | .finite negative mantissa exponent => .ok (Binary64.truncate negative mantissa exponent)
  | v =>
    match v.int? with
    | some n => .ok n
    | none => .error (.template (.numberRequired letter v.kind))

def toReal (v : Value) : Except Fault Float :=
  match v.number? with
  | some (.float x) => .ok x
  | some (.int n) =>
    match Binary64.ofInt? n with
    | some x => .ok x
    | none => .error .intTooLarge
  | none => .error (.template (.realRequired v.kind))

def toCharacter (v : Value) : Except Fault Char :=
  match v with
  | .str s =>
    match s.toList with
    | [c] => .ok c
    | _ => .error (.template .characterRequired)
  | v =>
    match v.int? with
    | none => .error (.template .characterRequired)
    | some n =>
      if n < 0 || 0x110000 ≤ n then .error (.template .characterRange)
      else match Text.charOfCode? n.toNat with
        | some c => .ok c
        | none => .error .halfCharacter

def isAscii (c : Char) : Bool := Text.isPrintable c && c.toNat < 0x80

def textPiece (precision : Option Nat) (text : Option (List Char)) : Except Fault Piece :=
  match text with
  | none => .error .tooManyDigits
  | some cs => .ok { body := match precision with | some n => cs.take n | none => cs }

def convert (flags : Flags) (precision : Option Nat) (letter : Char) (index : Nat) (v : Value) :
    Except Fault Piece :=
  if letter == 's' then textPiece precision v.display
  else if letter == 'r' then textPiece precision v.literal
  else if letter == 'a' then textPiece precision (v.literalWith (Text.quotedWith isAscii))
  else if letter == 'd' || letter == 'i' || letter == 'u' then do
    integerPiece flags precision letter (← toInteger letter v)
  else if letter == 'x' || letter == 'X' || letter == 'o' then
    match v.int? with
    | some n => integerPiece flags precision letter n
    | none => .error (.template (.integerRequired letter v.kind))
  else if isFloatLetter letter then do
    floatPiece flags precision letter (← toReal v)
  else if letter == 'c' then do
    return { body := [← toCharacter v] }
  else .error (.template (.unknownConversion letter index))

def key? : (depth : Nat) → List Char → Option (List Char × List Char)
  | _, [] => none
  | depth, c :: cs =>
    if c == ')' then
      match depth with
      | 0 => some ([], cs)
      | depth + 1 => (key? depth cs).map fun (key, rest) => (c :: key, rest)
    else (key? (if c == '(' then depth + 1 else depth) cs).map fun (key, rest) => (c :: key, rest)

def flag? (flags : Flags) (c : Char) : Option Flags :=
  if c == '-' then some { flags with left := true }
  else if c == '+' then some { flags with sign := true }
  else if c == ' ' then some { flags with blank := true }
  else if c == '#' then some { flags with alternate := true }
  else if c == '0' then some { flags with zero := true }
  else none

def readFlags (flags : Flags) : List Char → Flags × List Char
  | [] => (flags, [])
  | c :: cs =>
    match flag? flags c with
    | some flags => readFlags flags cs
    | none => (flags, c :: cs)

structure CountRange where
  bound : Nat
  written : TemplateFault
  taken : TemplateFault

def widths : CountRange := ⟨0x8000000000000000, .widthTooBig, .starWidth⟩

def precisions : CountRange := ⟨0x80000000, .precisionTooBig, .starPrecision⟩

def readCount (range : CountRange) (supply : Supply) :
    List Char → Except TemplateFault (Option Int × Supply × List Char)
  | '*' :: cs => do
    match ← supply.next with
    | (v, supply) =>
      match v.int? with
      | some n =>
        if n < -(range.bound : Int) || (range.bound : Int) ≤ n then .error range.taken
        else return (some n, supply, cs)
      | none => .error .starNotInteger
  | cs =>
    let digits := cs.takeWhile Char.isDigit
    let n := Nat.ofDigitChars 10 digits 0
    if digits.isEmpty then .ok (none, supply, cs)
    else if range.bound ≤ n then .error range.written
    else .ok (some n, supply, cs.drop digits.length)

/-- Reads one conversion behind its percent sign and writes its value. The answer holds the text,
the values left, and what follows. `size` is the length of the whole text. -/
def conversion (mapping : Mapping) (size : Nat) (supply : Supply) (cs : List Char) :
    Except Fault (List Char × Supply × List Char) := do
  let (supply, cs) ← match cs with
    | '(' :: cs =>
      match mapping with
      | .absent => .error (.template .notAMapping)
      | _ =>
        match key? 0 cs with
        | none => .error (.template .incompleteKey)
        | some (key, rest) => do
          let v ← (mapping.get (String.ofList key)).mapError .template
          pure (Supply.one v false, rest)
    | cs => pure (supply, cs)
  let (flags, cs) := readFlags {} cs
  let (width, supply, cs) ← (readCount widths supply cs).mapError .template
  let flags := if width.any (· < 0) then { flags with left := true } else flags
  let (precision, supply, cs) ← match cs with
    | '.' :: cs => do
      let (n, supply, cs) ← (readCount precisions supply cs).mapError .template
      pure (some (n.getD 0).toNat, supply, cs)
    | cs => pure (none, supply, cs)
  let cs := match cs with
    | c :: rest => if c == 'h' || c == 'l' || c == 'L' then rest else cs
    | [] => []
  match cs with
  | [] => .error (.template .incomplete)
  | letter :: rest =>
    let (v, supply) ← supply.next.mapError .template
    let piece ← convert flags precision letter (size - rest.length - 1) v
    let width := (width.getD 0).natAbs
    if lengthLimit ≤ width then .error .outOfMemory
    else return (piece.fit flags width, supply, rest)

/-- Writes the text from left to right. `fuel` is at least its length, since each step takes a
character. -/
def expand (mapping : Mapping) (size : Nat) : (fuel : Nat) → Supply → List Char → Except Fault (List Char)
  | 0, _, _ => .ok []
  | _, supply, [] =>
    match mapping with
    | .absent => if supply.isSpent then .ok [] else .error (.template .unusedValues)
    | _ => .ok []
  | fuel + 1, supply, c :: cs =>
    if c == '%' then
      match cs with
      | '%' :: rest => do return '%' :: (← expand mapping size fuel supply rest)
      | cs => do
        let (text, supply, rest) ← conversion mapping size supply cs
        return text ++ (← expand mapping size fuel supply rest)
    else do
      return c :: (← expand mapping size fuel supply cs)

def fill (template : String) (v : Value) : Except Fault String := do
  let cs := template.toList
  return String.ofList (← expand (Mapping.ofValue v) cs.length (cs.length + 1) (Supply.ofValue v) cs)

end Bang.Value.Template
