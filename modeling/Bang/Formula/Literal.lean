import Bang.Text.Numeral
import Bang.Text.Quoted
import Bang.Value.Basic

/-! Numbers and texts as an expression writes them. Each reader takes its literal from the front and
answers with the value and the number of characters; there is no answer where the text is malformed. -/

namespace Bang.Formula

def continuesName (c : Char) : Bool := c.isAlphanum || c == '_' || 0x80 ≤ c.toNat

def digitRun (isDigit : Char → Bool) (cs : List Char) : List Char := cs.takeWhile fun c => isDigit c || c == '_'

def isGrouped : List Char → Bool
  | [] => true
  | ['_'] => false
  | '_' :: '_' :: _ => false
  | _ :: cs => isGrouped cs

def isDigits (run : List Char) : Bool := (run.head?.any Char.isDigit) && isGrouped run

def finished (rest : List Char) : Bool := !(rest.head?.any continuesName)

def withoutGroups (run : List Char) : List Char := run.filter (· != '_')

def base? (c : Char) : Option Nat :=
  if c == 'x' || c == 'X' then some 16
  else if c == 'o' || c == 'O' then some 8
  else if c == 'b' || c == 'B' then some 2
  else none

def based? (base : Nat) (cs : List Char) : Option (Value × Nat) :=
  let run := digitRun (fun c => (Text.hexDigit? c).any (· < base)) cs
  let digits := withoutGroups run
  if digits.isEmpty || !isGrouped run || !finished (cs.drop run.length) then none
  else
    let n := digits.foldl (fun n c => base * n + (Text.hexDigit? c).getD 0) 0
    some (.int n, run.length + 2)

def fraction? : List Char → Option (List Char)
  | '.' :: cs =>
    let run := digitRun Char.isDigit cs
    if run.isEmpty || isDigits run then some ('.' :: run) else none
  | _ => some []

def exponent? : List Char → Option (List Char)
  | [] => some []
  | c :: cs =>
    if Text.isExponentMark c then
      let sign := cs.take 1 |>.filter fun c => c == '+' || c == '-'
      let run := digitRun Char.isDigit (cs.drop sign.length)
      if isDigits run then some (c :: sign ++ run) else none
    else some []

def integer? (digits : List Char) : Option Value :=
  -- zeros may be written at any length
  if digits.all (· == '0') then some (.int 0)
  else if digits.head? == some '0' || Text.digitLimit < digits.length then none
  else some (.int (Nat.ofDigitChars 10 digits 0))

def decimal? (cs : List Char) : Option (Value × Nat) := do
  let whole := digitRun Char.isDigit cs
  let fraction ← fraction? (cs.drop whole.length)
  let exponent ← exponent? (cs.drop (whole.length + fraction.length))
  let length := whole.length + fraction.length + exponent.length
  if !isGrouped whole || !finished (cs.drop length) then none
  else if fraction.isEmpty && exponent.isEmpty then
    return (← integer? (withoutGroups whole), length)
  else
    return (.float (← Text.size? (cs.take length)), length)

def number? (cs : List Char) : Option (Value × Nat) :=
  match cs with
  | '0' :: mark :: rest =>
    match base? mark with
    | some base => based? base rest
    | none => decimal? cs
  | _ => decimal? cs

def lineBody? (quote : Char) : List Char → Option (List Char)
  | [] => none
  | '\\' :: c :: cs => (lineBody? quote cs).map ('\\' :: c :: ·)
  | c :: cs =>
    if c == quote then some [] else if c == '\n' then none else (lineBody? quote cs).map (c :: ·)

def blockBody? (quote : Char) : List Char → Option (List Char)
  | [] => none
  | '\\' :: c :: cs => (blockBody? quote cs).map ('\\' :: c :: ·)
  | c :: cs =>
    if c == quote && cs.take 2 == [quote, quote] then some [] else (blockBody? quote cs).map (c :: ·)

def string? (quote : Char) (cs : List Char) : Option (List Char × Nat) :=
  -- three quotes open a text that may hold line breaks
  if cs.take 2 == [quote, quote] then do
    let body ← blockBody? quote (cs.drop 2)
    return (← Text.unescape 0 body, body.length + 6)
  else do
    let body ← lineBody? quote cs
    return (← Text.unescape 0 body, body.length + 2)

end Bang.Formula
