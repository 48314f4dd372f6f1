import Bang.Text.Printable

/-! Text between quotes, with escapes, and the reading of escapes. What is written here reads back as
the same text. -/

namespace Bang.Text

def padded (width : Nat) (cs : List Char) : List Char := List.replicate (width - cs.length) '0' ++ cs

def hexEscape (c : Char) : List Char :=
  let digits := Nat.toDigits 16 c.toNat
  if c.toNat < 0x100 then '\\' :: 'x' :: padded 2 digits
  else if c.toNat < 0x10000 then '\\' :: 'u' :: padded 4 digits
  else '\\' :: 'U' :: padded 8 digits

def escaped (keep : Char → Bool) (quote c : Char) : List Char :=
  if c == quote || c == '\\' then ['\\', c]
  else if c == '\n' then ['\\', 'n']
  else if c == '\r' then ['\\', 'r']
  else if c == '\t' then ['\\', 't']
  else if keep c then [c]
  else hexEscape c

/-- Single quotes, unless the text has a single quote and no double one. -/
def quoteFor (cs : List Char) : Char := if '\'' ∈ cs && !('"' ∈ cs) then '"' else '\''

def quotedWith (keep : Char → Bool) (cs : List Char) : List Char :=
  quoteFor cs :: cs.flatMap (escaped keep (quoteFor cs)) ++ [quoteFor cs]

def quoted (cs : List Char) : List Char := quotedWith isPrintable cs

def hexDigit? (c : Char) : Option Nat :=
  if c.isDigit then some (c.toNat - '0'.toNat)
  else if 'a' ≤ c && c ≤ 'f' then some (c.toNat - 'a'.toNat + 10)
  else if 'A' ≤ c && c ≤ 'F' then some (c.toNat - 'A'.toNat + 10)
  else none

def ofHex? (cs : List Char) : Option Nat :=
  cs.foldlM (fun n c => (hexDigit? c).map (16 * n + ·)) 0

def charOfCode? (n : Nat) : Option Char :=
  if n < 0xD800 || 0xE000 ≤ n && n < 0x110000 then some (Char.ofNat n) else none

def codeEscape? (width : Nat) (cs : List Char) : Option (List Char × Nat) :=
  if (cs.take width).length == width then
    ((ofHex? (cs.take width)).bind charOfCode?).map fun c => ([c], width + 1)
  else none

def isOctal (c : Char) : Bool := '0' ≤ c && c < '8'

/-- What stands for the text behind a backslash, and how many characters of it. There is no answer
for a code that is cut short. -/
def escape? : List Char → Option (List Char × Nat)
  | [] => some (['\\'], 0)
  | c :: cs =>
    match c with
    -- a backslash before a line break joins the lines
    | '\n' => some ([], 1)
    | '\\' | '\'' | '"' => some ([c], 1)
    | 'a' => some (['\x07'], 1)
    | 'b' => some (['\x08'], 1)
    | 'f' => some (['\x0c'], 1)
    | 'n' => some (['\n'], 1)
    | 'r' => some (['\r'], 1)
    | 't' => some (['\t'], 1)
    | 'v' => some (['\x0b'], 1)
    | 'x' => codeEscape? 2 cs
    | 'u' => codeEscape? 4 cs
    | 'U' => codeEscape? 8 cs
    | 'N' => none
    | _ =>
      if isOctal c then
        let digits := ((c :: cs).take 3).takeWhile isOctal
        some ([Char.ofNat (digits.foldl (fun n d => 8 * n + (d.toNat - '0'.toNat)) 0)], digits.length)
      else some (['\\'], 0)

/-- Text with its escapes resolved; `skip` counts the characters of the last escape still to be
passed over. -/
def unescape : (skip : Nat) → List Char → Option (List Char)
  | _, [] => some []
  | skip + 1, _ :: cs => unescape skip cs
  | 0, c :: cs =>
    if c == '\\' then
      match escape? cs with
      | some (text, length) => (unescape length cs).map (text ++ ·)
      | none => none
    else (unescape 0 cs).map (c :: ·)

end Bang.Text
