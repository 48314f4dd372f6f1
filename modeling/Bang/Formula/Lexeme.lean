import Bang.Formula.Literal
import Bang.Text.Digit
import Bang.Text.Word
import Bang.Value.Fault

/-! Lexemes of an expression. -/

namespace Bang.Formula

open Value (BinaryOp UnaryOp Comparison)

inductive Bracket where
  | round
  | square
  | curly
  deriving DecidableEq, Repr

inductive Symbol where
  | operator (op : BinaryOp)
  | comparison (op : Comparison)
  | tilde
  | opening (bracket : Bracket)
  | closing (bracket : Bracket)
  | comma
  | colon
  deriving DecidableEq, Repr

def Symbol.sign? : Symbol → Option UnaryOp
  | .operator .add => some .plus
  | .operator .sub => some .minus
  | .tilde => some .invert
  | _ => none

inductive Lexeme where
  | constant (value : Value)
  | text (cs : List Char)
  | name (name : String)
  | symbol (symbol : Symbol)
  | lineEnd

def symbols : List (List Char × Symbol) :=
  [(['*', '*'], .operator .pow), (['/', '/'], .operator .floorDiv), (['<', '<'], .operator .shiftLeft),
   (['>', '>'], .operator .shiftRight), (['=', '='], .comparison .eq), (['!', '='], .comparison .ne),
   (['<', '='], .comparison .le), (['>', '='], .comparison .ge), (['<'], .comparison .lt),
   (['>'], .comparison .gt), (['+'], .operator .add), (['-'], .operator .sub), (['*'], .operator .mul),
   (['/'], .operator .div), (['%'], .operator .mod), (['&'], .operator .bitAnd),
   (['^'], .operator .bitXor), (['|'], .operator .bitOr), (['~'], .tilde), (['('], .opening .round),
   ([')'], .closing .round), (['['], .opening .square), ([']'], .closing .square),
   (['\x7b'], .opening .curly), (['\x7d'], .closing .curly), ([','], .comma), ([':'], .colon)]

def symbol? (cs : List Char) : Option (Lexeme × Nat) :=
  (symbols.find? fun entry => entry.1.isPrefixOf cs).map fun entry => (.symbol entry.2, entry.1.length)

def reserved : List String :=
  ["and", "as", "assert", "async", "await", "break", "class", "continue", "def", "del", "elif", "else",
   "except", "finally", "for", "from", "global", "if", "import", "in", "is", "lambda", "nonlocal", "not",
   "or", "pass", "raise", "return", "try", "while", "with", "yield"]

def name? (cs : List Char) : Option (Lexeme × Nat) :=
  let run := cs.takeWhile continuesName
  let name := String.ofList run
  -- right before a quote a word is a mark of the text
  let isQuoted := (cs.drop run.length).head?.any fun c => c == '"' || c == '\''
  if isQuoted || !run.all Text.isWord || run.head?.any Text.isDigit || name ∈ reserved then none
  else if name == "True" then some (.constant (.bool true), run.length)
  else if name == "False" then some (.constant (.bool false), run.length)
  else if name == "None" then some (.constant .nothing, run.length)
  -- digits in another form count as plain ones
  else some (.name (String.ofList (run.map Text.plainDigit)), run.length)

def lexeme? : List Char → Option (Option Lexeme × Nat)
  | [] => none
  | c :: cs =>
    if c == ' ' || c == '\t' || c == '\x0c' then some (none, 1)
    else if c == '\n' then some (some .lineEnd, 1)
    else if c == '#' then some (none, 1 + (cs.takeWhile (· != '\n')).length)
    else if c == '\\' then none
    else if c.isDigit || (c == '.' && cs.head?.any Char.isDigit) then
      (number? (c :: cs)).map fun (value, length) => (some (.constant value), length)
    else if c == '"' || c == '\'' then
      (string? c cs).map fun (text, length) => (some (.text text), length)
    else if continuesName c then (name? (c :: cs)).map fun (lexeme, length) => (some lexeme, length)
    else (symbol? (c :: cs)).map fun (lexeme, length) => (some lexeme, length)

/-- The lexemes of a text; `skip` counts the characters of the last lexeme still to be passed over. -/
def lexemesFrom : (skip : Nat) → List Char → Option (List Lexeme)
  | _, [] => some []
  | skip + 1, _ :: cs => lexemesFrom skip cs
  | 0, c :: cs =>
    match lexeme? (c :: cs) with
    | none => none
    | some (none, length) => lexemesFrom (length - 1) cs
    | some (some lexeme, length) => (lexemesFrom (length - 1) cs).map (lexeme :: ·)

def unifyLines : List Char → List Char
  | [] => []
  | '\r' :: '\n' :: cs => '\n' :: unifyLines cs
  | '\r' :: cs => '\n' :: unifyLines cs
  | c :: cs => c :: unifyLines cs

def lexemes (cs : List Char) : Option (List Lexeme) := lexemesFrom 0 (unifyLines cs)

end Bang.Formula
