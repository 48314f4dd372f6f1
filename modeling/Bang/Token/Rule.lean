import Bang.Dialect
import Bang.Text.Blank
import Bang.Text.Digit
import Bang.Text.Word
import Bang.Token.Basic

/-! The rules that cut a program into tokens. Each rule takes a text from the front of the input or
does not apply; the first rule of `Rule.order` that applies decides. A word, number or keyword is taken
only where a word ends behind it, so no rule ever starts inside a word. -/

namespace Bang.Token

open Text

inductive Rule where
  | start
  | finish
  | keyword
  | operator
  | identifier
  | number
  | string
  | symbol
  | comment
  | blank
  | newline
  | leftBrace
  | rightBrace
  | bracket
  deriving DecidableEq, Repr

namespace Rule

def order : List Rule :=
  [start, finish, keyword, operator, identifier, number, string, symbol, comment, blank, newline,
   leftBrace, rightBrace, bracket]

def kind : Rule → Kind
  | start => .start
  | finish => .finish
  | keyword => .keyword
  | operator => .operator
  | identifier => .identifier
  | number => .number
  | string => .string
  | symbol => .symbol
  | comment => .comment
  | blank => .blank
  | newline => .newline
  | leftBrace => .leftBrace
  | rightBrace => .rightBrace
  | bracket => .symbol

def isSilent (rule : Rule) : Bool := rule == comment || rule == blank

def keywords : Dialect → List String
  | .basic => ["if", "else", "print", "scan", "while", "doFor"]
  | .extended => ["if", "else", "print", "scan", "while", "doFor", "func"]

/-- In the order in which they are tried, so `==` comes before `=`. -/
def operators : List String :=
  ["+", "-", "*", "/", "==", "<=", ">=", "=", "%", "<", ">", "&", "|"]

def literal? (text : String) (cs : List Char) : Option (List Char) :=
  if text.toList.isPrefixOf cs then some text.toList else none

def word? (text : String) (cs : List Char) : Option (List Char) :=
  if endsWord (cs.drop text.length) then literal? text cs else none

def oneOf? (chars : List Char) : List Char → Option (List Char)
  | [] => none
  | c :: _ => if c ∈ chars then some [c] else none

def isNameStart (c : Char) : Bool := c.isAlpha || c == '_'

def isNamePart (c : Char) : Bool := c.isAlphanum || c == '_'

def identifier? : List Char → Option (List Char)
  | [] => none
  | c :: cs =>
    if isNameStart c && endsWord (cs.dropWhile isNamePart) then some (c :: cs.takeWhile isNamePart)
    else none

def fraction? : List Char → Option (List Char)
  | '.' :: cs =>
    if !(cs.takeWhile isDigit).isEmpty && endsWord (cs.dropWhile isDigit) then
      some ('.' :: cs.takeWhile isDigit)
    else none
  | _ => none

def number? (cs : List Char) : Option (List Char) :=
  if (cs.takeWhile isDigit).isEmpty then none
  else match fraction? (cs.dropWhile isDigit) with
    | some fraction => some (cs.takeWhile isDigit ++ fraction)
    | none => if endsWord (cs.dropWhile isDigit) then some (cs.takeWhile isDigit) else none

def isQuotable (c : Char) : Bool := c != '"' && c != '\n'

def string? : List Char → Option (List Char)
  | '"' :: cs =>
    if (cs.dropWhile isQuotable).head? = some '"' then some ('"' :: cs.takeWhile isQuotable ++ ['"'])
    else none
  | _ => none

def comment? : List Char → Option (List Char)
  | '#' :: cs => some ('#' :: cs.takeWhile (· != '\n'))
  | _ => none

def blank? (cs : List Char) : Option (List Char) :=
  if (cs.takeWhile isBlank).isEmpty then none else some (cs.takeWhile isBlank)

def take? (d : Dialect) : Rule → List Char → Option (List Char)
  | start, cs => word? "INICIO" cs
  | finish, cs => word? "FIN" cs
  | keyword, cs => (keywords d).findSome? (word? · cs)
  | operator, cs => operators.findSome? (literal? · cs)
  | identifier, cs => identifier? cs
  | number, cs => number? cs
  | string, cs => string? cs
  | symbol, cs => oneOf? ['!', '(', ')', '\x7b', '\x7d', ';'] cs
  | comment, cs => comment? cs
  | blank, cs => blank? cs
  | newline, cs => literal? "!" cs
  | leftBrace, cs => literal? "\x7b" cs
  | rightBrace, cs => literal? "\x7d" cs
  | bracket, cs => oneOf? ['!', '(', ')'] cs

def first? (d : Dialect) (cs : List Char) : Option (Rule × List Char) :=
  order.findSome? fun rule => (rule.take? d cs).map (rule, ·)

end Rule

end Bang.Token
