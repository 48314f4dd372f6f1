/-! Tokens of a program: a kind, the text as written, and the line it stands on. Lines are counted by
the `!` that ends a statement, not by line breaks. -/

namespace Bang

namespace Token

/-- Kinds of tokens. A token list built by hand may also use kinds of its own (`other`). -/
inductive Kind where
  | start
  | finish
  | keyword
  | operator
  | identifier
  | number
  | string
  | symbol
  | comment
  | blank
  | newline
  | leftBrace
  | rightBrace
  | other (name : String)
  deriving DecidableEq, Repr, Inhabited

namespace Kind

def name : Kind → String
  | start => "START"
  | finish => "END"
  | keyword => "KEYWORD"
  | operator => "OPERATOR"
  | identifier => "IDENTIFIER"
  | number => "NUMBER"
  | string => "STRING"
  | symbol => "SYMBOL"
  | comment => "COMMENT"
  | blank => "WHITESPACE"
  | newline => "NEWLINE"
  | leftBrace => "LBRACE"
  | rightBrace => "RBRACE"
  | other name => name

def named : List Kind :=
  [start, finish, keyword, operator, identifier, number, string, symbol, comment, blank, newline,
   leftBrace, rightBrace]

def ofName (name : String) : Kind :=
  (named.find? fun kind => kind.name == name).getD (other name)

end Kind

end Token

structure Token where
  kind : Token.Kind
  text : String
  line : Int
  deriving DecidableEq, Repr, Inhabited

namespace Token

def minified (tokens : List Token) : String := String.join (tokens.map text)

def isIdentifier (token : Token) : Bool := token.kind == .identifier

end Token

end Bang
