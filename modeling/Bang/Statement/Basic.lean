import Bang.Dialect
import Bang.Statement.Expression

/-! The statements that hold no others, and how brackets are found: a statement's round brackets are
the first ones on its own line. -/

namespace Bang.Statement

open Machine

variable {m : Type → Type} [Machine m]

def bracket (text : String) (line : Int) : Token := ⟨.symbol, text, line⟩

def bracketed? (line : Int) (tokens : List Token) : Option (List Token × List Token) := do
  let start ← tokens.idxOf? (bracket "(" line)
  let stop ← tokens.idxOf? (bracket ")" line)
  return ((tokens.take stop).drop (start + 1), tokens.drop (stop + 1))

def firstLine (tokens : List Token) : m Int :=
  match tokens with
  | [] => crash .noToken
  | t :: _ => return t.line

def splitOn (text : String) : List Token → List (List Token)
  | [] => [[]]
  | t :: ts =>
    if t.text == text then [] :: splitOn text ts
    else match splitOn text ts with
      | [] => [[t]]
      | part :: parts => (t :: part) :: parts

def print (tokens : List Token) : m Unit := do
  let line ← firstLine tokens
  match bracketed? line tokens with
  | none => report (.printForm line)
  | some (inner, _) =>
    let v ← evaluate inner
    match v.display with
    | some text => log (String.ofList text)
    | none => crash .longText

def numberValue (text : String) : m Value :=
  if '.' ∈ text.toList then
    match Text.readReal? text.toList with
    | some x => return .float x
    | none => crash (.malformedReal text)
  else
    match Text.readInteger text.toList with
    | .ok n => return .int n
    | .error .malformed => crash (.malformedInteger text)
    | .error (.tooLong digits) => crash (.longInteger digits)

def unquoted (text : String) : String :=
  String.ofList (((text.toList.dropWhile (· == '"')).reverse.dropWhile (· == '"')).reverse)

def checkOperands : List Token → m Unit
  | [] => return
  | t :: ts => do
    if t.isIdentifier && (← lookup? t.text).isNone then report (.operandUndeclared t.line)
    else checkOperands ts

def assigned (tokens : List Token) : m Value := do
  match tokens with
  | [⟨.number, text, _⟩] => numberValue text
  | [⟨.string, text, _⟩] => return .str (unquoted text)
  | tokens =>
    -- every name must be known before anything is evaluated
    checkOperands tokens
    evaluate tokens

/-- What is wrong with binding a name that stands on a line. In the extended dialect a value must
have a type, and a name keeps the type it was created with. -/
def refusal? (d : Dialect) (line : Int) (name : String) (v : Value) (s : State) : Option Fault :=
  match d, v.type? with
  | .basic, _ => none
  | .extended, none => some (.diagnostic (.typeUnsupported v.kind))
  | .extended, some type =>
    if (s.scope.get? name).isSome then
      match s.journal.typeOf? name with
      | none => some (.crash (.untypedName name))
      | some old => if old == type then none else some (.diagnostic (.typeChanged line name old type))
    else none

def store (d : Dialect) (line : Int) (name : String) (v : Value) : m Unit := do
  match refusal? d line name v (← state) with
  | some fault => fail fault
  | none => change (State.put name v)

def assign (d : Dialect) (tokens : List Token) : m Unit := do
  match tokens with
  | ⟨.identifier, name, line⟩ :: ⟨.operator, "=", _⟩ :: t :: ts =>
    let v ← assigned (t :: ts)
    store d line name v
  | tokens => report (.assignmentForm (tokens.head?.map Token.line))

end Bang.Statement
