import Bang.Statement.Compound
import Bang.Value.Order

/-! Declaring and calling functions. -/

namespace Bang.Statement

open Machine

variable {m : Type → Type} [Machine m]

def upToClosing? : (depth : Nat) → List Token → Option (List Token × List Token)
  | _, [] => none
  | depth, t :: ts =>
    if t.text == ")" then
      match depth with
      | 0 => some ([], ts)
      | depth + 1 => (upToClosing? depth ts).map fun (inside, rest) => (t :: inside, rest)
    else
      (upToClosing? (if t.text == "(" then depth + 1 else depth) ts).map fun (inside, rest) =>
        (t :: inside, rest)

def parameters : List Token → m (List String)
  | [] => return []
  | t :: ts => do
    if t.isIdentifier then return t.text :: (← parameters ts)
    -- commas may be left out, and may stand anywhere
    else if t.text == "," then parameters ts
    else report (.functionParameter t.line)

def define (name : String) (f : Function) : m Unit := do
  match ← lookup? functionsName with
  | none => crash (.missingEntry functionsName)
  | some (.value v) => crash (.functionsFixed v.kind)
  | some (.functions ns) =>
    change (State.declare name f (ns.insert name (.function f)))

def declare (tokens : List Token) : m Unit := do
  match tokens with
  | [] => crash .noToken
  | first :: name :: opening :: t :: ts =>
    if !name.isIdentifier then report (.functionName name.line)
    else if opening.text != "(" then report (.functionBracket opening.line)
    else match upToClosing? 0 (t :: ts) with
      | none => report (.functionBracketUnclosed first.line)
      | some (inside, body) =>
        let params ← parameters inside
        if startsBlock body then define name.text ⟨params, body⟩ else report .functionBody
  | first :: _ => report (.functionIncomplete first.line)

def evaluateAll : List (List Token) → m (List Value)
  | [] => return []
  | tokens :: rest => do
    let v ← evaluate tokens
    return v :: (← evaluateAll rest)

def arguments (tokens : List Token) : m (List Value) :=
  let parts := splitOn "," tokens
  evaluateAll (if parts.getLast? matches some [] then parts.dropLast else parts)

def occursIn (pattern : List Char) : List Char → Bool
  | [] => pattern.isEmpty
  | c :: cs => pattern.isPrefixOf (c :: cs) || occursIn pattern cs

def checkFunction (name : String) : m Unit := do
  match ← lookup? functionsName with
  | none => crash (.missingEntry functionsName)
  | some (.functions ns) =>
    match ns.get? name with
    | some (.function _) | some (.other (.record _)) => return
    | _ => report (.functionUndefined name)
  | some (.value v) =>
    match v with
    | .str s =>
      if occursIn name.toList s.toList then crash (.functionsUnnamed .str)
      else report (.functionUndefined name)
    | .list items | .tuple items =>
      if items.any (Value.same (.str name)) then crash (.functionsUnnamed v.kind)
      else report (.functionUndefined name)
    | v => crash (.functionsUnsearchable v.kind)

def functionOf (name : String) : m Function := do
  match ← lookup? functionsName with
  | none => crash (.missingEntry functionsName)
  | some (.functions ns) =>
    match ns.get? name with
    | none => crash (.missingEntry name)
    | some (.function f) => return f
    | some (.other _) => fail .beyond
  | some (.value _) => fail .beyond

def finishCall (name : String) : m Unit := do
  if (← state).journal.isDeclared name then note (.returned name)
  else crash (.undeclaredFunction name)

def call (inner : List Token → m Unit) (tokens : List Token) : m Unit := do
  match tokens with
  | [] => crash .noToken
  | first :: _ =>
    let name := first.text
    checkFunction name
    match tokens.idxOf? (bracket "(" first.line), tokens.idxOf? (bracket ")" first.line) with
    | none, _ => crash (.missingToken (bracket "(" first.line))
    | _, none => crash (.missingToken (bracket ")" first.line))
    | some start, some stop =>
      let values ← arguments ((tokens.take stop).drop (start + 1))
      let f ← functionOf name
      if values.length != f.params.length then report (.argumentCount name)
      else
        note (.entered name)
        inCall (f.params.zip values) (block inner f.body)
        finishCall name

end Bang.Statement
