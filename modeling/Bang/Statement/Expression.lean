import Bang.Machine
import Bang.Value.Text

/-! Expressions of a program are evaluated by their text: names are replaced by the text of their
values, everything is joined without blanks, and the result is read as one expression. -/

namespace Bang.Statement

open Machine

variable {m : Type → Type} [Machine m]

/-- The text of a value in an expression. A string is put between quotes as it is. -/
def operandText? : Value → Option (List Char)
  | .str s => some ('"' :: s.toList ++ ['"'])
  | v => v.literal

def tokenText (t : Token) : m (List Char) :=
  match t.kind with
  | .identifier => do
    match ← lookup? t.text with
    | none => report (.variableUndefined t.line t.text)
    | some binding =>
      note (.read t.text)
      match operandText? binding.toValue with
      | some text => return text
      | none => crash .longText
  | .string | .number | .operator => return t.text.toList
  | _ => report (.tokenMisplaced t.line t.text)

def formulaText : List Token → m (List Char)
  | [] => return []
  | t :: ts => do
    let text ← tokenText t
    return text ++ (← formulaText ts)

def evaluate (tokens : List Token) : m Value := do
  note (.evaluating tokens)
  let text ← formulaText tokens
  match Formula.evaluate text with
  | .ok v => return v
  | .error .beyond => beyond text
  | .error fault => report (.evaluation (String.ofList text) fault)

end Bang.Statement
