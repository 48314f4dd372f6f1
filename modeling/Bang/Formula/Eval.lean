import Bang.Formula.Names
import Bang.Formula.Reading
import Bang.Value.Arithmetic
import Bang.Value.Item

/-! Evaluating the text of an expression. The whole text is read before anything is computed, so a
malformed text has no other fault. -/

namespace Bang.Formula

inductive Fault where
  | malformed
  | nullCharacter
  | undefinedName (name : String)
  | value (fault : Value.Fault)
  | beyond
  deriving DecidableEq, Repr

def Fault.message : Fault → String
  | malformed => "SyntaxError"
  | nullCharacter => "source code string cannot contain null bytes"
  | undefinedName name => s!"name '{name}' is not defined"
  | value fault => fault.message
  | beyond => ""

def Fault.ofValue (fault : Value.Fault) : Fault := if fault.isBeyond then .beyond else .value fault

/-- A field with a key that is there already replaces the value and keeps the place. -/
def putField (fields : List (String × Value)) (key : String) (v : Value) : List (String × Value) :=
  if fields.any fun (k, _) => k == key then fields.map fun (k, w) => (k, if k == key then v else w)
  else fields ++ [(key, v)]

def recordOf : List (Value × Value) → List (String × Value) → Except Fault Value
  | [], fields => .ok (.record fields)
  | (.str key, v) :: rest, fields => recordOf rest (putField fields key v)
  -- other keys that the host would take are not ours
  | (key, _) :: _, _ => .error ((Value.unusable? key).elim .beyond fun kind => .value (.unusableKey kind))

mutual

/-- The value of an expression, where `names` tells what names stand for. No value can be called,
but what stands in the call is evaluated before that shows. -/
def Expr.eval (names : String → Except Fault Value) : Expr → Except Fault Value
  | .constant v => .ok v
  | .name name => names name
  | .list items => do return .list (← evalItems names items)
  | .tuple items => do return .tuple (← evalItems names items)
  | .record fields => do recordOf (← evalFields names fields) []
  | .item e f => do
    let v ← e.eval names
    let index ← f.eval names
    (v.item index).mapError .ofValue
  | .call e arguments => do
    let v ← e.eval names
    let _ ← evalItems names arguments
    .error (.value (.notCallable v.kind))
  | .unary op e => do (Value.unary op (← e.eval names)).mapError .ofValue
  | .binary op e f => do
    let a ← e.eval names
    let b ← f.eval names
    (Value.binary op a b).mapError .ofValue
  | .compare e links => do evalLinks names (← e.eval names) links

def evalItems (names : String → Except Fault Value) : List Expr → Except Fault (List Value)
  | [] => .ok []
  | e :: es => do
    let v ← e.eval names
    return v :: (← evalItems names es)

def evalFields (names : String → Except Fault Value) : List (Expr × Expr) → Except Fault (List (Value × Value))
  | [] => .ok []
  | (k, e) :: rest => do
    let key ← k.eval names
    let v ← e.eval names
    return (key, v) :: (← evalFields names rest)

def evalLinks (names : String → Except Fault Value) (left : Value) :
    List (Value.Comparison × Expr) → Except Fault Value
  | [] => .ok (.bool true)
  | (op, e) :: rest => do
    let right ← e.eval names
    if ← (Value.compareValues op left right).mapError .ofValue then evalLinks names right rest
    else return .bool false

end

/-- A name that may stand for something is the host's to answer for. -/
def noNames (name : String) : Except Fault Value :=
  .error (if isHostName .extended name then .beyond else .undefinedName name)

/-! ### Texts that are certainly malformed -/

def Lexeme.isUnclear : Lexeme → Bool
  | .symbol (.opening _) | .symbol (.closing _) | .lineEnd => true
  | _ => false

def unread : (skip : Nat) → List Char → List Char
  | _, [] => []
  | skip + 1, _ :: cs => unread skip cs
  | 0, c :: cs =>
    match lexeme? (c :: cs) with
    | none => c :: cs
    | some (_, length) => unread (length - 1) cs

def quotedBody? (quote : Char) (cs : List Char) : Option (List Char) :=
  if cs.take 2 == [quote, quote] then blockBody? quote (cs.drop 2) else lineBody? quote cs

/-- Words right before a quote that the host takes for a part of the text. -/
def stringMarks : List String := ["r", "u", "b", "f", "br", "rb", "fr", "rf"]

/-- A text that does not end, or one with an escape that is neither a name (`N`) nor half of a
character (`d`). -/
def isBadString (quote : Char) (cs : List Char) : Bool :=
  (quotedBody? quote cs).elim true (·.all (· ∉ ['N', 'd', 'D']))

def isBadNumber (cs : List Char) : Bool :=
  (cs.dropWhile fun c => c.isDigit || c == '_' || c == '.').head?.all (· ∉ "abefijnoxBEJOX".toList)

def isBadWord (cs : List Char) : Bool :=
  let run := cs.takeWhile continuesName
  run.head?.any Text.isDigit ||
    match cs.drop run.length with
    | [] => false
    | c :: rest =>
      (c == '"' || c == '\'') &&
        ((quotedBody? c rest).isNone ||
          run.all (·.toNat < 0x80) && String.ofList run ∉ reserved &&
            String.ofList (run.map Char.toLower) ∉ stringMarks)

def isHopeless : List Char → Bool
  | [] => false
  | c :: cs =>
    if c == '\\' then cs.head? != some '\n'
    else if c == '"' || c == '\'' then isBadString c cs
    else if c.isDigit || c == '.' && cs.head?.any Char.isDigit then isBadNumber (c :: cs)
    else continuesName c && isBadWord (c :: cs)

def isClear (cs : List Char) : Bool := (lexemesFrom 0 cs).any fun ls => !ls.any Lexeme.isUnclear

/-- Whether a text that cannot be read is malformed for the host too. -/
def isMalformed (cs : List Char) : Bool :=
  let cs := unifyLines cs
  let rest := unread 0 cs
  isHopeless rest || (rest.isEmpty || rest.head? == some '=') && isClear (cs.take (cs.length - rest.length))

def evaluate (cs : List Char) : Except Fault Value :=
  if '\x00' ∈ cs then .error .nullCharacter
  else match parse? cs with
    | none => .error (if isMalformed cs then .malformed else .beyond)
    | some e => e.eval noNames

end Bang.Formula
