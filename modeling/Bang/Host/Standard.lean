import Bang.Host

/-! The standard host. It runs a program in steps of its own, and an expression can find the one that evaluates it among
those that are running. There the expression gets hold of the tables and lists that the state of the program is kept
in. Of all that a host does with an expression only this much is told here; the rest stays beyond. -/

namespace Bang

namespace Reach

inductive Place where
  | table
  | functions
  | function (name : String)
  | types
  | variableUses
  | functionUses
  | logs

def Place.shared? : Place → Option String
  | table | functions | function _ => none
  | types => some "types"
  | variableUses => some "unused_vars"
  | functionUses => some "unused_fns"
  | logs => some "logs"

/-- The step that evaluates is the innermost one with a table. -/
def amongSteps : String :=
  " for f in __import__('traceback').walk_stack(__import__('sys')._getframe())" ++
    " if 'symbol_table' in f[0].f_locals][0]"

def Place.text (place : Place) : String :=
  match place.shared? with
  | some name => "[f[0].f_globals['" ++ name ++ "']" ++ amongSteps
  | none => "[f[0].f_locals['symbol_table']" ++ amongSteps ++
    match place with
    | functions => "['" ++ functionsName ++ "']"
    | function name => "['" ++ functionsName ++ "']['" ++ name ++ "']"
    | _ => ""

inductive Change (α : Type) where
  | clear
  | update (key : String) (value : α)

inductive Use where
  /-- Whether the place is empty is the index of a character in the text. -/
  | isEmpty
  /-- The text is joined or compared with what the change gives, which is nothing. -/
  | change (isJoined : Bool) (change : Change Formula.Expr)

end Reach

structure Reach where
  text : String
  place : Reach.Place
  use : Reach.Use

namespace Reach

/-! ### Reading -/

def after? (text : String) (cs : List Char) : Option (List Char) :=
  if text.toList.isPrefixOf cs then some (cs.drop text.length) else none

def key? (cs : List Char) : Option (String × List Char) := do
  let cs ← after? "['" cs
  let name := cs.takeWhile Token.Rule.isNamePart
  return (String.ofList name, ← after? "']" (cs.drop name.length))

def functionPlace? (cs : List Char) : Option (Place × List Char) :=
  match key? cs with
  | none => some (.table, cs)
  | some (name, rest) =>
    if name != functionsName then none
    else match key? rest with
      | none => some (.functions, rest)
      | some (name, rest) => some (.function name, rest)

def place? (cs : List Char) : Option (Place × List Char) :=
  ([Place.types, .variableUses, .functionUses, .logs].findSome? fun place => (after? place.text cs).map (place, ·)).or
    ((after? Place.table.text cs).bind functionPlace?)

/-- A change of a place, with a quote behind it that a comment hides. -/
def change? (cs : List Char) : Option (Change Formula.Expr) :=
  if cs == ".clear()#\"".toList then some .clear
  else do
    let cs ← after? ".update(" cs
    let key := cs.takeWhile Token.Rule.isNamePart
    let cs ← after? "=" (cs.drop key.length)
    let value := cs.takeWhile (· != '#')
    if !key.head?.any Token.Rule.isNameStart || String.ofList key ∈ "True" :: "False" :: "None" :: Formula.reserved ||
        cs.drop value.length != "#\"".toList || value.getLast? != some ')' then none
    else match ← Formula.parse? ('[' :: value.dropLast ++ [']']) with
      | .list [e] => some (.update (String.ofList key) e)
      | _ => none

def literal? (cs : List Char) : Option (String × List Char) := do
  let inner ← after? "\"" cs
  let (text, length) ← Formula.string? '"' inner
  if cs.any fun c => c == '\n' || c == '\r' then none else return (String.ofList text, cs.drop length)

def read? (cs : List Char) : Option Reach := do
  let (text, rest) ← literal? cs
  match after? "[" rest with
  | some rest =>
    let (place, rest) ← place? rest
    if rest == "==\x7b\x7d]#\"".toList then return ⟨text, place, .isEmpty⟩ else none
  | none =>
    let (isJoined, rest) ← ((after? "+" rest).map (true, ·)).or ((after? "==" rest).map (false, ·))
    let (place, rest) ← place? rest
    return ⟨text, place, .change isJoined (← change? rest)⟩

/-- Values of a kind made on the spot are asked for the text of a missing key, and give a value of
another kind. -/
def unsaid? (cs : List Char) : Option Value.Kind := do
  let (_, rest) ← literal? cs
  let rest ← after? "==\x7b\x7d[type('" rest
  let rest ← after? "',(),\x7b'__repr__':" (rest.dropWhile Token.Rule.isNamePart)
  [Value.Kind.bool, .int, .float, .list, .tuple, .record].find? fun kind =>
    rest == (kind.name ++ "\x7d)()]#\"").toList

/-! ### Evaluating -/

/-- What is left of an event when no use of a variable is known any more. -/
def withoutVariableUse : Event → Option Event
  | .created name v => v.type?.map (.typed name)
  | .read _ => none
  | event => some event

def withoutFunctionUse : Event → Option Event
  | .declared _ _ | .returned _ => none
  | event => some event

def Change.onFields : Change Value → List (String × Value) → List (String × Value)
  | .clear, _ => []
  | .update key v, fields => Formula.putField fields key v

/-- The state after a change of a place, where that is one of our states. -/
def changed? (s : State) : Place → Change Value → Option State
  | .table, .clear => some { s with scope := { table := .empty, lent := s.scope.shared? } }
  | .table, .update key v => some { s with scope := s.scope.bind key v }
  | .functions, .clear => s.scope.functions?.map fun _ => { s with scope := s.scope.withFunctions .empty }
  | .functions, .update key v =>
    s.scope.functions?.map fun ns => { s with scope := s.scope.withFunctions (ns.insert key (.ofValue v)) }
  | .function name, change => do
    let ns ← s.scope.functions?
    match (← ns.get? name).toValue with
    | .record fields =>
      some { s with scope := s.scope.withFunctions (ns.insert name (.ofValue (.record (change.onFields fields)))) }
    | _ => none
  | .types, .update key (.str type) => some (s.note (.typed key (.ofName type)))
  | .variableUses, .clear => some { s with journal := s.journal.filterMap withoutVariableUse }
  | .functionUses, .clear => some { s with journal := s.journal.filterMap withoutFunctionUse }
  | .logs, .clear => some { s with logs := [] }
  | _, _ => none

def isEmpty? (s : State) : Place → Option Bool
  | .table => some s.scope.table.entries.isEmpty
  | .types => some s.journal.types.entries.isEmpty
  | .variableUses => some (Mark.uses s.journal.variableMarks).entries.isEmpty
  | .functionUses => some (Mark.uses s.journal.functionMarks).entries.isEmpty
  | _ => none

def names (d : Dialect) (name : String) : Except Formula.Fault Value :=
  .error (if Formula.isHostName d name then .beyond else .undefinedName name)

def Change.value (d : Dialect) : Change Formula.Expr → Except Formula.Fault (Change Value)
  | .clear => .ok .clear
  | .update key e => do return .update key (← e.eval (names d))

def Use.run (use : Use) (d : Dialect) (text : String) (place : Place) (s : State) :
    Except Formula.Fault Value × State :=
  match use with
  | .isEmpty =>
    match isEmpty? s place with
    | none => (.error .beyond, s)
    | some b => (((Value.str text).item (.bool b)).mapError .ofValue, s)
  | .change isJoined c =>
    match c.value d with
    | .error fault => (.error fault, s)
    | .ok c =>
      match changed? s place c with
      | none => (.error .beyond, s)
      | some t =>
        (if isJoined then (Value.binary .add (.str text) .nothing).mapError .ofValue else .ok (.bool false), t)

def run (r : Reach) (d : Dialect) (s : State) : Except Formula.Fault Value × State :=
  match d, r.place.shared? with
  | .basic, some name => (((Value.record []).item (.str name)).mapError .ofValue, s)
  | _, _ => r.use.run d r.text r.place s

def evaluate (d : Dialect) (cs : List Char) (s : State) : Except Formula.Fault Value × State :=
  match Formula.parse? cs with
  | some e => (e.eval (names d), s)
  | none =>
    match read? cs with
    | some r => r.run d s
    | none => (.error .beyond, s)

end Reach

namespace Host

def standard : Host where
  evaluate d cs s :=
    match Reach.unsaid? cs with
    | some kind => (.error (.crash (.unsaid kind)), s)
    | none =>
      let (result, t) := Reach.evaluate d cs s
      (result.mapError (.ofFormula cs), t)
  translate reason := .ok reason
  display _ := .ok ()

end Host

end Bang
