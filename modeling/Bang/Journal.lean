import Bang.Table
import Bang.Usage

/-! The journal of a session: what programs did with names, the latest first. The type of each name and
the uses of variables and functions are read off it. -/

namespace Bang

/-- Types of values. A type given from outside may also be none of a value (`other`). -/
inductive ValueType where
  | boolean
  | number
  | string
  | other (name : String)
  deriving DecidableEq, Repr

def ValueType.name : ValueType → String
  | boolean => "boolean"
  | number => "number"
  | string => "string"
  | other name => name

def ValueType.ofName (name : String) : ValueType :=
  ([boolean, number, string].find? fun type => type.name == name).getD (other name)

def Value.type? : Value → Option ValueType
  | .bool _ => some .boolean
  | .int _ | .float _ => some .number
  | .str _ => some .string
  | _ => none

inductive Event where
  | created (name : String) (value : Value)
  | updated (name : String) (value : Value)
  /-- A name was given a type from outside. -/
  | typed (name : String) (type : ValueType)
  | evaluating (tokens : List Token)
  | read (name : String)
  | declared (name : String) (f : Function)
  | entered (name : String)
  | returned (name : String)

abbrev Journal := List Event

namespace Journal

def stepTypes : Event → Assoc ValueType → Assoc ValueType
  | .created name v, m => v.type?.elim m (m.insert name ·)
  | .typed name type, m => m.insert name type
  | _, m => m

/-- A name has the type it was last created with. -/
def types (j : Journal) : Assoc ValueType := j.foldr stepTypes .empty

def typeGiven? (name : String) : Event → Option ValueType
  | .created other v => if name == other then v.type? else none
  | .typed other type => if name == other then some type else none
  | _ => none

def typeOf? (j : Journal) (name : String) : Option ValueType := j.findSome? (typeGiven? name)

theorem typeOf?_cons (e : Event) (j : Journal) (name : String) :
    typeOf? (e :: j) name = (typeGiven? name e).or (typeOf? j name) := by
  cases h : typeGiven? name e <;> simp [typeOf?, h]

theorem get?_stepTypes (e : Event) (m : Assoc ValueType) (name : String) :
    (stepTypes e m).get? name = (typeGiven? name e).or (m.get? name) := by
  cases e with
  | created other v =>
    by_cases h : name = other
    · subst h
      cases hv : v.type? <;> simp [stepTypes, typeGiven?, hv]
    · cases hv : v.type? <;> simp [stepTypes, typeGiven?, hv, h, Assoc.get?_insert_of_ne]
  | typed other type =>
    by_cases h : name = other
    · subst h
      simp [stepTypes, typeGiven?]
    · simp [stepTypes, typeGiven?, h, Assoc.get?_insert_of_ne]
  | _ => simp [stepTypes, typeGiven?]

theorem get?_types (j : Journal) (name : String) : j.types.get? name = j.typeOf? name := by
  induction j with
  | nil => rfl
  | cons e j ih =>
    have step : (types (e :: j)).get? name = (typeGiven? name e).or ((types j).get? name) :=
      get?_stepTypes e (types j) name
    rw [step, ih, typeOf?_cons]

def variableMark? : Event → Option (Mark Value)
  | .created name v => some (.opened name v)
  | .read name => some (.used name)
  | _ => none

def functionMark? : Event → Option (Mark Function)
  | .declared name f => some (.opened name f)
  | .returned name => some (.used name)
  | _ => none

def variableMarks (j : Journal) : List (Mark Value) := j.filterMap variableMark?

def functionMarks (j : Journal) : List (Mark Function) := j.filterMap functionMark?

def declares (name : String) : Event → Bool
  | .declared other _ => name == other
  | _ => false

def isDeclared (j : Journal) (name : String) : Bool := j.any (declares name)

theorem contains_uses_functionMarks (j : Journal) (name : String) :
    (Mark.uses j.functionMarks).contains name = j.isDeclared name := by
  rw [Mark.contains_uses, functionMarks, List.any_filterMap]
  refine congrArg (List.any j) ?_
  funext event
  cases event <;> rfl

def isInternal (name : String) : Bool := name.toList.take 2 == ['_', '_']

def unusedVariables (j : Journal) : List String := Mark.unused (!isInternal ·) j.variableMarks

def unusedFunctions (j : Journal) : List String := Mark.unused (fun _ => true) j.functionMarks

def variableWarning (name : String) : String := s!"⚠️ Variable \"{name}\" declarada pero no usada"

def functionWarning (name : String) : String := s!"⚠️ Función \"{name}\" declarada pero nunca usada"

end Journal

end Bang
