/-! Values of the language. Programs make truth values, numbers and texts; lists, tuples and
records come from tables that are given from outside and from the table of functions. -/

namespace Bang

inductive Value where
  | nothing
  | bool (b : Bool)
  | int (n : Int)
  | float (x : Float)
  | str (s : String)
  | list (items : List Value)
  | tuple (items : List Value)
  | record (fields : List (String × Value))
  deriving Inhabited

namespace Value

inductive Kind where
  | nothing
  | bool
  | int
  | float
  | str
  | list
  | tuple
  | record
  deriving DecidableEq, Repr

def kind : Value → Kind
  | nothing => .nothing
  | bool _ => .bool
  | int _ => .int
  | float _ => .float
  | str _ => .str
  | list _ => .list
  | tuple _ => .tuple
  | record _ => .record

def Kind.name : Kind → String
  | .nothing => "NoneType"
  | .bool => "bool"
  | .int => "int"
  | .float => "float"
  | .str => "str"
  | .list => "list"
  | .tuple => "tuple"
  | .record => "dict"

def isTrue : Value → Bool
  | nothing => false
  | bool b => b
  | int n => n != 0
  | float x => x != 0.0
  | str s => s != ""
  | list items => !items.isEmpty
  | tuple items => !items.isEmpty
  | record fields => !fields.isEmpty

def int? : Value → Option Int
  | bool b => some (if b then 1 else 0)
  | int n => some n
  | _ => none

inductive Number where
  | int (n : Int)
  | float (x : Float)

def number? : Value → Option Number
  | float x => some (.float x)
  | v => v.int?.map .int

end Value

end Bang
