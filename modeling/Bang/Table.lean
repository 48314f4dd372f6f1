import Bang.Assoc
import Bang.Token.Basic
import Bang.Value.Basic

/-! Tables of names. One name stands for the functions of a program; they are kept as such, and become
a record only where an expression reads that name. -/

namespace Bang

structure Function where
  params : List String
  body : List Token
  deriving Inhabited

/-- What the table of functions holds under a name: a function, or another value given from outside. -/
inductive Definition where
  | function (f : Function)
  | other (v : Value)

abbrev Namespace := Assoc Definition

inductive Binding where
  | value (v : Value)
  | functions (ns : Namespace)

abbrev Table := Assoc Binding

def functionsName : String := "__funciones__"

/-- A name that every extended program starts with; nothing is ever stored there. -/
def logsName : String := "__logs__"

def isReserved (name : String) : Prop := name = functionsName ∨ name = logsName

instance : DecidablePred isReserved := fun _ => inferInstanceAs (Decidable (_ ∨ _))

/-! ### As values -/

def Token.toValue (t : Token) : Value := .tuple [.str t.kind.name, .str t.text, .int t.line]

def Token.ofValue? : Value → Option Token
  | .tuple [.str kind, .str text, .int line] => some ⟨.ofName kind, text, line⟩
  | _ => none

def Function.toValue (f : Function) : Value :=
  .record [("params", .list (f.params.map .str)), ("body", .list (f.body.map Token.toValue))]

def Value.text? : Value → Option String
  | .str s => some s
  | _ => none

def Function.ofParts? : Value → Value → Option Function
  | .list params, .list body => do return ⟨← params.mapM Value.text?, ← body.mapM Token.ofValue?⟩
  | _, _ => none

def Definition.toValue : Definition → Value
  | .function f => f.toValue
  | .other v => v

def Definition.ofValue (v : Value) : Definition :=
  match v with
  | .record [("params", params), ("body", body)] => (Function.ofParts? params body).elim (.other v) .function
  | v => .other v

def Binding.toValue : Binding → Value
  | .value v => v
  | .functions ns => .record (ns.map Definition.toValue).entries

/-- A record under the name of the table of functions is a table of functions. -/
def Binding.ofValue (name : String) (v : Value) : Binding :=
  match v with
  | .record fields => if name == functionsName then .functions ⟨fields.map fun (k, w) => (k, .ofValue w)⟩ else .value v
  | v => .value v

theorem Binding.ofValue_of_ne {name : String} (h : name ≠ functionsName) (v : Value) :
    Binding.ofValue name v = .value v := by
  cases v with
  | record fields => simp [Binding.ofValue, h]
  | _ => rfl

/-! ### Scopes -/

/-- The table that statements work on. A function runs on a copy of its caller's table, and both
have the same functions until the callee binds their name anew; `lent` then keeps the functions as
the caller has them. -/
structure Scope where
  table : Table := {}
  lent : Option Namespace := none
  deriving Inhabited

namespace Scope

def get? (s : Scope) (name : String) : Option Binding := s.table.get? name

def functions? (s : Scope) : Option Namespace :=
  match s.get? functionsName with
  | some (.functions ns) => some ns
  | _ => none

def shared? (s : Scope) : Option Namespace := s.lent.or s.functions?

def bind (s : Scope) (name : String) (v : Value) : Scope where
  table := s.table.insert name (.ofValue name v)
  lent := if name == functionsName then s.shared? else s.lent

def withFunctions (s : Scope) (ns : Namespace) : Scope :=
  { s with table := s.table.insert functionsName (.functions ns) }

def enter (caller : Scope) (arguments : List (String × Value)) : Scope :=
  arguments.foldl (fun s (name, v) => s.bind name v) { table := caller.table }

/-- The caller's scope after a call: its functions are as the callee left them, all else is as it
was. -/
def leave (caller callee : Scope) : Scope :=
  match callee.shared? with
  | some ns => caller.withFunctions ns
  | none => caller

@[simp] theorem get?_bind_self (s : Scope) (name : String) (v : Value) :
    (s.bind name v).get? name = some (.ofValue name v) := s.table.get?_insert_self name _

theorem get?_bind_of_ne (s : Scope) {name other : String} (h : other ≠ name) (v : Value) :
    (s.bind name v).get? other = s.get? other := s.table.get?_insert_of_ne h _

theorem get?_withFunctions_of_ne (s : Scope) (ns : Namespace) {name : String} (h : name ≠ functionsName) :
    (s.withFunctions ns).get? name = s.get? name := s.table.get?_insert_of_ne h _

end Scope

end Bang
