import Bang.Fault
import Bang.Table

/-! What statements do to a program: they look at its state, change it, run the body of a call in a
scope of its own, and stop with a fault. Statements are written for every machine that can do this. -/

namespace Bang

structure State where
  scope : Scope := {}
  logs : List String := []
  journal : Journal := []
  deriving Inhabited

namespace State

def note (event : Event) (s : State) : State := { s with journal := event :: s.journal }

def log (line : String) (s : State) : State := { s with logs := s.logs ++ [line] }

end State

class Machine (m : Type → Type) extends Monad m where
  /-- Stops the program. What was done before stays done. -/
  fail {α : Type} : Fault → m α
  state : m State
  change : (State → State) → m Unit
  /-- Runs a body in the scope of a call, and returns to the caller's scope however the body ends. -/
  inCall : List (String × Value) → m Unit → m Unit
  log : String → m Unit := fun line => change (State.log line)
  beyond : List Char → m Value := fun _ => fail .beyond

/-- A machine on which nothing is done behind a stop. -/
class LawfulMachine (m : Type → Type) [Machine m] : Prop extends LawfulMonad m where
  fail_bind {α β : Type} (fault : Fault) (f : α → m β) : Machine.fail fault >>= f = Machine.fail fault

namespace State

def put (name : String) (v : Value) (s : State) : State :=
  { s with
    scope := s.scope.bind name v
    journal := (if (s.scope.get? name).isSome then .updated name v else .created name v) :: s.journal }

def declare (name : String) (f : Function) (ns : Namespace) (s : State) : State :=
  { s with scope := s.scope.withFunctions ns, journal := .declared name f :: s.journal }

def enter (arguments : List (String × Value)) (s : State) : State :=
  { s with scope := s.scope.enter arguments }

/-- The state behind a call, where `s` is the caller's and `t` the one that the body left. -/
def leave (s t : State) : State := { t with scope := s.scope.leave t.scope }

end State

namespace Machine

variable {m : Type → Type} [Machine m]

def report {α : Type} (d : Diagnostic) : m α := fail (.diagnostic d)

def crash {α : Type} (c : Crash) : m α := fail (.crash c)

def note (event : Event) : m Unit := change (State.note event)

def lookup? (name : String) : m (Option Binding) := do return (← state).scope.get? name

end Machine

end Bang
