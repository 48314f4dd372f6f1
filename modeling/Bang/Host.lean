import Bang.Dialect
import Bang.Run

/-! Programs in their host. Most expressions keep to the language. What lies outside it is left to the host that runs
the program, and so are two more things in the extended dialect: the reasons why expressions have no value are put
into the user's own language, and printed lines are displayed before they are logged. All three may fail. -/

namespace Bang

structure Host where
  /-- The value of a text that lies outside the language. The host has the whole state at hand, and
  may change it. -/
  evaluate : Dialect → List Char → State → Except Fault Value × State
  translate : String → Except Fault String
  display : String → Except Fault Unit

def Host.told (h : Host) : Dialect → Fault → Fault
  | .extended, .diagnostic (.evaluation text fault) =>
    match h.translate fault.message with
    | .ok reason => .diagnostic (.translated text reason)
    | .error fault => fault
  | _, fault => fault

def Hosted (_ : Dialect) (_ : Host) : Type → Type := ExceptT Fault (StateM State)

namespace Hosted

variable {d : Dialect} {h : Host} {α : Type}

instance : Monad (Hosted d h) := inferInstanceAs (Monad (ExceptT Fault (StateM State)))

def run (x : Hosted d h α) (s : State) : Except Fault α × State := ExceptT.run x s

def ofRun (x : State → Except Fault α × State) : Hosted d h α := ExceptT.mk x

def log (d : Dialect) (h : Host) (line : String) (s : State) : Except Fault Unit × State :=
  match d with
  | .basic => (.ok (), s.log line)
  | .extended =>
    match h.display line with
    | .ok () => (.ok (), s.log line)
    | .error fault => (.error fault, s)

instance : Machine (Hosted d h) where
  fail fault := ofRun fun s => (.error (h.told d fault), s)
  state := ofRun fun s => (.ok s, s)
  change f := ofRun fun s => (.ok (), f s)
  inCall arguments body := ofRun fun s =>
    let (result, t) := run body (s.enter arguments)
    (result, s.leave t)
  log line := ofRun (log d h line)
  beyond text := ofRun fun s =>
    let (result, t) := h.evaluate d text s
    (result.mapError (h.told d), t)

instance : LawfulMonad (Hosted d h) := inferInstanceAs (LawfulMonad (ExceptT Fault (StateM State)))

instance : LawfulMachine (Hosted d h) where
  fail_bind _ _ := rfl

end Hosted

end Bang
