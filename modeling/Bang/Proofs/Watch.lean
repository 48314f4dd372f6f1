import Bang.Proofs.Simulation

/-! A machine that writes down the points a run passes through: after every change of the state, what the
program's own table holds, however deep the calls are, and what the session has recorded. Programs do on it
what they do without being watched. -/

namespace Bang

open Machine Run Statement

structure Point where
  /-- The table of the program itself, not that of a call in progress. -/
  main : Table
  journal : Journal

structure Watched where
  state : State
  callers : List Scope := []
  points : List Point := []

namespace Watched

def main (w : Watched) : Scope := w.callers.getLastD w.state.scope

def point (w : Watched) : Point := ⟨w.main.table, w.state.journal⟩

def pass (w : Watched) : Watched := { w with points := w.point :: w.points }

def update (f : State → State) (w : Watched) : Watched := pass { w with state := f w.state }

def enter (arguments : List (String × Value)) (w : Watched) : Watched :=
  pass { w with state := w.state.enter arguments, callers := w.state.scope :: w.callers }

def leave (w v : Watched) : Watched :=
  pass { v with state := w.state.leave v.state, callers := w.callers }

end Watched

abbrev Watch := ExceptT Fault (StateM Watched)

instance : Machine Watch where
  fail fault := throw fault
  state := do return (← get).state
  change f := modify (Watched.update f)
  inCall arguments body := ExceptT.mk fun w =>
    let (result, v) := body.run (w.enter arguments)
    (result, w.leave v)

namespace Watch

variable {α : Type}

theorem run_state (w : Watched) : (state : Watch State).run w = (.ok w.state, w) := rfl

theorem run_change (f : State → State) (w : Watched) :
    (change f : Watch Unit).run w = (.ok (), w.update f) := rfl

theorem run_inCall (arguments : List (String × Value)) (body : Watch Unit) (w : Watched) :
    (inCall arguments body : Watch Unit).run w =
      ((body.run (w.enter arguments)).1, w.leave (body.run (w.enter arguments)).2) := rfl

def Erases (x : Watch α) (y : Run α) : Prop :=
  ∀ w, ((x.run w).1, (x.run w).2.state) = y.run w.state

end Watch

def watchSimulation : Simulation Watch Run where
  Rel := Watch.Erases
  ret _ _ := rfl
  seq {_ _ x y f g} hx hf w := by
    have hw := hx w
    rcases h : x.run w with ⟨result, v⟩
    rw [h] at hw
    cases result with
    | error fault => rw [Run.run_bind_error h, Run.run_bind_error hw.symm]
    | ok a =>
      rw [Run.run_bind_ok h, Run.run_bind_ok hw.symm]
      exact hf a v
  stop _ _ _ := rfl

namespace watchSimulation

theorem store (d : Dialect) (line : Int) (name : String) (v : Value) :
    watchSimulation.Rel (store d line name v) (store d line name v) := by
  refine watchSimulation.seq (fun w => rfl) fun s => ?_
  cases refusal? d line name v s with
  | none => exact fun w => rfl
  | some fault => exact fun w => rfl

theorem leaves (d : Dialect) : watchSimulation.Leaves d d (fun _ => True) where
  lookup _ _ _ := rfl
  note _ _ _ := rfl
  beyond _ _ := rfl
  log _ _ := rfl
  store t _ v := store d t.line t.text v

theorem finishCall (name : String) :
    watchSimulation.Rel (finishCall name) (finishCall name) := by
  refine watchSimulation.seq (fun w => rfl) fun s => ?_
  split
  · exact fun w => rfl
  · exact fun w => rfl

theorem callLeaves : watchSimulation.CallLeaves (fun _ => True) := by
  refine .of_lookup (fun _ => rfl) (fun _ _ _ _ => rfl) finishCall ?_
  intro arguments x y hxy w
  have hbody : ((x.run (w.enter arguments)).1, (x.run (w.enter arguments)).2.state) =
      y.run (w.state.enter arguments) := hxy (w.enter arguments)
  rw [Watch.run_inCall, Run.run_inCall, ← hbody]
  rfl

end watchSimulation

namespace Program

/-- Runs the statements of a program and keeps the points passed, the first of which is its start. -/
def watch (d : Dialect) (limits : Limits) (tokens : List Token) (s : State) : Except Fault Unit × Watched :=
  (statements d limits tokens : Watch Unit).run (Watched.pass { state := start d s })

theorem watch_eq_run (d : Dialect) (limits : Limits) (tokens : List Token) (s : State) :
    ((watch d limits tokens s).1, (watch d limits tokens s).2.state) =
      (statements d limits tokens : Run Unit).run (start d s) :=
  Simulation.program (watchSimulation.leaves d) watchSimulation.callLeaves (.inl rfl) (.inl rfl) tokens
    (Watched.pass { state := start d s })

/-- The points that a run passes, in order. A text that cannot be cut into tokens is not run. -/
def points (d : Dialect) (limits : Limits) (code : String) (s : State) : List Point :=
  match Token.tokenize d code with
  | .error _ => []
  | .ok tokens => (watch d limits tokens { s with logs := [] }).2.points.reverse

-- Within the call a type is recorded for `z`, which the program itself does not have.
example : (points .extended ⟨9, 9⟩ "INICIO x=1! func f(y)\x7b z=y! \x7d f(2)! FIN" {})[8]?.map
    (fun p => (p.main.keys, p.journal.types.keys)) = some ([functionsName, logsName, "x"], ["x", "z"]) := by
  decide +kernel

end Program

end Bang
