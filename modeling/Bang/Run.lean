import Bang.Machine

/-! The closed machine: a computation on the state that may stop with a fault, and stops where the language ends. -/

namespace Bang

abbrev Run := ExceptT Fault (StateM State)

instance : Machine Run where
  fail fault := throw fault
  state := get
  change f := modify f
  inCall arguments body := ExceptT.mk fun s =>
    let (result, t) := body.run (s.enter arguments)
    (result, s.leave t)

instance : LawfulMachine Run where
  fail_bind _ _ := rfl

namespace Run

open Machine

variable {α β : Type}

@[simp] theorem run_pure (a : α) (s : State) : (pure a : Run α).run s = (.ok a, s) := rfl

@[simp] theorem run_fail (fault : Fault) (s : State) : (fail fault : Run α).run s = (.error fault, s) := rfl

@[simp] theorem run_state (s : State) : (state : Run State).run s = (.ok s, s) := rfl

@[simp] theorem run_change (f : State → State) (s : State) : (change f : Run Unit).run s = (.ok (), f s) := rfl

@[simp] theorem run_inCall (arguments : List (String × Value)) (body : Run Unit) (s : State) :
    (inCall arguments body : Run Unit).run s =
      ((body.run (s.enter arguments)).1, s.leave (body.run (s.enter arguments)).2) := rfl

section

variable {σ : Type} {x : ExceptT Fault (StateM σ) α} {f : α → ExceptT Fault (StateM σ) β} {s t : σ}

theorem run_bind_ok {a : α} (h : x.run s = (.ok a, t)) : (x >>= f).run s = (f a).run t := by
  change (ExceptT.bindCont f (x.run s).1 : StateM σ (Except Fault β)) (x.run s).2 = _
  rw [h]
  rfl

theorem run_bind_error {fault : Fault} (h : x.run s = (.error fault, t)) :
    (x >>= f).run s = (.error fault, t) := by
  change (ExceptT.bindCont f (x.run s).1 : StateM σ (Except Fault β)) (x.run s).2 = _
  rw [h]
  rfl

end

end Run

end Bang
