import Bang.Proofs.Simulation
import Bang.Proofs.Steps

/-! What statements may do. A contract says how a computation may change the state, however it ends, and which faults
may stop it. Whether statements meet it is decided by the few steps in which they touch the state. -/

namespace Bang

open Machine Run Statement

def Fault.isOfProgram : Fault → Bool
  | .diagnostic (.lexical _) | .diagnostic .programFrame | .diagnostic .programUnclosed => true
  | .diagnostic (.statementUnfinished _) | .diagnostic (.braceUnopened _) => true
  | _ => false

structure Contract where
  Step : State → State → Prop
  Stops : Fault → Prop
  refl : ∀ s, Step s s
  trans : ∀ {s t u}, Step s t → Step t u → Step s u

def Run.Meets {α : Type} (C : Contract) (x : Run α) : Prop :=
  ∀ s : State, C.Step s (x.run s).2 ∧ ∀ fault, (x.run s).1 = .error fault → C.Stops fault

namespace Run.Meets

variable {C : Contract} {α β : Type}

theorem of_ok {x : Run α} (h : ∀ s, ∃ a t, x.run s = (.ok a, t) ∧ C.Step s t) : x.Meets C := by
  intro s
  obtain ⟨a, t, hrun, hstep⟩ := h s
  rw [hrun]
  refine ⟨hstep, fun fault hfault => ?_⟩
  cases hfault

theorem ret (a : α) : (pure a : Run α).Meets C := of_ok fun s => ⟨a, s, rfl, C.refl s⟩

theorem stop {fault : Fault} (h : C.Stops fault) : (fail fault : Run α).Meets C := by
  intro s
  refine ⟨C.refl s, fun other hother => ?_⟩
  obtain rfl : fault = other := Except.error.inj hother
  exact h

theorem seq {x : Run α} {f : α → Run β} (hx : x.Meets C) (hf : ∀ a, (f a).Meets C) : (x >>= f).Meets C := by
  intro s
  refine ⟨run_bind_trans (R := C.Step) C.trans (hx s).1 fun a t => (hf a t).1, fun fault hfault => ?_⟩
  rcases hrun : x.run s with ⟨result, t⟩
  cases result with
  | error other =>
    rw [run_bind_error hrun] at hfault
    obtain rfl : other = fault := Except.error.inj hfault
    exact (hx s).2 other (congrArg Prod.fst hrun)
  | ok a =>
    rw [run_bind_ok hrun] at hfault
    exact (hf a t).2 fault hfault

end Run.Meets

namespace Contract

variable {C : Contract} {d : Dialect} {P : List Token → Prop}

structure Leaves (C : Contract) (d : Dialect) (P : List Token → Prop) : Prop where
  part : ∀ {tokens part : List Token}, P tokens → part <:+: tokens → P part
  stops : ∀ {fault : Fault}, fault.isOfProgram = false → C.Stops fault
  note : ∀ {event : Event}, event.isPassing → ∀ s : State, C.Step s (s.note event)
  log : ∀ line (s : State), C.Step s (s.log line)
  store : ∀ {name : String} {line line' : Int}, P [⟨.identifier, name, line⟩, ⟨.operator, "=", line'⟩] →
    ∀ v, (store d line name v : Run Unit).Meets C
  define : d = .extended → ∀ name f, (define name f : Run Unit).Meets C

section Leaves

variable (L : C.Leaves d P)
include L

theorem fails {α : Type} {fault : Fault} (h : fault.isOfProgram = false) : (fail fault : Run α).Meets C :=
  .stop (L.stops h)

theorem noting {event : Event} (h : event.isPassing) : (note event : Run Unit).Meets C :=
  .of_ok fun s => ⟨(), _, rfl, L.note h s⟩

theorem logging (line : String) : (log line : Run Unit).Meets C := .of_ok fun s => ⟨(), _, rfl, L.log line s⟩

omit L in
theorem lookup (name : String) : (lookup? name : Run (Option Binding)).Meets C := .of_ok fun s => ⟨_, s, rfl, C.refl s⟩

theorem firstLine (tokens : List Token) : (firstLine tokens : Run Int).Meets C := by
  cases tokens with
  | nil => exact fails L rfl
  | cons t ts => exact .ret t.line

/-! ### Expressions and statements that hold no others -/

theorem tokenText (t : Token) : (tokenText t : Run (List Char)).Meets C := by
  unfold Statement.tokenText
  split
  · refine .seq (lookup t.text) fun binding => ?_
    cases binding with
    | none => exact fails L rfl
    | some binding =>
      refine .seq (noting L rfl) fun _ => ?_
      cases operandText? binding.toValue with
      | none => exact fails L rfl
      | some text => exact .ret text
  · exact .ret _
  · exact .ret _
  · exact .ret _
  · exact fails L rfl

theorem formulaText (tokens : List Token) : (formulaText tokens : Run (List Char)).Meets C := by
  induction tokens with
  | nil => exact .ret []
  | cons t ts ih => exact .seq (tokenText L t) fun text => .seq ih fun rest => .ret (text ++ rest)

theorem evaluate (tokens : List Token) : (evaluate tokens : Run Value).Meets C := by
  refine .seq (noting L rfl) fun _ => .seq (formulaText L tokens) fun text => ?_
  split
  · exact .ret _
  · exact fails L rfl
  · exact fails L rfl

theorem print (tokens : List Token) : (print tokens : Run Unit).Meets C := by
  refine .seq (firstLine L tokens) fun line => ?_
  split
  · exact fails L rfl
  · refine .seq (evaluate L _) fun v => ?_
    cases v.display with
    | none => exact fails L rfl
    | some text => exact logging L _

theorem checkOperands (tokens : List Token) : (checkOperands tokens : Run Unit).Meets C := by
  induction tokens with
  | nil => exact .ret ()
  | cons t ts ih =>
    refine .seq (lookup t.text) fun binding => ?_
    split
    · exact fails L rfl
    · exact ih

theorem numberValue (text : String) : (numberValue text : Run Value).Meets C := by
  unfold Statement.numberValue
  split
  · split
    · exact .ret _
    · exact fails L rfl
  · split
    · exact .ret _
    · exact fails L rfl
    · exact fails L rfl

theorem assigned (tokens : List Token) : (assigned tokens : Run Value).Meets C := by
  unfold Statement.assigned
  split
  · exact numberValue L _
  · exact .ret _
  · exact .seq (checkOperands L tokens) fun _ => evaluate L tokens

theorem assign {tokens : List Token} (h : P tokens) : (assign d tokens : Run Unit).Meets C := by
  unfold Statement.assign
  split
  · rename_i name line line' t ts
    have htarget : P [⟨.identifier, name, line⟩, ⟨.operator, "=", line'⟩] := L.part h ⟨[], t :: ts, rfl⟩
    exact .seq (assigned L (t :: ts)) fun v => L.store htarget v
  · exact fails L rfl

/-! ### Statements that hold others -/

section Compound

variable {inner : List Token → Run Unit} (hinner : ∀ tokens, P tokens → (inner tokens).Meets C)
include hinner

theorem sequence {braces : Int} {pending tokens : List Token} (h : P (pending.reverse ++ tokens)) :
    (sequence inner braces pending tokens).Meets C := by
  induction tokens generalizing braces pending with
  | nil =>
    cases pending with
    | nil => exact .ret ()
    | cons last _ => exact fails L rfl
  | cons t ts ih =>
    simp only [Statement.sequence]
    split
    · have hfront : P pending.reverse := L.part h (List.prefix_append _ _).isInfix
      have hrest : P (([] : List Token).reverse ++ ts) :=
        L.part h ((List.suffix_cons t ts).trans (List.suffix_append _ _)).isInfix
      exact .seq (hinner _ hfront) fun _ => ih hrest
    · apply ih
      rwa [List.reverse_cons, List.append_assoc, List.singleton_append]

theorem block {tokens : List Token} (h : P tokens) : (block inner tokens).Meets C := by
  unfold Statement.block
  split
  · split
    · have hinside : P (([] : List Token).reverse ++ (tokens.drop 1).dropLast) :=
        L.part h ((List.dropLast_prefix _).isInfix.trans (List.drop_suffix 1 tokens).isInfix)
      exact sequence L hinner hinside
    · exact fails L rfl
  · exact fails L rfl

theorem ifThen {tokens : List Token} (h : P tokens) : (ifThen inner tokens).Meets C := by
  refine .seq (firstLine L tokens) fun line => ?_
  split
  · exact fails L rfl
  · rename_i condition body hbracketed
    have hbody : P body := L.part h (isInfix_bracketed? hbracketed).2
    refine .seq (evaluate L condition) fun v => ?_
    split
    · split
      · exact block L hinner hbody
      · exact fails L rfl
    · exact .ret ()
    · exact fails L rfl

theorem whileDo {tokens : List Token} (h : P tokens) : (whileDo inner tokens).Meets C := by
  refine .seq (firstLine L tokens) fun line => ?_
  split
  · exact fails L rfl
  · rename_i condition body hbracketed
    have hbody : P body := L.part h (isInfix_bracketed? hbracketed).2
    refine .seq (evaluate L condition) fun v => ?_
    split
    · split
      · exact block L hinner hbody
      · exact fails L rfl
    · exact fails L rfl

theorem otherwise {tokens : List Token} (h : P tokens) : (otherwise inner tokens).Meets C := by
  refine .seq (firstLine L tokens) fun line => ?_
  split
  · exact fails L rfl
  · exact hinner _ (L.part h (List.drop_suffix 1 tokens).isInfix)

omit hinner in
theorem loop {body update : Run Unit} {condition : Run Value} (hbody : body.Meets C) (hupdate : update.Meets C)
    (hcondition : condition.Meets C) (rounds : Nat) (v : Value) :
    (loop body update condition rounds v).Meets C := by
  induction rounds generalizing v with
  | zero =>
    cases hv : v.isTrue with
    | false =>
      rw [loop_of_not_isTrue hv]
      exact .ret ()
    | true =>
      rw [loop_zero hv]
      exact fails L rfl
  | succ rounds ih =>
    cases hv : v.isTrue with
    | false =>
      rw [loop_of_not_isTrue hv]
      exact .ret ()
    | true =>
      rw [loop_succ hv]
      exact .seq hbody fun _ => .seq hupdate fun _ => .seq hcondition ih

theorem doFor (rounds : Nat) {tokens : List Token} (h : P tokens) : (doFor d rounds inner tokens).Meets C := by
  refine .seq (firstLine L tokens) fun line => ?_
  split
  · exact fails L rfl
  · split
    · exact fails L rfl
    · rename_i header body hbracketed
      have hheader : P header := L.part h (isInfix_loopBracketed? hbracketed).1
      have hbody : P body := L.part h (isInfix_loopBracketed? hbracketed).2
      split
      · rename_i start condition update hparts
        have hstart : P start := L.part hheader (isInfix_splitOn ";" (by simp [hparts]))
        have hupdate : P update := L.part hheader (isInfix_splitOn ";" (by simp [hparts]))
        refine .seq (assign L hstart) fun _ => .seq (evaluate L condition) fun v => ?_
        split
        · split
          · exact loop L (block L hinner hbody) (assign L hupdate) (evaluate L condition) rounds _
          · exact fails L rfl
        · exact fails L rfl
      · exact fails L rfl

end Compound

/-! ### Declarations and calls -/

theorem parameters (tokens : List Token) : (parameters tokens : Run (List String)).Meets C := by
  induction tokens with
  | nil => exact .ret []
  | cons t ts ih =>
    simp only [Statement.parameters]
    split
    · exact .seq ih fun rest => .ret _
    · split
      · exact ih
      · exact fails L rfl

theorem declare (hd : d = .extended) (tokens : List Token) : (declare tokens : Run Unit).Meets C := by
  unfold Statement.declare
  split
  · exact fails L rfl
  · split
    · exact fails L rfl
    · split
      · exact fails L rfl
      · split
        · exact fails L rfl
        · refine .seq (parameters L _) fun params => ?_
          split
          · exact L.define hd _ _
          · exact fails L rfl
  · exact fails L rfl

theorem checkFunction (name : String) : (checkFunction name : Run Unit).Meets C := by
  refine .seq (lookup functionsName) fun binding => ?_
  split
  · exact fails L rfl
  · split
    · exact .ret ()
    · exact .ret ()
    · exact fails L rfl
  · split
    · split <;> exact fails L rfl
    · split <;> exact fails L rfl
    · split <;> exact fails L rfl
    · exact fails L rfl

theorem functionOf (name : String) : (functionOf name : Run Function).Meets C := by
  refine .seq (lookup functionsName) fun binding => ?_
  split
  · exact fails L rfl
  · split
    · exact fails L rfl
    · exact .ret _
    · exact fails L rfl
  · exact fails L rfl

theorem arguments (tokens : List Token) : (arguments tokens : Run (List Value)).Meets C := by
  have hall (parts : List (List Token)) : (evaluateAll parts : Run (List Value)).Meets C := by
    induction parts with
    | nil => exact .ret []
    | cons tokens rest ih => exact .seq (evaluate L tokens) fun v => .seq ih fun vs => .ret (v :: vs)
  exact hall _

/-- A call meets the contract if its body, which need not be among the tokens of the call, meets it
in its own scope. -/
theorem call {inner : List Token → Run Unit}
    (hbody : ∀ arguments body, (inCall arguments (Statement.block inner body) : Run Unit).Meets C)
    (hfinish : ∀ name, (finishCall name : Run Unit).Meets C) (tokens : List Token) :
    (call inner tokens : Run Unit).Meets C := by
  unfold Statement.call
  split
  · exact fails L rfl
  · refine .seq (checkFunction L _) fun _ => ?_
    split
    · exact fails L rfl
    · exact fails L rfl
    · refine .seq (arguments L _) fun values => .seq (functionOf L _) fun f => ?_
      split
      · exact fails L rfl
      · exact .seq (noting L rfl) fun _ => .seq (hbody _ _) fun _ => hfinish _

/-! ### All statements -/

theorem unmarked {inner : List Token → Run Unit} (hinner : ∀ tokens, P tokens → (inner tokens).Meets C)
    (hcall : d = .extended → ∀ tokens, (Statement.call inner tokens).Meets C) {first : Token} {rest : List Token}
    (h : P (first :: rest)) : (unmarked d inner first rest).Meets C := by
  have hextended {test : Bool} (htest : (d == .extended && test) = true) : d = .extended :=
    eq_of_beq ((Bool.and_eq_true _ _).mp htest).1
  unfold Statement.unmarked
  split
  · rename_i hfunc
    exact declare L (hextended hfunc) _
  · split
    · exact block L hinner h
    · split
      · rename_i hbracket
        exact hcall (hextended hbracket) _
      · exact assign L h

theorem exec {rounds : Nat}
    (hcall : d = .extended → ∀ depth, (∀ tokens, P tokens → (Statement.exec d rounds depth tokens : Run Unit).Meets C) →
      ∀ tokens, (Statement.call (Statement.exec d rounds depth) tokens : Run Unit).Meets C)
    (depth : Nat) {tokens : List Token} (h : P tokens) : (exec d rounds depth tokens : Run Unit).Meets C := by
  -- What statements hold is one level further down, so the induction is on the depth.
  induction depth generalizing tokens with
  | zero => exact fails L rfl
  | succ depth ih =>
    have hinner : ∀ tokens, P tokens → (Statement.exec d rounds depth tokens : Run Unit).Meets C := fun _ => ih
    simp only [Statement.exec]
    cases tokens with
    | nil => exact .ret ()
    | cons first rest =>
      simp only [statement]
      split
      · exact ifThen L hinner h
      · split
        · exact otherwise L hinner h
        · split
          · exact whileDo L hinner h
          · split
            · exact doFor L hinner rounds h
            · split
              · exact print L _
              · exact unmarked L hinner (fun hd => hcall hd depth hinner) h

end Leaves

end Contract

end Bang
