import Bang.Proofs.Alike

/-! A machine that writes down every statement a run comes to, however deep, with the state before it and what came
of it. Programs do on it what they do without it, so that what every step of a run upholds is known of the states
before all its statements. -/

namespace Bang

open Machine Run Statement

structure Visit where
  tokens : List Token
  before : State
  result : Except Fault Unit
  after : State

structure Toured where
  state : State
  visits : List Visit := []

abbrev Tour := ExceptT Fault (StateM Toured)

instance : Machine Tour where
  fail fault := throw fault
  state := do return (← get).state
  change f := modify fun w => { w with state := f w.state }
  inCall arguments body := ExceptT.mk fun w =>
    let (result, v) := body.run { w with state := w.state.enter arguments }
    (result, { v with state := w.state.leave v.state })

namespace Tour

variable {α : Type}

def visiting (tokens : List Token) (x : Tour Unit) : Tour Unit := ExceptT.mk fun w =>
  let (result, v) := x.run w
  (result, { v with visits := ⟨tokens, w.state, result, v.state⟩ :: v.visits })

def exec (d : Dialect) (rounds : Nat) : (depth : Nat) → List Token → Tour Unit
  | 0, _ => fail .exhausted
  | depth + 1, tokens => visiting tokens (statement d rounds (exec d rounds depth) tokens)

theorem run_state (w : Toured) : (state : Tour State).run w = (.ok w.state, w) := rfl

theorem run_lookup? (name : String) (w : Toured) :
    (lookup? name : Tour (Option Binding)).run w = (.ok (w.state.scope.get? name), w) := rfl

theorem run_inCall (arguments : List (String × Value)) (body : Tour Unit) (w : Toured) :
    (inCall arguments body : Tour Unit).run w =
      ((body.run { w with state := w.state.enter arguments }).1,
        { (body.run { w with state := w.state.enter arguments }).2 with
          state := w.state.leave (body.run { w with state := w.state.enter arguments }).2.state }) := rfl

theorem run_visiting (tokens : List Token) (x : Tour Unit) (w : Toured) :
    (visiting tokens x).run w = ((x.run w).1, { (x.run w).2 with
      visits := ⟨tokens, w.state, (x.run w).1, (x.run w).2.state⟩ :: (x.run w).2.visits }) := rfl

def Erases (x : Tour α) (y : Run α) : Prop := ∀ w, ((x.run w).1, (x.run w).2.state) = y.run w.state

end Tour

def tourSimulation : Simulation Tour Run where
  Rel := Tour.Erases
  ret _ _ := rfl
  seq {_ _ x y f g} hx hf w := by
    have hw := hx w
    rcases h : x.run w with ⟨result, v⟩
    rw [h] at hw
    cases result with
    | error fault => rw [run_bind_error h, run_bind_error hw.symm]
    | ok a =>
      rw [run_bind_ok h, run_bind_ok hw.symm]
      exact hf a v
  stop _ _ _ := rfl

namespace tourSimulation

theorem store (d : Dialect) (line : Int) (name : String) (v : Value) :
    tourSimulation.Rel (store d line name v) (store d line name v) := by
  refine tourSimulation.seq (fun w => rfl) fun s => ?_
  cases refusal? d line name v s with
  | none => exact fun w => rfl
  | some fault => exact fun w => rfl

theorem leaves (d : Dialect) : tourSimulation.Leaves d d (fun _ => True) where
  lookup _ _ _ := rfl
  note _ _ _ := rfl
  beyond _ _ := rfl
  log _ _ := rfl
  store t _ v := store d t.line t.text v

theorem finishCall (name : String) : tourSimulation.Rel (finishCall name) (finishCall name) := by
  refine tourSimulation.seq (fun w => rfl) fun s => ?_
  split
  · exact fun w => rfl
  · exact fun w => rfl

theorem callLeaves : tourSimulation.CallLeaves (fun _ => True) := by
  refine .of_lookup (fun _ => rfl) (fun _ _ _ _ => rfl) finishCall ?_
  intro arguments x y hxy w
  have hbody := hxy { w with state := w.state.enter arguments }
  rw [Tour.run_inCall, Run.run_inCall, ← hbody]

theorem visiting {x : Tour Unit} {y : Run Unit} (h : tourSimulation.Rel x y) (tokens : List Token) :
    tourSimulation.Rel (Tour.visiting tokens x) y := h

theorem statement (d : Dialect) (rounds : Nat) {inner : List Token → Tour Unit} {inner' : List Token → Run Unit}
    (hinner : ∀ tokens, tourSimulation.Rel (inner tokens) (inner' tokens)) (tokens : List Token) :
    tourSimulation.Rel (statement d rounds inner tokens) (statement d rounds inner' tokens) :=
  Simulation.statement (fun tokens _ => hinner tokens) (leaves d).acts (.inl rfl)
    (fun _ _ h => Simulation.unmarked (leaves d).acts (callLeaves.acts (leaves d)) (fun tokens _ => hinner tokens) h)
    (All.trivial tokens)

theorem exec (d : Dialect) (rounds depth : Nat) (tokens : List Token) :
    tourSimulation.Rel (Tour.exec d rounds depth tokens) (exec d rounds depth tokens) := by
  induction depth generalizing tokens with
  | zero => exact fun _ => rfl
  | succ depth ih => exact visiting (statement d rounds ih tokens) tokens

end tourSimulation

namespace Program

def framed {m : Type → Type} [Machine m] (inner : List Token → m Unit) (tokens : List Token) : m Unit :=
  if tokens.head?.any fun first => tokens.getLast?.any (isFramed first) then topLevel inner false 0 [] tokens
  else if tokens.isEmpty then crash .noToken
  else report .programFrame

theorem statements_eq_framed {m : Type → Type} [Machine m] (d : Dialect) (limits : Limits) (tokens : List Token) :
    (statements d limits tokens : m Unit) = framed (exec d limits.rounds limits.depth) tokens := by
  unfold statements framed
  cases tokens with
  | nil => rfl
  | cons first rest => simp [List.getLast?_cons]

/-- A run in a session that writes down the statements it comes to. -/
def tour (d : Dialect) (limits : Limits) (tokens : List Token) (s : State) : Except Fault Unit × Toured :=
  (framed (Tour.exec d limits.rounds limits.depth) tokens).run { state := start d { s with logs := [] } }

end Program

theorem Simulation.framed {m n : Type → Type} [Machine m] [Machine n] {S : Simulation m n} {P : Token → Prop}
    {inner : List Token → m Unit} {inner' : List Token → n Unit}
    (hinner : ∀ tokens, All P tokens → S.Rel (inner tokens) (inner' tokens)) {tokens : List Token}
    (h : All P tokens) : S.Rel (Program.framed inner tokens) (Program.framed inner' tokens) := by
  unfold Program.framed
  split
  · exact topLevel hinner All.nil h
  · split
    · exact S.crash _ fun _ => rfl
    · exact S.report _

theorem Program.tour_eq_run (d : Dialect) (limits : Limits) (tokens : List Token) (s : State) :
    ((tour d limits tokens s).1, (tour d limits tokens s).2.state) =
      (statements d limits tokens : Run Unit).run (start d { s with logs := [] }) := by
  rw [statements_eq_framed]
  have herases : tourSimulation.Rel (framed (Tour.exec d limits.rounds limits.depth) tokens)
      (framed (exec d limits.rounds limits.depth) tokens) :=
    Simulation.framed (fun tokens _ => tourSimulation.exec d limits.rounds limits.depth tokens) (All.trivial tokens)
  exact herases { state := start d { s with logs := [] } }

/-! ### What a run upholds -/

def Scope.Defines (scope : Scope) (name : String) (f : Function) : Prop :=
  ∃ ns : Namespace, scope.get? functionsName = some (.functions ns) ∧ ns.get? name = some (.function f)

/-- A property of states that every step upholds, on tokens with a property. -/
structure Upheld (d : Dialect) (P : Token → Prop) (I : State → Prop) : Prop where
  note : ∀ {s : State} {event : Event}, event.isPassing → I s → I (s.note event)
  log : ∀ {s : State} {line : String}, I s → I (s.log line)
  store : ∀ {s : State} {t : Token} {v : Value}, P t → refusal? d t.line t.text v s = none → I s → I (s.put t.text v)
  declare : ∀ {s : State} {ns : Namespace} {name : String} {f : Function},
    s.scope.get? functionsName = some (.functions ns) → All P f.body → (∀ param ∈ f.params, ∃ t, P t ∧ t.text = param) →
      I s → I (s.declare name f (ns.insert name (.function f)))
  returned : ∀ {s : State} {name : String}, I s → I (s.note (.returned name))
  body : ∀ {s : State} {name : String} {f : Function}, s.scope.Defines name f → I s → All P f.body
  enter : ∀ {s : State} {name : String} {f : Function} {values : List Value},
    s.scope.Defines name f → I s → I (s.enter (f.params.zip values))
  leave : ∀ {s t : State}, I s → I t → I (s.leave t)

structure Visit.Proper (v : Visit) (d : Dialect) (rounds : Nat) (P : Token → Prop) (I : State → Prop) : Prop where
  genuine : ∃ depth, (v.result, v.after) = (exec d rounds depth v.tokens : Run Unit).run v.before
  tokens : All P v.tokens
  before : I v.before

section Upheld

variable {d : Dialect} {rounds : Nat} {P : Token → Prop} {I : State → Prop} {α : Type}

def Toured.Proper (w : Toured) (d : Dialect) (rounds : Nat) (P : Token → Prop) (I : State → Prop) : Prop :=
  I w.state ∧ ∀ v ∈ w.visits, v.Proper d rounds P I

theorem Toured.Proper.bind {β : Type} {x : Tour α} {f : α → Tour β} {w : Toured}
    (hx : (x.run w).2.Proper d rounds P I)
    (hf : ∀ a v, x.run w = (.ok a, v) → v.Proper d rounds P I → ((f a).run v).2.Proper d rounds P I) :
    ((x >>= f).run w).2.Proper d rounds P I := by
  rcases h : x.run w with ⟨result, v⟩
  rw [h] at hx
  cases result with
  | error fault =>
    rw [run_bind_error h]
    exact hx
  | ok a =>
    rw [run_bind_ok h]
    exact hf a v h hx

def upholding (d : Dialect) (rounds : Nat) (P : Token → Prop) (I : State → Prop) : Simulation Tour Tour where
  Rel x _ := ∀ w : Toured, w.Proper d rounds P I → (x.run w).2.Proper d rounds P I
  ret _ _ h := h
  seq hx hf w hw := (hx w hw).bind fun a v _ hv => hf a v hv
  stop _ _ _ h := h

namespace upholding

theorem of_same {x : Tour α} (h : ∀ w, (x.run w).2 = w) : (upholding d rounds P I).Rel x x := by
  intro w hw
  rw [h]
  exact hw

theorem functionOf_cases (name : String) (w : Toured) :
    (∃ fault, (functionOf name : Tour Function).run w = (.error fault, w)) ∨
      ∃ f, (functionOf name : Tour Function).run w = (.ok f, w) ∧ w.state.scope.Defines name f := by
  unfold functionOf
  rw [run_bind_ok (Tour.run_lookup? functionsName w)]
  split
  · exact .inl ⟨_, rfl⟩
  · rename_i ns hns
    split
    · exact .inl ⟨_, rfl⟩
    · rename_i f hf
      exact .inr ⟨f, rfl, ns, hns, hf⟩
    · exact .inl ⟨_, rfl⟩
  · exact .inl ⟨_, rfl⟩

theorem parameters_cases (tokens : List Token) (w : Toured) :
    (∃ fault, (parameters tokens : Tour (List String)).run w = (.error fault, w)) ∨
      ∃ params, (parameters tokens : Tour (List String)).run w = (.ok params, w) ∧
        ∀ param ∈ params, ∃ t ∈ tokens, t.text = param := by
  induction tokens with
  | nil => exact .inr ⟨[], rfl, by simp⟩
  | cons t ts ih =>
    simp only [parameters]
    split
    · rcases ih with ⟨fault, hrun⟩ | ⟨params, hrun, hparams⟩
      · exact .inl ⟨fault, run_bind_error hrun⟩
      · refine .inr ⟨t.text :: params, run_bind_ok hrun, fun param hparam => ?_⟩
        rcases List.mem_cons.mp hparam with rfl | hparam
        · exact ⟨t, List.mem_cons_self, rfl⟩
        · obtain ⟨u, hu, htext⟩ := hparams param hparam
          exact ⟨u, List.mem_cons_of_mem _ hu, htext⟩
    · split
      · rcases ih with hfault | ⟨params, hrun, hparams⟩
        · exact .inl hfault
        · refine .inr ⟨params, hrun, fun param hparam => ?_⟩
          obtain ⟨u, hu, htext⟩ := hparams param hparam
          exact ⟨u, List.mem_cons_of_mem _ hu, htext⟩
      · exact .inl ⟨_, rfl⟩

theorem change {f : State → State} (hf : ∀ s, I s → I (f s)) : (upholding d rounds P I).Rel (change f) (change f) :=
  fun w hw => ⟨hf w.state hw.1, hw.2⟩

variable (U : Upheld d P I)
include U

theorem leaves : (upholding d rounds P I).Leaves d d P where
  lookup _ _ := of_same fun _ => rfl
  note _ hevent := change fun _ hs => U.note hevent hs
  beyond _ := of_same fun _ => rfl
  log _ := change fun _ hs => U.log hs
  store t ht v := by
    intro w hw
    unfold Statement.store
    rw [run_bind_ok (Tour.run_state w)]
    cases hrefused : refusal? d t.line t.text v w.state with
    | some fault => exact hw
    | none => exact ⟨U.store ht hrefused hw.1, hw.2⟩

theorem declare {tokens : List Token} (h : All P tokens) :
    (upholding d rounds P I).Rel (declare tokens) (declare tokens) := by
  have hreport (fault : Diagnostic) : (upholding d rounds P I).Rel (report fault : Tour Unit) (report fault) :=
    Simulation.report _ fault
  unfold Statement.declare
  split
  · exact of_same fun _ => rfl
  · rename_i first name opening t ts
    split
    · exact hreport _
    · split
      · exact hreport _
      · split
        · exact hreport _
        · rename_i inside body hclosing
          obtain ⟨hinside, hbody⟩ := h.tail.tail.tail.upToClosing hclosing
          intro w hw
          rcases parameters_cases inside w with ⟨fault, hrun⟩ | ⟨params, hrun, hparams⟩
          · rw [run_bind_error hrun]
            exact hw
          · rw [run_bind_ok hrun]
            split
            · unfold define
              rw [run_bind_ok (Tour.run_lookup? functionsName w)]
              split
              · exact hw
              · exact hw
              · rename_i ns hns
                have hnames : ∀ param ∈ params, ∃ t, P t ∧ t.text = param := by
                  intro param hparam
                  obtain ⟨u, hu, htext⟩ := hparams param hparam
                  exact ⟨u, hinside u hu, htext⟩
                exact ⟨U.declare (f := ⟨params, body⟩) hns hbody hnames hw.1, hw.2⟩
            · exact hreport _ w hw
  · exact hreport _

theorem finishCall (name : String) : (upholding d rounds P I).Rel (finishCall name) (finishCall name) := by
  intro w hw
  unfold Statement.finishCall
  rw [run_bind_ok (Tour.run_state w)]
  split
  · exact ⟨U.returned hw.1, hw.2⟩
  · exact hw

theorem inCall {arguments : List (String × Value)} {body : Tour Unit} (hbody : (upholding d rounds P I).Rel body body)
    {w : Toured} (hw : w.Proper d rounds P I) (henter : I (w.state.enter arguments)) :
    ((inCall arguments body : Tour Unit).run w).2.Proper d rounds P I := by
  have hended := hbody { w with state := w.state.enter arguments } ⟨henter, hw.2⟩
  rw [Tour.run_inCall]
  exact ⟨U.leave hw.1 hended.1, hended.2⟩

theorem call {inner : List Token → Tour Unit}
    (hinner : ∀ tokens, All P tokens → (upholding d rounds P I).Rel (inner tokens) (inner tokens)) {tokens : List Token}
    (h : All P tokens) : (upholding d rounds P I).Rel (call inner tokens) (call inner tokens) := by
  intro w hw
  unfold Statement.call
  split
  · exact hw
  · rename_i callee _
    have hcheck : (upholding d rounds P I).Rel (checkFunction callee.text) (checkFunction callee.text) :=
      Simulation.checkFunction (of_same fun _ => rfl) callee.text
    refine (hcheck w hw).bind fun _ w _ hw => ?_
    split
    · exact hw
    · exact hw
    · refine (Simulation.arguments (leaves U).acts ((h.take _).drop _) w hw).bind fun values v _ hv => ?_
      rcases functionOf_cases callee.text v with ⟨fault, hrun⟩ | ⟨f, hrun, hdefines⟩
      · rw [run_bind_error hrun]
        exact hv
      · rw [run_bind_ok hrun]
        split
        · exact hv
        · have hblock : (upholding d rounds P I).Rel (block inner f.body) (block inner f.body) :=
            Simulation.block hinner (U.body hdefines hv.1)
          have hnoted : I (v.state.note (.entered callee.text)) := U.note rfl hv.1
          refine Toured.Proper.bind (x := note _) ⟨hnoted, hv.2⟩ fun _ u hu hproper => ?_
          obtain rfl : { v with state := v.state.note (.entered callee.text) } = u := (Prod.mk.inj hu).2
          refine (inCall U hblock hproper (U.enter hdefines hnoted)).bind fun _ _ _ hended => ?_
          exact finishCall U callee.text _ hended

omit U in
theorem visiting {x : Tour Unit} {depth : Nat} {tokens : List Token} (h : All P tokens)
    (herases : tourSimulation.Rel x (exec d rounds depth tokens)) (hx : (upholding d rounds P I).Rel x x) :
    (upholding d rounds P I).Rel (Tour.visiting tokens x) (Tour.visiting tokens x) := by
  intro w hw
  obtain ⟨hstate, hvisits⟩ := hx w hw
  rw [Tour.run_visiting]
  refine ⟨hstate, fun v hv => ?_⟩
  rcases List.mem_cons.mp hv with rfl | hv
  · exact ⟨⟨depth, herases w⟩, h, hw.1⟩
  · exact hvisits v hv

theorem exec (depth : Nat) {tokens : List Token} (h : All P tokens) :
    (upholding d rounds P I).Rel (Tour.exec d rounds depth tokens) (Tour.exec d rounds depth tokens) := by
  induction depth generalizing tokens with
  | zero => exact fun _ hw => hw
  | succ depth ih =>
    have herases : tourSimulation.Rel (statement d rounds (Tour.exec d rounds depth) tokens)
        (Statement.exec d rounds (depth + 1) tokens) :=
      tourSimulation.statement d rounds (tourSimulation.exec d rounds depth) tokens
    refine visiting h herases ?_
    refine Simulation.statement (fun tokens htokens => ih htokens) (leaves U).acts (.inl rfl) (fun first rest h => ?_) h
    unfold unmarked
    split
    · exact declare U h
    · split
      · exact Simulation.block (fun tokens htokens => ih htokens) h
      · split
        · exact call U (fun tokens htokens => ih htokens) h
        · exact Simulation.assign (leaves U).acts h

end upholding

theorem Upheld.visits (U : Upheld d P I) (limits : Limits) {tokens : List Token} (h : All P tokens) {s : State}
    (hs : I (Program.start d { s with logs := [] })) :
    ∀ v ∈ (Program.tour d limits tokens s).2.visits, v.Proper d limits.rounds P I := by
  have hframed : (upholding d limits.rounds P I).Rel (Program.framed (Tour.exec d limits.rounds limits.depth) tokens)
      (Program.framed (Tour.exec d limits.rounds limits.depth) tokens) :=
    Simulation.framed (fun tokens htokens => upholding.exec U limits.depth htokens) h
  exact (hframed { state := Program.start d { s with logs := [] } } ⟨hs, fun v hv => by cases hv⟩).2

end Upheld

end Bang
