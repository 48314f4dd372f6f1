import Bang.Program
import Bang.Proofs.Slices

/-! Relations between what two machines do. If a relation is kept by sequencing and holds of the few
steps in which statements touch the state, it holds of every statement and of every program. Invariants,
comparisons of two runs and comparisons of the two dialects are all relations of this kind. -/

namespace Bang

open Machine Statement

variable {m n : Type → Type} [Machine m] [Machine n]

def Journal.settles (j : Journal) : Fault → Bool
  | .crash (.untypedName name) => (j.typeOf? name).isSome
  | .crash (.undeclaredFunction name) => j.isDeclared name
  | _ => false

structure Simulation (m n : Type → Type) [Machine m] [Machine n] where
  Rel : {α : Type} → m α → n α → Prop
  ret : ∀ {α : Type} (a : α), Rel (pure a) (pure a)
  seq : ∀ {α β : Type} {x : m α} {y : n α} {f : α → m β} {g : α → n β},
    Rel x y → (∀ a, Rel (f a) (g a)) → Rel (x >>= f) (y >>= g)
  stop : ∀ {α : Type} (fault : Fault), (∀ j : Journal, j.settles fault = false) →
    Rel (fail fault : m α) (fail fault)

def Event.isPassing : Event → Bool
  | .evaluating _ | .read _ | .entered _ => true
  | _ => false

namespace Simulation

variable (S : Simulation m n) {d e : Dialect} {P : Token → Prop}

/-- The relation holds of the steps that both dialects take on tokens with a property. -/
structure Leaves (d e : Dialect) (P : Token → Prop) : Prop where
  lookup : ∀ t, P t → S.Rel (lookup? t.text) (lookup? t.text)
  note : ∀ event : Event, event.isPassing → S.Rel (note event) (note event)
  beyond : ∀ text, S.Rel (beyond text) (beyond text)
  log : ∀ line, S.Rel (log line) (log line)
  store : ∀ t, P t → ∀ v, S.Rel (store d t.line t.text v) (store e t.line t.text v)

structure Acts (d e : Dialect) (P : Token → Prop) : Prop where
  lookup : ∀ t, P t → S.Rel (lookup? t.text) (lookup? t.text)
  evaluate : ∀ {tokens}, All P tokens → S.Rel (evaluate tokens) (evaluate tokens)
  log : ∀ line, S.Rel (log line) (log line)
  store : ∀ t, P t → ∀ v, S.Rel (store d t.line t.text v) (store e t.line t.text v)

structure CallLeaves (P : Token → Prop) : Prop where
  define : ∀ name f, All P f.body → S.Rel (define name f) (define name f)
  check : ∀ name, S.Rel (checkFunction name) (checkFunction name)
  function : ∀ {α : Type} (name : String) {f : Function → m α} {g : Function → n α},
    (∀ callee, All P callee.body → S.Rel (f callee) (g callee)) →
      S.Rel (functionOf name >>= f) (functionOf name >>= g)
  finishCall : ∀ name, S.Rel (finishCall name) (finishCall name)
  inCall : ∀ arguments {x : m Unit} {y : n Unit}, S.Rel x y → S.Rel (inCall arguments x) (inCall arguments y)

structure CallActs (P : Token → Prop) : Prop where
  define : ∀ name f, All P f.body → S.Rel (define name f) (define name f)
  check : ∀ name, S.Rel (checkFunction name) (checkFunction name)
  function : ∀ {α : Type} (name : String) {f : Function → m α} {g : Function → n α},
    (∀ callee, All P callee.body → S.Rel (f callee) (g callee)) →
      S.Rel (functionOf name >>= f) (functionOf name >>= g)
  called : ∀ name arguments {x : m Unit} {y : n Unit}, S.Rel x y →
    S.Rel (do note (.entered name); inCall arguments x; finishCall name)
      (do note (.entered name); inCall arguments y; finishCall name)

/-- One limit stands in for another: it is the same, or it is no larger and running out of it is
related to everything. -/
def Allows (k l : Nat) : Prop :=
  k = l ∨ k ≤ l ∧ ∀ {α : Type} (y : n α), S.Rel (fail .exhausted) y

theorem Allows.succ {S : Simulation m n} {k l : Nat} (h : S.Allows (k + 1) l) :
    ∃ l', l = l' + 1 ∧ S.Allows k l' := by
  rcases h with rfl | ⟨hle, hex⟩
  · exact ⟨k, rfl, .inl rfl⟩
  · exact ⟨l - 1, by omega, .inr ⟨by omega, hex⟩⟩

theorem report {α : Type} (d : Diagnostic) : S.Rel (report d : m α) (report d) := S.stop _ fun _ => rfl

theorem crash {α : Type} (c : Crash) (h : ∀ j : Journal, j.settles (.crash c) = false) :
    S.Rel (crash c : m α) (crash c) := S.stop _ h

theorem firstLine (tokens : List Token) : S.Rel (firstLine tokens) (firstLine tokens) := by
  cases tokens with
  | nil => exact S.crash _ fun _ => rfl
  | cons t ts => exact S.ret t.line

/-! ### Expressions and statements that hold no others -/

section Leaves

variable {S}
variable (L : S.Leaves d e P)
include L

theorem tokenText {t : Token} (ht : P t) : S.Rel (tokenText t) (tokenText t) := by
  unfold Statement.tokenText
  split
  · refine S.seq (L.lookup t ht) fun binding => ?_
    cases binding with
    | none => exact S.report _
    | some binding =>
      refine S.seq (L.note _ rfl) fun _ => ?_
      cases operandText? binding.toValue with
      | none => exact S.crash _ fun _ => rfl
      | some text => exact S.ret text
  · exact S.ret _
  · exact S.ret _
  · exact S.ret _
  · exact S.report _

theorem formulaText {tokens : List Token} (h : All P tokens) :
    S.Rel (formulaText tokens) (formulaText tokens) := by
  induction tokens with
  | nil => exact S.ret []
  | cons t ts ih =>
    refine S.seq (tokenText L h.head) fun text => ?_
    exact S.seq (ih h.tail) fun rest => S.ret (text ++ rest)

theorem evaluate {tokens : List Token} (h : All P tokens) : S.Rel (evaluate tokens) (evaluate tokens) := by
  refine S.seq (L.note _ rfl) fun _ => ?_
  refine S.seq (formulaText L h) fun text => ?_
  split
  · exact S.ret _
  · exact L.beyond text
  · exact S.report _

theorem Leaves.acts : S.Acts d e P where
  lookup := L.lookup
  evaluate := evaluate L
  log := L.log
  store := L.store

theorem CallLeaves.acts (C : S.CallLeaves P) : S.CallActs P where
  define := C.define
  check := C.check
  function := C.function
  called name arguments _ _ h :=
    S.seq (L.note _ rfl) fun _ => S.seq (C.inCall arguments h) fun _ => C.finishCall name

end Leaves

section Acts

variable {S}
variable (A : S.Acts d e P)
include A

theorem print {tokens : List Token} (h : All P tokens) : S.Rel (print tokens) (print tokens) := by
  refine S.seq (S.firstLine tokens) fun line => ?_
  split
  · exact S.report _
  · rename_i inner rest hb
    refine S.seq (A.evaluate (h.bracketed hb).1) fun v => ?_
    cases v.display with
    | none => exact S.crash _ fun _ => rfl
    | some text => exact A.log _

theorem checkOperands {tokens : List Token} (h : All P tokens) :
    S.Rel (checkOperands tokens) (checkOperands tokens) := by
  induction tokens with
  | nil => exact S.ret ()
  | cons t ts ih =>
    refine S.seq (A.lookup t h.head) fun binding => ?_
    split
    · exact S.report _
    · exact ih h.tail

theorem assigned {tokens : List Token} (h : All P tokens) : S.Rel (assigned tokens) (assigned tokens) := by
  unfold Statement.assigned
  split
  · unfold numberValue
    split
    · split
      · exact S.ret _
      · exact S.crash _ fun _ => rfl
    · split
      · exact S.ret _
      · exact S.crash _ fun _ => rfl
      · exact S.crash _ fun _ => rfl
  · exact S.ret _
  · exact S.seq (checkOperands A h) fun _ => A.evaluate h

theorem assign {tokens : List Token} (h : All P tokens) : S.Rel (assign d tokens) (assign e tokens) := by
  unfold Statement.assign
  split
  · exact S.seq (assigned A h.tail.tail) fun v => A.store _ h.head v
  · exact S.report _

end Acts

/-! ### Statements that hold others -/

section Compound

variable {S}
variable {inner : List Token → m Unit} {inner' : List Token → n Unit}
variable (hinner : ∀ tokens, All P tokens → S.Rel (inner tokens) (inner' tokens))
include hinner

theorem sequence {braces : Int} {pending tokens : List Token} (hp : All P pending) (h : All P tokens) :
    S.Rel (sequence inner braces pending tokens) (sequence inner' braces pending tokens) := by
  induction tokens generalizing braces pending with
  | nil =>
    cases pending with
    | nil => exact S.ret ()
    | cons last _ => exact S.report _
  | cons t ts ih =>
    simp only [Statement.sequence]
    split
    · exact S.seq (hinner _ hp.reverse) fun _ => ih All.nil h.tail
    · exact ih (hp.cons h.head) h.tail

theorem block {tokens : List Token} (h : All P tokens) : S.Rel (block inner tokens) (block inner' tokens) := by
  unfold Statement.block
  split
  · split
    · exact sequence hinner All.nil (h.drop 1).dropLast
    · exact S.report _
  · exact S.crash _ fun _ => rfl

theorem otherwise {tokens : List Token} (h : All P tokens) :
    S.Rel (otherwise inner tokens) (otherwise inner' tokens) := by
  refine S.seq (S.firstLine tokens) fun line => ?_
  split
  · exact S.report _
  · exact hinner _ (h.drop 1)

theorem topLevel {started : Bool} {braces : Nat} {pending tokens : List Token} (hp : All P pending)
    (h : All P tokens) :
    S.Rel (topLevel inner started braces pending tokens) (topLevel inner' started braces pending tokens) := by
  induction tokens generalizing started braces pending with
  | nil =>
    simp only [Statement.topLevel]
    split
    · exact S.report _
    · exact S.ret ()
  | cons t ts ih =>
    have grown {started : Bool} {braces : Nat} : S.Rel
        (Statement.topLevel inner started braces (t :: pending) ts)
        (Statement.topLevel inner' started braces (t :: pending) ts) := ih (hp.cons h.head) h.tail
    simp only [Statement.topLevel]
    split
    · exact ih hp h.tail
    · split
      · exact S.ret ()
      · exact S.report _
    · split
      · exact ih hp h.tail
      · split
        · split
          · exact S.seq (hinner _ hp.reverse) fun _ => ih All.nil h.tail
          · exact grown
        · split
          · exact grown
          · split
            · split
              · exact S.report _
              · exact S.seq (hinner _ (hp.cons h.head).reverse) fun _ => ih All.nil h.tail
              · exact grown
            · exact grown

variable (A : S.Acts d e P)
include A

theorem ifThen {tokens : List Token} (h : All P tokens) : S.Rel (ifThen inner tokens) (ifThen inner' tokens) := by
  refine S.seq (S.firstLine tokens) fun line => ?_
  split
  · exact S.report _
  · rename_i condition body hb
    refine S.seq (A.evaluate (h.bracketed hb).1) fun v => ?_
    split
    · split
      · exact block hinner (h.bracketed hb).2
      · exact S.report _
    · exact S.ret ()
    · exact S.report _

theorem whileDo {tokens : List Token} (h : All P tokens) :
    S.Rel (whileDo inner tokens) (whileDo inner' tokens) := by
  refine S.seq (S.firstLine tokens) fun line => ?_
  split
  · exact S.report _
  · rename_i condition body hb
    refine S.seq (A.evaluate (h.bracketed hb).1) fun v => ?_
    split
    · split
      · exact block hinner (h.bracketed hb).2
      · exact S.report _
    · exact S.report _

omit hinner A in
theorem loop {body update : m Unit} {body' update' : n Unit} {condition : m Value} {condition' : n Value}
    (hbody : S.Rel body body') (hupdate : S.Rel update update') (hcondition : S.Rel condition condition')
    {rounds rounds' : Nat} (hr : S.Allows rounds rounds') (v : Value) :
    S.Rel (loop body update condition rounds v) (loop body' update' condition' rounds' v) := by
  induction rounds generalizing rounds' v with
  | zero =>
    cases hv : v.isTrue with
    | false =>
      rw [loop_of_not_isTrue hv, loop_of_not_isTrue hv]
      exact S.ret ()
    | true =>
      -- The other machine may have rounds left.
      rcases hr with rfl | ⟨_, hex⟩
      · rw [loop_zero hv, loop_zero hv]
        exact S.stop _ fun _ => rfl
      · rw [loop_zero hv]
        exact hex _
  | succ rounds ih =>
    obtain ⟨rest, rfl, hrest⟩ := hr.succ
    cases hv : v.isTrue with
    | false =>
      rw [loop_of_not_isTrue hv, loop_of_not_isTrue hv]
      exact S.ret ()
    | true =>
      rw [loop_succ hv, loop_succ hv]
      exact S.seq hbody fun _ => S.seq hupdate fun _ => S.seq hcondition fun w => ih hrest w

theorem doFor {rounds rounds' : Nat} (hr : S.Allows rounds rounds') {tokens : List Token} (h : All P tokens) :
    S.Rel (doFor d rounds inner tokens) (doFor e rounds' inner' tokens) := by
  refine S.seq (S.firstLine tokens) fun line => ?_
  split
  · exact S.report _
  · split
    · exact S.report _
    · rename_i header body hb
      have ⟨hheader, hbody⟩ := h.loopBracketed hb
      split
      · rename_i start condition update hparts
        have hpart : ∀ part ∈ [start, condition, update], All P part := hparts ▸ hheader.splitOn ";"
        have hcondition := A.evaluate (hpart condition (by simp))
        refine S.seq (assign A (hpart start (by simp))) fun _ => S.seq hcondition fun v => ?_
        split
        · split
          · exact loop (block hinner hbody) (assign A (hpart update (by simp))) hcondition hr _
          · exact S.report _
        · exact S.report _
      · exact S.report _

theorem marked {rounds rounds' : Nat} (hr : S.Allows rounds rounds') {first : Token} {rest : List Token}
    (hword : first.text ∈ ["if", "else", "while", "doFor", "print"]) (h : All P (first :: rest)) :
    S.Rel (statement d rounds inner (first :: rest)) (statement e rounds' inner' (first :: rest)) := by
  simp only [Statement.statement]
  split
  · exact ifThen hinner A h
  · split
    · exact otherwise hinner h
    · split
      · exact whileDo hinner A h
      · split
        · exact doFor hinner A hr h
        · split
          · exact print A h
          · simp_all

theorem statement {rounds rounds' : Nat} (hr : S.Allows rounds rounds')
    (hunmarked : ∀ first rest, All P (first :: rest) →
      S.Rel (unmarked d inner first rest) (unmarked e inner' first rest))
    {tokens : List Token} (h : All P tokens) :
    S.Rel (statement d rounds inner tokens) (statement e rounds' inner' tokens) := by
  cases tokens with
  | nil => exact S.ret ()
  | cons first rest =>
    by_cases hword : first.text ∈ ["if", "else", "while", "doFor", "print"]
    · exact marked hinner A hr hword h
    · rw [statement_of_unmarked hword, statement_of_unmarked hword]
      exact hunmarked first rest h

end Compound

/-! ### Declarations and calls -/

section Calls

variable {S}

theorem parameters (tokens : List Token) : S.Rel (parameters tokens) (parameters tokens) := by
  induction tokens with
  | nil => exact S.ret []
  | cons t ts ih =>
    simp only [Statement.parameters]
    split
    · exact S.seq ih fun rest => S.ret _
    · split
      · exact ih
      · exact S.report _

theorem define (hlookup : S.Rel (lookup? functionsName) (lookup? functionsName)) {name : String} {f : Function}
    (hdeclare : ∀ ns, S.Rel (change (State.declare name f ns)) (change (State.declare name f ns))) :
    S.Rel (define name f) (define name f) := by
  refine S.seq hlookup fun binding => ?_
  split
  · exact S.crash _ fun _ => rfl
  · exact S.crash _ fun _ => rfl
  · exact hdeclare _

theorem checkFunction (hlookup : S.Rel (lookup? functionsName) (lookup? functionsName)) (name : String) :
    S.Rel (checkFunction name) (checkFunction name) := by
  refine S.seq hlookup fun binding => ?_
  split
  · exact S.crash _ fun _ => rfl
  · split
    · exact S.ret ()
    · exact S.ret ()
    · exact S.report _
  · split
    · split
      · exact S.crash _ fun _ => rfl
      · exact S.report _
    · split
      · exact S.crash _ fun _ => rfl
      · exact S.report _
    · split
      · exact S.crash _ fun _ => rfl
      · exact S.report _
    · exact S.crash _ fun _ => rfl

theorem functionOf (hlookup : S.Rel (lookup? functionsName) (lookup? functionsName)) (name : String) :
    S.Rel (functionOf name) (functionOf name) := by
  refine S.seq hlookup fun binding => ?_
  split
  · exact S.crash _ fun _ => rfl
  · split
    · exact S.crash _ fun _ => rfl
    · exact S.ret _
    · exact S.stop _ fun _ => rfl
  · exact S.stop _ fun _ => rfl

theorem declare (hdefine : ∀ name f, All P f.body → S.Rel (Statement.define name f) (Statement.define name f))
    {tokens : List Token} (h : All P tokens) : S.Rel (declare tokens) (declare tokens) := by
  unfold Statement.declare
  split
  · exact S.crash _ fun _ => rfl
  · split
    · exact S.report _
    · split
      · exact S.report _
      · split
        · exact S.report _
        · rename_i inside body hclosing
          refine S.seq (parameters inside) fun params => ?_
          split
          · exact hdefine _ _ (h.tail.tail.tail.upToClosing hclosing).2
          · exact S.report _
  · exact S.report _

variable (A : S.Acts d e P)
include A

theorem evaluateAll {parts : List (List Token)} (h : ∀ part ∈ parts, All P part) :
    S.Rel (evaluateAll parts) (evaluateAll parts) := by
  induction parts with
  | nil => exact S.ret []
  | cons tokens rest ih =>
    refine S.seq (A.evaluate (h tokens List.mem_cons_self)) fun v => ?_
    exact S.seq (ih fun part hp => h part (List.mem_cons_of_mem tokens hp)) fun vs => S.ret (v :: vs)

theorem arguments {tokens : List Token} (h : All P tokens) : S.Rel (arguments tokens) (arguments tokens) := by
  refine evaluateAll A fun part hp => h.splitOn "," part ?_
  split at hp
  · exact List.dropLast_subset _ hp
  · exact hp

theorem call (K : S.CallActs P) {inner : List Token → m Unit} {inner' : List Token → n Unit}
    (hinner : ∀ tokens, All P tokens → S.Rel (inner tokens) (inner' tokens)) {tokens : List Token}
    (h : All P tokens) : S.Rel (call inner tokens) (call inner' tokens) := by
  unfold Statement.call
  split
  · exact S.crash _ fun _ => rfl
  · refine S.seq (K.check _) fun _ => ?_
    split
    · exact S.crash _ fun _ => rfl
    · exact S.crash _ fun _ => rfl
    · refine S.seq (arguments A ((h.take _).drop _)) fun values => ?_
      refine K.function _ fun callee hbody => ?_
      split
      · exact S.report _
      · exact K.called _ _ (block hinner hbody)

end Calls

section Program

variable {S}
variable (A : S.Acts d d P) (K : S.CallActs P)
include A K

theorem unmarked {inner : List Token → m Unit} {inner' : List Token → n Unit}
    (hinner : ∀ tokens, All P tokens → S.Rel (inner tokens) (inner' tokens)) {first : Token}
    {rest : List Token} (h : All P (first :: rest)) :
    S.Rel (unmarked d inner first rest) (unmarked d inner' first rest) := by
  unfold Statement.unmarked
  split
  · exact declare K.define h
  · split
    · exact block hinner h
    · split
      · exact call A K hinner h
      · exact assign A h

theorem Acts.exec {rounds rounds' depth depth' : Nat} (hr : S.Allows rounds rounds') (hd : S.Allows depth depth')
    {tokens : List Token} (h : All P tokens) :
    S.Rel (exec d rounds depth tokens) (exec d rounds' depth' tokens) := by
  -- What statements hold is one level further down, so the induction is on the depth.
  induction depth generalizing depth' tokens with
  | zero =>
    rcases hd with rfl | ⟨_, hex⟩
    · exact S.stop _ fun _ => rfl
    · exact hex _
  | succ depth ih =>
    obtain ⟨rest, rfl, hrest⟩ := hd.succ
    have hinner : ∀ tokens, All P tokens →
        S.Rel (Statement.exec d rounds depth tokens) (Statement.exec d rounds' rest tokens) :=
      fun tokens h => ih hrest h
    exact statement hinner A hr (fun first rest h => unmarked A K hinner h) h

omit A K in
theorem exec (L : S.Leaves d d P) (C : S.CallLeaves P) {rounds rounds' depth depth' : Nat}
    (hr : S.Allows rounds rounds') (hd : S.Allows depth depth') {tokens : List Token} (h : All P tokens) :
    S.Rel (Statement.exec d rounds depth tokens) (Statement.exec d rounds' depth' tokens) :=
  L.acts.exec (C.acts L) hr hd h

end Program

theorem statements {limits limits' : Limits}
    (hexec : ∀ tokens, All P tokens → S.Rel (Statement.exec d limits.rounds limits.depth tokens)
      (Statement.exec e limits'.rounds limits'.depth tokens)) {tokens : List Token} (h : All P tokens) :
    S.Rel (Program.statements d limits tokens) (Program.statements e limits' tokens) := by
  unfold Program.statements
  split
  · split
    · exact topLevel hexec All.nil h
    · exact S.report _
  · exact S.crash _ fun _ => rfl

/-! ### Relations that hold whatever the tokens are -/

section

variable {S}

theorem CallLeaves.of_lookup (hlookup : S.Rel (lookup? functionsName) (lookup? functionsName))
    (hdeclare : ∀ name f ns, S.Rel (change (State.declare name f ns)) (change (State.declare name f ns)))
    (hfinish : ∀ name, S.Rel (Statement.finishCall name) (Statement.finishCall name))
    (hcall : ∀ arguments {x : m Unit} {y : n Unit}, S.Rel x y →
      S.Rel (Machine.inCall arguments x) (Machine.inCall arguments y)) :
    S.CallLeaves (fun _ => True) where
  define name f _ := Simulation.define hlookup (hdeclare name f)
  check := Simulation.checkFunction hlookup
  function name _ _ hfg := S.seq (Simulation.functionOf hlookup name) fun callee => hfg callee (.trivial callee.body)
  finishCall := hfinish
  inCall := hcall

theorem program {limits limits' : Limits} (L : S.Leaves d d (fun _ => True)) (C : S.CallLeaves (fun _ => True))
    (hr : S.Allows limits.rounds limits'.rounds) (hd : S.Allows limits.depth limits'.depth) (tokens : List Token) :
    S.Rel (Program.statements d limits tokens) (Program.statements d limits' tokens) :=
  S.statements (fun _ h => exec L C hr hd h) (All.trivial tokens)

end

end Simulation

end Bang
