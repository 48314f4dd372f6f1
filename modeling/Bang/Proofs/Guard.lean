import Bang.Proofs.Simulation
import Bang.Proofs.Steps
import Bang.Proofs.Text.Numeral

/-! Which faults a program may stop with. A guard is a property of states that every statement keeps, together
with the faults that are allowed to stop one. Whether a guard holds of all programs is decided by the few steps
in which statements touch the state. -/

namespace Bang

open Machine Run Statement

/-- Faults that any statement may stop with: reports to the user, exhaustion, and integers with more
digits than are read or written. -/
inductive Fault.Plain : Fault → Prop
  | diagnostic (d : Diagnostic) : Plain (.diagnostic d)
  | exhausted : Plain .exhausted
  | beyond : Plain .beyond
  | longInteger {digits : Nat} : Text.digitLimit < digits → Plain (.crash (.longInteger digits))
  | longText : Plain (.crash .longText)

structure Guard where
  Inv : State → Prop
  Allows : Fault → Journal → Prop

/-- From a state, a computation ends well with the invariant, or stops with an allowed fault. What
it has written into the journal is there for whatever comes next. -/
structure Run.Guarded {α : Type} (G : Guard) (x : Run α) (s : State) : Prop where
  ok : ∀ a, (x.run s).1 = .ok a → G.Inv (x.run s).2 ∧ s.journal <:+ (x.run s).2.journal
  error : ∀ fault, (x.run s).1 = .error fault → G.Allows fault (x.run s).2.journal

namespace Run.Guarded

variable {G : Guard} {α β : Type} {x : Run α} {f : α → Run β} {s t : State}

theorem of_ok {a : α} (h : x.run s = (.ok a, t)) (hinv : G.Inv t) (hgrows : s.journal <:+ t.journal) :
    x.Guarded G s where
  ok _ _ := by
    rw [h]
    exact ⟨hinv, hgrows⟩
  error fault hfault := by
    rw [h] at hfault
    cases hfault

theorem of_error {fault : Fault} (h : x.run s = (.error fault, t)) (hallows : G.Allows fault t.journal) :
    x.Guarded G s where
  ok a ha := by
    rw [h] at ha
    cases ha
  error fault' hfault := by
    rw [h] at hfault ⊢
    obtain rfl : fault = fault' := Except.error.inj hfault
    exact hallows

theorem ret (a : α) (hs : G.Inv s) : (pure a : Run α).Guarded G s := of_ok rfl hs List.suffix_rfl

theorem stop {fault : Fault} (h : G.Allows fault s.journal) : (fail fault : Run α).Guarded G s := of_error rfl h

theorem seq_of_run {a : α} (hx : x.run s = (.ok a, t)) (hgrows : s.journal <:+ t.journal) (hf : (f a).Guarded G t) :
    (x >>= f).Guarded G s := by
  have hbind : (x >>= f).run s = (f a).run t := run_bind_ok hx
  refine ⟨fun b hb => ?_, fun fault hfault => ?_⟩
  · rw [hbind] at hb ⊢
    obtain ⟨hinv, hgrows'⟩ := hf.ok b hb
    exact ⟨hinv, hgrows.trans hgrows'⟩
  · rw [hbind] at hfault ⊢
    exact hf.error fault hfault

theorem seq_with (hx : x.Guarded G s)
    (hf : ∀ a t, x.run s = (.ok a, t) → G.Inv t → s.journal <:+ t.journal → (f a).Guarded G t) :
    (x >>= f).Guarded G s := by
  rcases hrun : x.run s with ⟨result, t⟩
  cases result with
  | error fault =>
    have hallows := hx.error fault (congrArg Prod.fst hrun)
    rw [hrun] at hallows
    exact of_error (run_bind_error hrun) hallows
  | ok a =>
    have hmiddle := hx.ok a (congrArg Prod.fst hrun)
    rw [hrun] at hmiddle
    exact seq_of_run hrun hmiddle.2 (hf a t hrun hmiddle.1 hmiddle.2)

theorem seq (hx : x.Guarded G s) (hf : ∀ a t, G.Inv t → s.journal <:+ t.journal → (f a).Guarded G t) :
    (x >>= f).Guarded G s := hx.seq_with fun a t _ => hf a t

end Run.Guarded

def IsStatement (whole tokens : List Token) : Prop :=
  ∃ before behind, whole = before ++ tokens ++ behind ∧
    (behind.head?.any endsStatement = true ∨ tokens.getLast?.any closesBlock = true)

theorem IsStatement.isInfix {whole tokens : List Token} (h : IsStatement whole tokens) : tokens <:+: whole := by
  obtain ⟨before, behind, rfl, _⟩ := h
  exact ⟨before, behind, rfl⟩

theorem IsStatement.behind {whole tokens : List Token} {first next : Token}
    (h : IsStatement whole (first :: next :: tokens)) : IsStatement whole (next :: tokens) := by
  obtain ⟨before, behind, rfl, hend⟩ := h
  refine ⟨before ++ [first], behind, by simp, ?_⟩
  rwa [List.getLast?_cons_cons] at hend

theorem isStatement_of_end {whole tokens rest : List Token} {t : Token} (ht : endsStatement t = true)
    (h : tokens ++ t :: rest <:+: whole) : IsStatement whole tokens := by
  obtain ⟨before, behind, rfl⟩ := h
  exact ⟨before, t :: rest ++ behind, by simp, .inl ht⟩

theorem isStatement_of_close {whole pending rest : List Token} {t : Token} (ht : closesBlock t = true)
    (h : (t :: pending).reverse ++ rest <:+: whole) : IsStatement whole (t :: pending).reverse := by
  obtain ⟨before, behind, rfl⟩ := h
  refine ⟨before, rest ++ behind, by simp, .inr ?_⟩
  rw [List.getLast?_reverse]
  exact ht

def unstarted (tokens : List Token) : List Token := tokens.filter (·.kind != .start)

theorem unstarted_of_start {t : Token} (h : t.kind = .start) (ts : List Token) :
    unstarted (t :: ts) = unstarted ts := by
  simp [unstarted, h]

theorem unstarted_of_ne {t : Token} (h : t.kind ≠ .start) (ts : List Token) :
    unstarted (t :: ts) = t :: unstarted ts := by
  simp [unstarted, h]

def WellNumbered (tokens : List Token) : Prop := ∀ t ∈ tokens, t.kind = .number → Text.IsNumeral t.text.toList

namespace Guard

variable {G : Guard} {d : Dialect} {whole : List Token}

structure Leaves (G : Guard) (d : Dialect) (whole : List Token) : Prop where
  numerals : WellNumbered whole
  plain : ∀ {fault : Fault}, fault.Plain → ∀ j, G.Allows fault j
  note : ∀ {event : Event}, event.isPassing → ∀ {s : State}, G.Inv s → G.Inv (s.note event)
  log : ∀ line {s : State}, G.Inv s → G.Inv (s.log line)
  store : ∀ {name : String} {line line' : Int}, [⟨.identifier, name, line⟩, ⟨.operator, "=", line'⟩] <:+: whole →
    ∀ v {s : State}, G.Inv s → (store d line name v : Run Unit).Guarded G s

section Leaves

variable (L : G.Leaves d whole) {s : State}
include L

theorem report {α : Type} (d : Diagnostic) : (report d : Run α).Guarded G s := .stop (L.plain (.diagnostic d) _)

theorem noting {event : Event} (h : event.isPassing) (hs : G.Inv s) : (note event : Run Unit).Guarded G s :=
  .of_ok rfl (L.note h hs) (List.suffix_cons _ _)

theorem longText {α : Type} : (crash .longText : Run α).Guarded G s := .stop (L.plain .longText _)

omit L in
theorem lookup (name : String) (hs : G.Inv s) : (lookup? name : Run (Option Binding)).Guarded G s :=
  .of_ok rfl hs List.suffix_rfl

theorem tokenText (t : Token) (hs : G.Inv s) : (tokenText t : Run (List Char)).Guarded G s := by
  unfold Statement.tokenText
  split
  · refine .seq (lookup t.text hs) fun binding s hs _ => ?_
    split
    · exact report L _
    · refine .seq (noting L rfl hs) fun _ s hs _ => ?_
      split
      · exact .ret _ hs
      · exact longText L
  · exact .ret _ hs
  · exact .ret _ hs
  · exact .ret _ hs
  · exact report L _

theorem formulaText (tokens : List Token) (hs : G.Inv s) : (formulaText tokens : Run (List Char)).Guarded G s := by
  induction tokens generalizing s with
  | nil => exact .ret [] hs
  | cons t ts ih =>
    refine .seq (tokenText L t hs) fun text s hs _ => ?_
    exact .seq (ih hs) fun rest s hs _ => .ret (text ++ rest) hs

theorem evaluate (tokens : List Token) (hs : G.Inv s) : (evaluate tokens : Run Value).Guarded G s := by
  refine .seq (noting L rfl hs) fun _ s hs _ => ?_
  refine .seq (formulaText L tokens hs) fun text s hs _ => ?_
  split
  · exact .ret _ hs
  · exact .stop (L.plain .beyond _)
  · exact report L _

theorem evaluateAll (parts : List (List Token)) (hs : G.Inv s) :
    (evaluateAll parts : Run (List Value)).Guarded G s := by
  induction parts generalizing s with
  | nil => exact .ret [] hs
  | cons tokens rest ih =>
    refine .seq (evaluate L tokens hs) fun v s hs _ => ?_
    exact .seq (ih hs) fun vs s hs _ => .ret (v :: vs) hs

theorem arguments (tokens : List Token) (hs : G.Inv s) : (arguments tokens : Run (List Value)).Guarded G s :=
  evaluateAll L _ hs

theorem print (first : Token) (rest : List Token) (hs : G.Inv s) : (print (first :: rest) : Run Unit).Guarded G s := by
  refine .seq (.ret first.line hs) fun line s hs _ => ?_
  split
  · exact report L _
  · refine .seq (evaluate L _ hs) fun v s hs _ => ?_
    split
    · exact .of_ok rfl (L.log _ hs) List.suffix_rfl
    · exact longText L

theorem checkOperands (tokens : List Token) (hs : G.Inv s) : (checkOperands tokens : Run Unit).Guarded G s := by
  induction tokens generalizing s with
  | nil => exact .ret () hs
  | cons t ts ih =>
    refine .seq (lookup t.text hs) fun binding s hs _ => ?_
    split
    · exact report L _
    · exact ih hs

theorem numberValue {text : String} (h : Text.IsNumeral text.toList) (hs : G.Inv s) :
    (numberValue text : Run Value).Guarded G s := by
  unfold Statement.numberValue
  generalize hcs : text.toList = cs at h
  cases h with
  | integer hdigits =>
    have hpoint : '.' ∉ cs := fun hmem => Text.ne_of_isDigit (hdigits.2 '.' hmem) '.' (by decide) rfl
    rw [if_neg hpoint]
    rcases Text.readInteger_of_isDigits hdigits with ⟨n, hread⟩ | ⟨hlong, hread⟩
    · rw [hread]
      exact .ret _ hs
    · rw [hread]
      exact .stop (L.plain (.longInteger hlong) _)
  | real hdigits hplaces =>
    obtain ⟨x, hread⟩ := Option.isSome_iff_exists.mp (Text.isSome_readReal? hdigits hplaces)
    rw [if_pos (by simp), hread]
    exact .ret _ hs

theorem assigned {tokens : List Token} (h : tokens <:+: whole) (hs : G.Inv s) :
    (assigned tokens : Run Value).Guarded G s := by
  unfold Statement.assigned
  split
  · exact numberValue L (L.numerals _ (h.subset List.mem_cons_self) rfl) hs
  · exact .ret _ hs
  · exact .seq (checkOperands L tokens hs) fun _ s hs _ => evaluate L tokens hs

theorem assign {tokens : List Token} (h : tokens <:+: whole) (hs : G.Inv s) :
    (assign d tokens : Run Unit).Guarded G s := by
  unfold Statement.assign
  split
  · rename_i name line line' t ts
    have hname : [⟨.identifier, name, line⟩, ⟨.operator, "=", line'⟩] <:+: whole :=
      List.IsInfix.trans ⟨[], t :: ts, rfl⟩ h
    have hvalue : t :: ts <:+: whole :=
      List.IsInfix.trans ⟨[⟨.identifier, name, line⟩, ⟨.operator, "=", line'⟩], [], by simp⟩ h
    exact .seq (assigned L hvalue hs) fun v s hs _ => L.store hname v hs
  · exact report L _

end Leaves

/-! ### Statements that hold others -/

section Compound

variable (L : G.Leaves d whole) {inner : List Token → Run Unit} {s : State}
variable (hinner : ∀ {tokens : List Token} {s : State}, IsStatement whole tokens → G.Inv s → (inner tokens).Guarded G s)
include L hinner

theorem sequence {braces : Int} {pending tokens : List Token} (h : pending.reverse ++ tokens <:+: whole)
    (hs : G.Inv s) : (sequence inner braces pending tokens).Guarded G s := by
  induction tokens generalizing braces pending s with
  | nil =>
    cases pending with
    | nil => exact .ret () hs
    | cons last _ => exact report L _
  | cons t ts ih =>
    simp only [Statement.sequence]
    split
    · rename_i hend
      have hstatement : IsStatement whole pending.reverse :=
        isStatement_of_end ((Bool.and_eq_true _ _).mp hend).1 h
      have hrest : ([] : List Token).reverse ++ ts <:+: whole :=
        ((List.suffix_cons t ts).trans (List.suffix_append _ _)).isInfix.trans h
      exact .seq (hinner hstatement hs) fun _ s hs _ => ih hrest hs
    · refine ih ?_ hs
      rwa [List.reverse_cons, List.append_assoc, List.singleton_append]

theorem block {first : Token} {rest : List Token} (h : first :: rest <:+: whole) (hs : G.Inv s) :
    (block inner (first :: rest)).Guarded G s := by
  unfold Statement.block
  split
  · split
    · have hbetween : ([] : List Token).reverse ++ ((first :: rest).drop 1).dropLast <:+: whole :=
        ((List.dropLast_prefix _).isInfix.trans (List.drop_suffix 1 _).isInfix).trans h
      exact sequence L hinner hbetween hs
    · exact report L _
  · rename_i hnone
    exact absurd (List.getLast?_eq_some_getLast (List.cons_ne_nil first rest)) (hnone first _ rfl)

theorem startedBlock {body : List Token} (h : body <:+: whole) (hstarts : startsBlock body = true) (hs : G.Inv s) :
    (Statement.block inner body).Guarded G s := by
  cases body with
  | nil => cases hstarts
  | cons first rest => exact block L hinner h hs

theorem ifThen {first : Token} {rest : List Token} (h : first :: rest <:+: whole) (hs : G.Inv s) :
    (ifThen inner (first :: rest)).Guarded G s := by
  refine .seq (.ret first.line hs) fun line s hs _ => ?_
  split
  · exact report L _
  · rename_i condition body hb
    refine .seq (evaluate L condition hs) fun v s hs _ => ?_
    split
    · split
      · exact startedBlock L hinner ((isInfix_bracketed? hb).2.trans h) ‹_› hs
      · exact report L _
    · exact .ret () hs
    · exact report L _

theorem whileDo {first : Token} {rest : List Token} (h : first :: rest <:+: whole) (hs : G.Inv s) :
    (whileDo inner (first :: rest)).Guarded G s := by
  refine .seq (.ret first.line hs) fun line s hs _ => ?_
  split
  · exact report L _
  · rename_i condition body hb
    refine .seq (evaluate L condition hs) fun v s hs _ => ?_
    split
    · split
      · exact startedBlock L hinner ((isInfix_bracketed? hb).2.trans h) ‹_› hs
      · exact report L _
    · exact report L _

theorem otherwise {first : Token} {rest : List Token} (h : IsStatement whole (first :: rest)) (hs : G.Inv s) :
    (otherwise inner (first :: rest)).Guarded G s := by
  refine .seq (.ret first.line hs) fun line s hs _ => ?_
  cases rest with
  | nil => exact report L _
  | cons next rest => exact hinner h.behind hs

omit hinner in
theorem loop {body update : Run Unit} {condition : Run Value} (hbody : ∀ {s}, G.Inv s → body.Guarded G s)
    (hupdate : ∀ {s}, G.Inv s → update.Guarded G s) (hcondition : ∀ {s}, G.Inv s → condition.Guarded G s)
    (rounds : Nat) (v : Value) (hs : G.Inv s) : (loop body update condition rounds v).Guarded G s := by
  induction rounds generalizing v s with
  | zero =>
    cases hv : v.isTrue with
    | false =>
      rw [loop_of_not_isTrue hv]
      exact .ret () hs
    | true =>
      rw [loop_zero hv]
      exact .stop (L.plain .exhausted _)
  | succ rounds ih =>
    cases hv : v.isTrue with
    | false =>
      rw [loop_of_not_isTrue hv]
      exact .ret () hs
    | true =>
      rw [loop_succ hv]
      refine .seq (hbody hs) fun _ s hs _ => .seq (hupdate hs) fun _ s hs _ => ?_
      exact .seq (hcondition hs) fun v s hs _ => ih v hs

theorem doFor (rounds : Nat) {first : Token} {rest : List Token} (h : first :: rest <:+: whole) (hs : G.Inv s) :
    (doFor d rounds inner (first :: rest)).Guarded G s := by
  refine .seq (.ret first.line hs) fun line s hs _ => ?_
  split
  · exact report L _
  · split
    · exact report L _
    · rename_i header body hb
      have ⟨hheader, hbody⟩ := isInfix_loopBracketed? hb
      split
      · rename_i start condition update hparts
        have hpart : ∀ part ∈ [start, condition, update], part <:+: whole := fun part hmem =>
          ((isInfix_splitOn ";" (hparts ▸ hmem)).trans hheader).trans h
        refine .seq (assign L (hpart start (by simp)) hs) fun _ s hs _ => ?_
        refine .seq (evaluate L condition hs) fun v s hs _ => ?_
        split
        · split
          · rename_i hstarts
            exact loop L (startedBlock L hinner (hbody.trans h) hstarts) (assign L (hpart update (by simp)))
              (evaluate L condition) rounds _ hs
          · exact report L _
        · exact report L _
      · exact report L _

theorem statement (rounds : Nat) {tokens : List Token} (h : IsStatement whole tokens)
    (hunmarked : ∀ first rest, IsStatement whole (first :: rest) → ∀ {s}, G.Inv s →
      (unmarked d inner first rest).Guarded G s) (hs : G.Inv s) :
    (statement d rounds inner tokens).Guarded G s := by
  cases tokens with
  | nil => exact .ret () hs
  | cons first rest =>
    simp only [Statement.statement]
    split
    · exact ifThen L hinner h.isInfix hs
    · split
      · exact otherwise L hinner h hs
      · split
        · exact whileDo L hinner h.isInfix hs
        · split
          · exact doFor L hinner rounds h.isInfix hs
          · split
            · exact print L first rest hs
            · exact hunmarked first rest h hs

/-- Start marks inside a program are passed over, so a statement is a piece of the tokens without
them. -/
theorem topLevel {started : Bool} {braces : Nat} {pending tokens : List Token}
    (hstarted : started = false → pending = []) (h : pending.reverse ++ unstarted tokens <:+: whole) (hs : G.Inv s) :
    (topLevel inner started braces pending tokens).Guarded G s := by
  induction tokens generalizing started braces pending s with
  | nil =>
    simp only [Statement.topLevel]
    split
    · exact report L _
    · exact .ret () hs
  | cons t ts ih =>
    simp only [Statement.topLevel]
    split
    · rename_i hstart
      rw [unstarted_of_start hstart] at h
      exact ih (fun h => by cases h) h hs
    · split
      · exact .ret () hs
      · exact report L _
    · rename_i hstart _
      rw [unstarted_of_ne hstart] at h
      have hrest : ([] : List Token).reverse ++ unstarted ts <:+: whole :=
        ((List.suffix_cons t _).trans (List.suffix_append _ _)).isInfix.trans h
      have hgrown : (t :: pending).reverse ++ unstarted ts <:+: whole := by
        rwa [List.reverse_cons, List.append_assoc, List.singleton_append]
      cases started with
      | false =>
        obtain rfl := hstarted rfl
        exact ih (fun _ => rfl) hrest hs
      | true =>
        have grown {braces : Nat} : (Statement.topLevel inner true braces (t :: pending) ts).Guarded G s :=
          ih (fun h => by cases h) hgrown hs
        have ended {ended : List Token} (hended : IsStatement whole ended) :
            (do inner ended; Statement.topLevel inner true 0 [] ts).Guarded G s :=
          .seq (hinner hended hs) fun _ s hs _ => ih (fun _ => rfl) hrest hs
        simp only [Bool.not_true, Bool.false_eq_true, if_false]
        split
        · rename_i hend
          split
          · exact ended (isStatement_of_end hend h)
          · exact grown
        · split
          · exact grown
          · split
            · rename_i hclose
              split
              · exact report L _
              · exact ended (isStatement_of_close hclose hgrown)
              · exact grown
            · exact grown

end Compound

section Program

variable (L : G.Leaves d whole) {s : State}
include L

theorem exec (rounds : Nat)
    (hunmarked : ∀ depth,
      (∀ {tokens s}, IsStatement whole tokens → G.Inv s →
        (Statement.exec d rounds depth tokens : Run Unit).Guarded G s) →
      ∀ first rest, IsStatement whole (first :: rest) → ∀ {s}, G.Inv s →
        (unmarked d (Statement.exec d rounds depth) first rest : Run Unit).Guarded G s)
    (depth : Nat) {tokens : List Token} (h : IsStatement whole tokens) (hs : G.Inv s) :
    (exec d rounds depth tokens : Run Unit).Guarded G s := by
  induction depth generalizing tokens s with
  | zero => exact .stop (L.plain .exhausted _)
  | succ depth ih => exact statement L ih rounds h (hunmarked depth ih) hs

end Program

theorem statements {tokens : List Token} {limits : Limits} (L : G.Leaves d (unstarted tokens)) (hne : tokens ≠ [])
    (hexec : ∀ {part s}, IsStatement (unstarted tokens) part → G.Inv s →
      (Statement.exec d limits.rounds limits.depth part : Run Unit).Guarded G s) {s : State} (hs : G.Inv s) :
    (Program.statements d limits tokens : Run Unit).Guarded G s := by
  unfold Program.statements
  split
  · split
    · exact topLevel L hexec (fun _ => rfl) List.infix_rfl hs
    · exact report L _
  · rename_i hnone
    exact absurd (List.getLast?_eq_some_getLast hne) (hnone _ _ (List.head?_eq_some_head hne))

theorem allows_of_run {limits : Limits} {code : String} {tokens : List Token} {s : State} {fault : Fault}
    (htokens : Token.tokenize d code = .ok tokens)
    (hguarded : (Program.statements d limits tokens : Run Unit).Guarded G (Program.start d { s with logs := [] }))
    (h : (Program.run d limits code s).1.result = .error fault) :
    G.Allows fault (Program.run d limits code s).2.journal := by
  rcases hrun : (Program.statements d limits tokens : Run Unit).run (Program.start d { s with logs := [] }) with
    ⟨result, t⟩
  cases result with
  | ok =>
    rw [Program.run_of_ok htokens hrun] at h
    cases h
  | error fault' =>
    rw [Program.run_of_error htokens hrun] at h ⊢
    obtain rfl : fault' = fault := Except.error.inj h
    have hallows := hguarded.error fault' (congrArg Prod.fst hrun)
    rwa [hrun] at hallows

end Guard

end Bang
