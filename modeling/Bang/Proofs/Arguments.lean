import Bang.Proofs.Arity
import Bang.Proofs.Branching
import Bang.Proofs.Expression
import Bang.Proofs.Leftover

/-! What a call does with its arguments. They are evaluated one after another in the table of the caller, and the first
one that fails stops the call. If there are as many as the function has parameters, the call is its body run on a copy
of that table with the parameters bound; otherwise the body does not run. -/

namespace Bang

open Machine Run Statement

/-! ### The tokens of a call -/

namespace Statement

inductive Separated : List (List Token) → List Token → Prop
  | none : Separated [] []
  | last (part : List Token) : Separated [part] part
  | more (part : List Token) {comma : Token} {next tokens : List Token} {parts : List (List Token)} :
    comma.text = "," → Separated (next :: parts) tokens → Separated (part :: next :: parts) (part ++ comma :: tokens)

def IsArgument (part : List Token) : Prop :=
  part ≠ [] ∧ ∀ t ∈ part, t.text ≠ "," ∧ t.text ≠ "(" ∧ t.text ≠ ")"

inductive CallsWith : List Token → Token → List (List Token) → Prop
  | form {callee : Token} {parts : List (List Token)} {inside : List Token} :
    callee ≠ bracket "(" callee.line → callee ≠ bracket ")" callee.line → Separated parts inside →
      (∀ part ∈ parts, IsArgument part) →
        CallsWith (callee :: bracket "(" callee.line :: (inside ++ [bracket ")" callee.line])) callee parts

variable {parts : List (List Token)} {part inside tokens : List Token} {t : Token} {text : String}

theorem splitOn_append_cons (hpart : ∀ u ∈ part, u.text ≠ text) (ht : t.text = text) (tokens : List Token) :
    splitOn text (part ++ t :: tokens) = part :: splitOn text tokens := by
  induction part with
  | nil => simp [splitOn, ht]
  | cons u us ih =>
    have hrest := ih fun v hv => hpart v (List.mem_cons_of_mem u hv)
    simp [splitOn, hpart u List.mem_cons_self, hrest]

theorem Separated.splitOn (h : Separated parts inside) (hparts : ∀ p ∈ parts, IsArgument p) (hne : parts ≠ []) :
    splitOn "," inside = parts := by
  induction h with
  | none => exact absurd rfl hne
  | last part => exact splitOn_of_not_mem fun t ht => ((hparts part List.mem_cons_self).2 t ht).1
  | more part hcomma _ ih =>
    have hfirst : ∀ t ∈ part, t.text ≠ "," := fun t ht => ((hparts part List.mem_cons_self).2 t ht).1
    rw [splitOn_append_cons hfirst hcomma, ih (fun p hp => hparts p (List.mem_cons_of_mem _ hp)) (List.cons_ne_nil _ _)]

theorem Separated.arguments_eq (h : Separated parts inside) (hparts : ∀ p ∈ parts, IsArgument p) :
    (arguments inside : Run (List Value)) = evaluateAll parts := by
  unfold arguments
  cases parts with
  | nil =>
    cases h
    rfl
  | cons part rest =>
    have hlast : (part :: rest).getLast? ≠ some [] := fun h => (hparts [] (List.mem_of_getLast? h)).1 rfl
    rw [h.splitOn hparts (List.cons_ne_nil _ _)]
    dsimp only
    split
    · rename_i hempty
      exact absurd hempty hlast
    · rfl

theorem Separated.text_ne (h : Separated parts inside) (hparts : ∀ p ∈ parts, IsArgument p) :
    ∀ t ∈ inside, t.text ≠ "(" ∧ t.text ≠ ")" := by
  induction h with
  | none => simp
  | last part => exact fun t ht => ((hparts part List.mem_cons_self).2 t ht).2
  | @more part comma next tokens parts hcomma _ ih =>
    intro t ht
    rcases List.mem_append.mp ht with ht | ht
    · exact ((hparts part List.mem_cons_self).2 t ht).2
    · rcases List.mem_cons.mp ht with rfl | ht
      · rw [hcomma]
        decide
      · exact ih (fun p hp => hparts p (List.mem_cons_of_mem _ hp)) t ht

end Statement

/-! ### Evaluating the arguments -/

namespace State

variable {s : State} {tokens part : List Token} {parts before after : List (List Token)} {v : Value} {fault : Fault}

theorem EvaluatesTo.run_eq (h : s.EvaluatesTo tokens v) :
    (evaluate tokens : Run Value).run s = (.ok v, s.consult tokens) := by
  obtain ⟨t, hrun, _⟩ := h.run
  rw [hrun, (consult_of_run hrun).1]

theorem alike_consults (s : State) (parts : List (List Token)) : s.Alike (parts.foldl consult s) := by
  induction parts generalizing s with
  | nil => exact .refl s
  | cons part rest ih => exact (s.alike_consult part).trans (ih _)

theorem evaluate_consult (s : State) (part tokens : List Token) :
    ((evaluate tokens : Run Value).run (s.consult part)).1 = ((evaluate tokens : Run Value).run s).1 :=
  (Simulation.evaluate tableReading.leaves (All.trivial tokens) s (s.consult part)
    (congrArg Scope.table (s.alike_consult part).scope)).1

theorem run_evaluateAll {values : List Value} (h : List.Forall₂ s.EvaluatesTo parts values) :
    (evaluateAll parts : Run (List Value)).run s = (.ok values, parts.foldl consult s) := by
  induction parts generalizing s values with
  | nil =>
    cases h
    rfl
  | cons part rest ih =>
    obtain ⟨v, vs, hpart, hrest, rfl⟩ := List.forall₂_cons_left_iff.mp h
    have hbehind : List.Forall₂ (s.consult part).EvaluatesTo rest vs :=
      hrest.imp fun tokens v hv => (s.evaluate_consult part tokens).trans hv
    unfold evaluateAll
    rw [run_bind_ok hpart.run_eq, run_bind_ok (ih hbehind)]
    rfl

theorem run_evaluateAll_error (hbefore : ∀ p ∈ before, ∃ v, s.EvaluatesTo p v)
    (hpart : ((evaluate part : Run Value).run s).1 = .error fault) (after : List (List Token)) :
    (evaluateAll (before ++ part :: after) : Run (List Value)).run s =
      (.error fault, ((evaluate part : Run Value).run (before.foldl consult s)).2) := by
  induction before generalizing s with
  | nil => exact run_bind_error (Prod.ext hpart rfl)
  | cons first rest ih =>
    obtain ⟨v, hfirst⟩ := hbefore first List.mem_cons_self
    have hrest : ∀ p ∈ rest, ∃ v, (s.consult first).EvaluatesTo p v := by
      intro p hp
      obtain ⟨w, hw⟩ := hbefore p (List.mem_cons_of_mem first hp)
      exact ⟨w, (s.evaluate_consult first p).trans hw⟩
    have hbehind := ih hrest ((s.evaluate_consult first part).trans hpart)
    rw [List.cons_append, evaluateAll, run_bind_ok hfirst.run_eq, run_bind_error hbehind]
    rfl

end State

/-! ### The scope of the body -/

namespace Scope

/-- A copy of a table in which parameters are bound to values: they have their places in the order
of the table, and behind it those that the table does not have, in their own order. -/
structure Binds (caller : Scope) (params : List String) (values : List Value) (copy : Scope) : Prop where
  bound : ∀ param v, (param, v) ∈ params.zip values → copy.get? param = some (.ofValue param v)
  others : ∀ name, name ∉ params → copy.get? name = caller.get? name
  keys : copy.table.keys = caller.table.keys ++ params.filter (· ∉ caller.table.keys)

variable {caller : Scope} {params : List String} {values : List Value}

theorem keys_bind (s : Scope) (name : String) (v : Value) : (s.bind name v).table.keys =
    if name ∈ s.table.keys then s.table.keys else s.table.keys ++ [name] := s.table.keys_insert name _

theorem Binds.cons {first copy : Scope} {param : String} {v : Value} (h : (first.bind param v).Binds params values copy)
    (hnew : param ∉ params) : first.Binds (param :: params) (v :: values) copy where
  bound other w hmem := by
    rcases List.mem_cons.mp hmem with heq | hmem
    · obtain ⟨rfl, rfl⟩ := Prod.mk.inj heq
      rw [h.others other hnew, get?_bind_self]
    · exact h.bound other w hmem
  others name hname := by
    rw [List.mem_cons, not_or] at hname
    rw [h.others name hname.2, get?_bind_of_ne first hname.1]
  keys := by
    rw [h.keys, keys_bind]
    by_cases hmem : param ∈ first.table.keys
    · rw [if_pos hmem, List.filter_cons_of_neg (by simpa using hmem)]
    · have hfilter : params.filter (· ∉ first.table.keys ++ [param]) = params.filter (· ∉ first.table.keys) := by
        refine List.filter_congr fun name hname => ?_
        have hne : name ≠ param := fun heq => hnew (heq ▸ hname)
        simp [hne]
      rw [if_neg hmem, hfilter, List.filter_cons_of_pos (by simpa using hmem), List.append_assoc, List.singleton_append]

theorem binds_enter (hparams : params.Nodup) (hlength : values.length = params.length) :
    caller.Binds params values (caller.enter (params.zip values)) := by
  have hbound (first : Scope) : first.Binds params values
      ((params.zip values).foldl (fun scope argument => scope.bind argument.1 argument.2) first) := by
    induction params generalizing first values with
    | nil => exact ⟨by simp, fun _ _ => rfl, (List.append_nil _).symm⟩
    | cons param params ih =>
      obtain ⟨hnew, hparams⟩ := List.nodup_cons.mp hparams
      obtain ⟨v, values, rfl⟩ := List.exists_cons_of_length_eq_add_one hlength
      exact (ih hparams (Nat.succ.inj hlength) (first.bind param v)).cons hnew
  have hcopy := hbound { table := caller.table }
  exact ⟨hcopy.bound, hcopy.others, hcopy.keys⟩

end Scope

/-! ### The call -/

/-- What a call leaves behind, where its body ended in a certain way: the caller's table with the
functions as the body left them, and the lines, types and uses that the body left; only then, if the
body ended well, the callee counts as used. -/
structure State.Returns (s : State) (callee : String) (ended after : Except Fault Unit × State) : Prop where
  result : after.1 = ended.1
  scope : after.2.scope = s.scope.leave ended.2.scope
  logs : after.2.logs = ended.2.logs
  types : after.2.journal.types = ended.2.journal.types
  variableUses : Mark.uses after.2.journal.variableMarks = Mark.uses ended.2.journal.variableMarks
  functionUses : Mark.uses after.2.journal.functionMarks =
    if ended.1.isOk then (Mark.uses ended.2.journal.functionMarks).modify callee ({ · with used := true })
    else Mark.uses ended.2.journal.functionMarks
  called : ended.1.isOk → ∃ use, (Mark.uses after.2.journal.functionMarks).get? callee = some use ∧ use.used

theorem State.Returns.answer {s : State} {callee : String} {ended after : Except Fault Unit × State}
    (d : Dialect) (h : Host)
    (hreturns : s.Returns callee ended after) :
    s.Returns callee (Hosted.answer d h ended) (Hosted.answer d h after) := by
  have hok : (Hosted.answer d h ended).1.isOk = ended.1.isOk := by
    obtain ⟨_ | _, _⟩ := ended <;> rfl
  refine ⟨?_, hreturns.scope, hreturns.logs, hreturns.types, hreturns.variableUses, ?_, ?_⟩
  · exact congrArg (Except.mapError (h.told d)) hreturns.result
  · rw [hok]
    exact hreturns.functionUses
  · rw [hok]
    exact hreturns.called

theorem returns_called {s t : State} {callee : String} {body : Run Unit} (hscope : t.scope = s.scope)
    (hdeclared : t.journal.isDeclared callee) (hbody : body.Concludes) (arguments : List (String × Value)) :
    s.Returns callee (body.run { t.note (.entered callee) with scope := s.scope.enter arguments })
      ((do note (.entered callee); inCall arguments body; finishCall callee : Run Unit).run t) := by
  have henter : { t.note (.entered callee) with scope := s.scope.enter arguments } =
      (t.note (.entered callee)).enter arguments := by
    rw [← hscope]
    rfl
  rw [run_bind_ok (run_note _), henter]
  have hgrows := (hbody ((t.note (.entered callee)).enter arguments)).1
  have hleft := run_inCall arguments body (t.note (.entered callee))
  rcases hrun : body.run ((t.note (.entered callee)).enter arguments) with ⟨result, u⟩
  rw [hrun] at hgrows hleft
  have hleave : ((t.note (.entered callee)).leave u).scope = s.scope.leave u.scope :=
    congrArg (Scope.leave · u.scope) hscope
  cases result with
  | error fault =>
    rw [run_bind_error hleft]
    exact ⟨rfl, hleave, rfl, rfl, rfl, rfl, fun hok => by cases hok⟩
  | ok =>
    have hstill : u.journal.isDeclared callee = true := by
      obtain ⟨later, hjournal⟩ := hgrows
      rw [← hjournal, Journal.isDeclared_append]
      exact Bool.or_eq_true_iff.mpr (.inr hdeclared)
    rw [run_bind_ok hleft, finishCall, run_bind_ok (run_state _)]
    have hfinish : ((t.note (.entered callee)).leave u).journal.isDeclared callee = true := hstill
    rw [if_pos hfinish]
    refine ⟨rfl, hleave, rfl, rfl, rfl, rfl, fun _ => ?_⟩
    obtain ⟨use, huse⟩ : ∃ use, (Mark.uses u.journal.functionMarks).get? callee = some use := by
      rw [← Option.isSome_iff_exists]
      exact (Journal.contains_uses_functionMarks _ _).trans hstill
    refine ⟨{ use with used := true }, ?_, rfl⟩
    change ((Mark.uses u.journal.functionMarks).modify callee _).get? callee = _
    rw [Assoc.get?_modify_self, huse]
    rfl

namespace Statement

variable {tokens : List Token} {callee : Token} {parts : List (List Token)} {f : Function} {s : State}
  {inner : List Token → Run Unit}

theorem CallsWith.run (h : CallsWith tokens callee parts) (hdefines : s.scope.Defines callee.text f) :
    (call inner tokens : Run Unit).run s = (do
      let values ← evaluateAll parts
      if values.length != f.params.length then report (.argumentCount callee.text)
      else do
        note (.entered callee.text)
        inCall (f.params.zip values) (block inner f.body)
        finishCall callee.text : Run Unit).run s := by
  obtain @⟨callee, parts, inside, hopening, hclosing, hseparated, hparts⟩ := h
  have hstart : (callee :: bracket "(" callee.line :: (inside ++ [bracket ")" callee.line])).idxOf?
      (bracket "(" callee.line) = some 1 :=
    @idxOf?_append_cons _ [callee] _ (by simpa using Ne.symm hopening)
  have hstop : (callee :: bracket "(" callee.line :: (inside ++ [bracket ")" callee.line])).idxOf?
      (bracket ")" callee.line) = some (inside.length + 2) := by
    have hbefore : bracket ")" callee.line ∉ callee :: bracket "(" callee.line :: inside := by
      have hinside : bracket ")" callee.line ∉ inside := fun hmem => (hseparated.text_ne hparts _ hmem).2 rfl
      rw [List.mem_cons, List.mem_cons, not_or, not_or]
      exact ⟨Ne.symm hclosing, by simp [bracket], hinside⟩
    exact idxOf?_append_cons hbefore
  unfold call
  rw [run_bind_ok hdefines.run_checkFunction, hstart, hstop]
  have hinside : ((callee :: bracket "(" callee.line :: (inside ++ [bracket ")" callee.line])).take
      (inside.length + 2)).drop (1 + 1) = inside := by simp
  dsimp only
  rw [hinside, hseparated.arguments_eq hparts]
  -- The arguments change nothing in the scope, so the function is still there.
  refine run_bind_congr fun values t hvalues => ?_
  have hlater : t.scope.Defines callee.text f := by rwa [(Quiet.evaluateAll _).scope_of_run hvalues]
  rw [run_bind_ok hlater.run_functionOf]

theorem CallsWith.run_of_failing {before after : List (List Token)} {part : List Token} {fault : Fault}
    (hform : CallsWith tokens callee (before ++ part :: after)) (hdefines : s.scope.Defines callee.text f)
    (hbefore : ∀ p ∈ before, ∃ v, s.EvaluatesTo p v) (hpart : ((evaluate part : Run Value).run s).1 = .error fault) :
    (call inner tokens : Run Unit).run s =
      (.error fault, ((evaluate part : Run Value).run (before.foldl State.consult s)).2) := by
  rw [hform.run hdefines]
  exact run_bind_error (State.run_evaluateAll_error hbefore hpart after)

theorem CallsWith.run_of_count {values : List Value} (hform : CallsWith tokens callee parts)
    (hdefines : s.scope.Defines callee.text f) (hvalues : List.Forall₂ s.EvaluatesTo parts values)
    (hcount : parts.length ≠ f.params.length) :
    (call inner tokens : Run Unit).run s =
      (.error (.diagnostic (.argumentCount callee.text)), parts.foldl State.consult s) := by
  rw [hvalues.length_eq] at hcount
  rw [hform.run hdefines, run_bind_ok (State.run_evaluateAll hvalues), if_pos (by simpa using hcount)]
  rfl

theorem CallsWith.returns {values : List Value} (hform : CallsWith tokens callee parts) (rounds depth : Nat)
    (hdefines : s.scope.Defines callee.text f) (hdeclared : s.journal.isDeclared callee.text)
    (hvalues : List.Forall₂ s.EvaluatesTo parts values) (hcount : parts.length = f.params.length) :
    s.Returns callee.text
      ((block (exec .extended rounds depth) f.body : Run Unit).run
        { (parts.foldl State.consult s).note (.entered callee.text) with scope := s.scope.enter (f.params.zip values) })
      ((call (exec .extended rounds depth) tokens : Run Unit).run s) := by
  have halike := s.alike_consults parts
  have hblock : (block (exec .extended rounds depth) f.body : Run Unit).Concludes :=
    Simulation.block (S := conclusion) (fun _ _ => Simulation.exec (conclusion.leaves .extended) conclusion.callLeaves
      (.inl rfl) (.inl rfl) (All.trivial _)) (All.trivial f.body)
  rw [hvalues.length_eq] at hcount
  rw [hform.run hdefines, run_bind_ok (State.run_evaluateAll hvalues), if_neg (by simpa using hcount)]
  exact returns_called halike.scope ((halike.declared _).trans hdeclared) hblock _

/-- In every host, a function of the caller's table that was declared, called with arguments in
brackets on the line of its name. The arguments are evaluated from left to right in the caller's
table, and the first one that fails stops the call. If their number is not that of the parameters,
the call is reported and the body does not run. Otherwise the call is the body run on a copy of the
table with the parameters bound, and the function counts as used if the body ends well. The
arguments and the body are to keep to the language. -/
theorem call_binds_arguments (h : Host) (rounds depth : Nat) (s : State) (tokens : List Token) (callee : Token)
    (parts : List (List Token)) (f : Function) (hform : CallsWith tokens callee parts)
    (hdefines : s.scope.Defines callee.text f) (hdeclared : s.journal.isDeclared callee.text)
    (hparams : f.params.Nodup) :
    (∀ before part after fault, parts = before ++ part :: after → (∀ p ∈ before, ∃ v, s.EvaluatesTo p v) →
      ((evaluate part : Run Value).run s).1 = .error fault → fault ≠ .beyond →
        (call (exec .extended rounds depth) tokens : Hosted .extended h Unit).run s =
          (.error (h.told .extended fault), ((evaluate part : Run Value).run (before.foldl State.consult s)).2)) ∧
    ∀ values, List.Forall₂ s.EvaluatesTo parts values →
      s.Alike (parts.foldl State.consult s) ∧
      (parts.length ≠ f.params.length →
        (call (exec .extended rounds depth) tokens : Hosted .extended h Unit).run s =
          (.error (.diagnostic (.argumentCount callee.text)), parts.foldl State.consult s)) ∧
      (parts.length = f.params.length →
        s.scope.Binds f.params values (s.scope.enter (f.params.zip values)) ∧
        (Hosted.Contained .extended h (call (exec .extended rounds depth) tokens) s →
          s.Returns callee.text
            ((block (exec .extended rounds depth) f.body : Hosted .extended h Unit).run
              { (parts.foldl State.consult s).note (.entered callee.text) with
                scope := s.scope.enter (f.params.zip values) })
            ((call (exec .extended rounds depth) tokens : Hosted .extended h Unit).run s))) := by
  have hfollows := hosting.call .extended h rounds depth tokens
  refine ⟨fun before part after fault hparts hbefore hpart hwithin => ?_,
    fun values hvalues => ⟨s.alike_consults parts, ?_, ?_⟩⟩
  · -- Evaluating adds no line, so there is none that the host could refuse.
    subst hparts
    have hrun : (call (exec .extended rounds depth) tokens : Run Unit).run s = _ :=
      hform.run_of_failing hdefines hbefore hpart
    have hlogs : ((evaluate part : Run Value).run (before.foldl State.consult s)).2.logs = s.logs :=
      (Quiet.evaluate part _).logs.trans (s.alike_consults before).logs
    rw [hfollows.run_eq (.of_logs (by rw [hrun]; simpa using hwithin) (by rw [hrun]; exact hlogs)), hrun]
    rfl
  · intro hcount
    have hrun : (call (exec .extended rounds depth) tokens : Run Unit).run s = _ :=
      hform.run_of_count hdefines hvalues hcount
    rw [hfollows.run_eq (.of_logs (by rw [hrun]; simp) (by rw [hrun]; exact (s.alike_consults parts).logs)), hrun]
    rfl
  · intro hcount
    refine ⟨Scope.binds_enter hparams (hvalues.length_eq ▸ hcount), fun hcontained => ?_⟩
    have hreturns := hform.returns rounds depth hdefines hdeclared hvalues hcount
    -- The body ends as the call does, and the call adds no line to those of the body.
    have hbody : Hosted.Contained .extended h (block (exec .extended rounds depth) f.body)
        { (parts.foldl State.consult s).note (.entered callee.text) with
          scope := s.scope.enter (f.params.zip values) } := by
      refine ⟨hreturns.result ▸ hcontained.within, fun hd line hline => hcontained.displayed hd line ?_⟩
      rw [hreturns.logs]
      rwa [← (s.alike_consults parts).logs]
    rw [(hosting.block .extended h rounds depth f.body).run_eq hbody, hfollows.run_eq hcontained]
    exact hreturns.answer .extended h

section Shadowing

def printSecond : Function where
  params := ["a", "b"]
  body := [⟨.symbol, "\x7b", 1⟩, ⟨.keyword, "print", 1⟩, bracket "(" 1, ⟨.identifier, "b", 1⟩, bracket ")" 1,
    ⟨.symbol, "!", 1⟩, ⟨.symbol, "\x7d", 2⟩]

def shadowed : State :=
  ((Program.start .extended {}).put "a" (.int 7)).declare "f" printSecond
    (Assoc.empty.insert "f" (.function printSecond))

def firstArgument : List Token := [⟨.number, "1", 3⟩]

def secondArgument : List Token := [⟨.identifier, "a", 3⟩, ⟨.operator, "+", 3⟩, ⟨.number, "1", 3⟩]

/-- `f(1,a+1)` -/
def shadowingCall : List Token :=
  ⟨.identifier, "f", 3⟩ :: bracket "(" 3 :: (firstArgument ++ ⟨.symbol, ",", 3⟩ :: secondArgument ++ [bracket ")" 3])

theorem call_binds_arguments_of_shadowing :
    shadowed.scope.Binds ["a", "b"] [.int 1, .int 8] (shadowed.scope.enter [("a", .int 1), ("b", .int 8)]) ∧
      (∃ ended, shadowed.Returns "f" ended
        ((call (exec .extended 5 5) shadowingCall : Hosted .extended .standard Unit).run shadowed)) ∧
        ((call (exec .extended 5 5) shadowingCall : Hosted .extended .standard Unit).run shadowed).1.isOk ∧
          ((call (exec .extended 5 5) shadowingCall : Hosted .extended .standard Unit).run shadowed).2.logs =
            ["8"] := by
  have hform : CallsWith shadowingCall ⟨.identifier, "f", 3⟩ [firstArgument, secondArgument] :=
    @CallsWith.form ⟨.identifier, "f", 3⟩ _ _ (by decide) (by decide) (.more firstArgument rfl (.last secondArgument))
      (by simp [IsArgument, firstArgument, secondArgument])
  have hfirst : shadowed.scope.Reads firstArgument _ := .single (.number (by decide))
  have hsecond : shadowed.scope.Reads secondArgument _ :=
    .cons (.arithmetic .add) 3 (.int rfl (by decide)) (.single (.number (by decide)))
  have hvalues : List.Forall₂ shadowed.EvaluatesTo [firstArgument, secondArgument] [.int 1, .int 8] :=
    .cons (congrArg Prod.fst (State.run_evaluate_of_reads (a := .int 1) hfirst (by decide)))
      (.cons (congrArg Prod.fst (State.run_evaluate_of_reads (a := .int 8) hsecond (by decide))) .nil)
  have hruns : ((call (exec .extended 5 5) shadowingCall : Run Unit).run shadowed).1.isOk ∧
      ((call (exec .extended 5 5) shadowingCall : Hosted .extended .standard Unit).run shadowed).1.isOk ∧
        ((call (exec .extended 5 5) shadowingCall : Hosted .extended .standard Unit).run shadowed).2.logs = ["8"] := by
    decide +kernel
  have hcall := call_binds_arguments .standard 5 5 shadowed shadowingCall _ _ printSecond
    hform ⟨_, rfl, rfl⟩ rfl (by decide)
  obtain ⟨hbinds, hreturns⟩ := (hcall.2 _ hvalues).2.2 rfl
  exact ⟨hbinds, ⟨_, hreturns (.standard (Hosted.ne_beyond_of_isOk hruns.1))⟩, hruns.2⟩

end Shadowing

/-- An argument can take away the lines that are there, also if the call has too many of them. -/
theorem arguments_change_logs :
    let session := (Program.runOn .standard .extended ⟨5, 5⟩ "INICIO print(1)! func f()\x7b\x7d FIN" {}).2
    let tokens := ⟨.identifier, "f", 1⟩ :: bracket "(" 1 ::
      (Reach.tokens ("==" ++ Reach.Place.logs.text ++ ".clear()") ++ [bracket ")" 1])
    session.logs = ["1"] ∧
      ((call (exec .extended 5 5) tokens : Hosted .extended .standard Unit).run session).1 =
        .error (.diagnostic (.argumentCount "f")) ∧
      ((call (exec .extended 5 5) tokens : Hosted .extended .standard Unit).run session).2.logs = [] := by
  decide +kernel

end Statement

end Bang
