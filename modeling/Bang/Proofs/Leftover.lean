import Bang.Proofs.Steps
import Bang.Proofs.Simulation

/-! What earlier programs of a session leave in the journal, and what it does to a later one. A program
does on top of it what it does in a fresh session, unless there it stops because the journal lacks
something that the earlier programs have left. -/

namespace Bang

open Machine Run Statement

namespace Journal

variable (j earlier : Journal)

theorem typeOf?_append (name : String) : typeOf? (j ++ earlier) name = (typeOf? j name).or (typeOf? earlier name) :=
  List.findSome?_append

theorem isDeclared_append (name : String) :
    isDeclared (j ++ earlier) name = (isDeclared j name || isDeclared earlier name) :=
  List.any_append

theorem variableMarks_append : variableMarks (j ++ earlier) = variableMarks j ++ variableMarks earlier :=
  List.filterMap_append

theorem functionMarks_append : functionMarks (j ++ earlier) = functionMarks j ++ functionMarks earlier :=
  List.filterMap_append

theorem settles_append (fault : Fault) : settles (j ++ earlier) fault = (settles j fault || settles earlier fault) := by
  unfold settles
  split
  · rw [typeOf?_append, Option.isSome_or]
  · exact isDeclared_append j earlier _
  · rfl

theorem settles_of_suffix {j earlier : Journal} {fault : Fault} (hsuffix : earlier <:+ j)
    (h : settles j fault = false) : settles earlier fault = false := by
  obtain ⟨later, rfl⟩ := hsuffix
  rw [settles_append, Bool.or_eq_false_iff] at h
  exact h.2

theorem settles_repeat {fault : Fault} (h : settles j fault = false) (n : Nat) :
    settles (List.replicate n j).flatten fault = false := by
  induction n with
  | zero =>
    unfold settles
    split <;> rfl
  | succ n ih => rw [List.replicate_succ, List.flatten_cons, settles_append, h, ih, Bool.or_self]

end Journal

def State.over (s : State) (earlier : Journal) : State := { s with journal := s.journal ++ earlier }

/-! ### A program on top of an earlier journal -/

/-- On top of an earlier journal, a computation does the same, unless it stops with a fault that the
earlier journal settles. -/
def Run.Framed {α : Type} (earlier : Journal) (x : Run α) : Prop :=
  ∀ s, (∃ fault, (x.run s).1 = .error fault ∧ earlier.settles fault) ∨
    x.run (s.over earlier) = ((x.run s).1, (x.run s).2.over earlier)

def framing (earlier : Journal) : Simulation Run Run where
  Rel x _ := x.Framed earlier
  ret _ _ := .inr rfl
  seq {_ _ x _ f _} hx hf s := by
    have hs := hx s
    rcases h : x.run s with ⟨result, t⟩
    rw [h] at hs
    cases result with
    | error fault =>
      rw [run_bind_error h]
      rcases hs with ⟨fault', heq, hsettles⟩ | hsame
      · exact .inl ⟨fault', congrArg Except.error (Except.error.inj heq), hsettles⟩
      · exact .inr (run_bind_error hsame)
    | ok a =>
      rw [run_bind_ok h]
      rcases hs with ⟨_, heq, _⟩ | hsame
      · cases heq
      · rw [run_bind_ok hsame]
        exact hf a t
  stop _ _ _ := .inr rfl

namespace framing

variable {earlier : Journal}

theorem refusal?_over (d : Dialect) (line : Int) (name : String) (v : Value) (s : State) :
    (∃ fault, refusal? d line name v s = some fault ∧ earlier.settles fault) ∨
      refusal? d line name v (s.over earlier) = refusal? d line name v s := by
  have htypes : (s.over earlier).journal.typeOf? name = (s.journal.typeOf? name).or (earlier.typeOf? name) :=
    Journal.typeOf?_append ..
  have hscope : (s.over earlier).scope = s.scope := rfl
  unfold refusal?
  rw [htypes, hscope]
  split
  · exact .inr rfl
  · exact .inr rfl
  · split
    · cases hown : s.journal.typeOf? name with
      | some old => exact .inr rfl
      | none =>
        cases hearlier : earlier.typeOf? name with
        | none => exact .inr rfl
        | some old =>
          -- The name lacks a type only as long as the earlier journal is not there.
          have hsettles : earlier.settles (.crash (.untypedName name)) :=
            Option.isSome_iff_exists.mpr ⟨old, hearlier⟩
          exact .inl ⟨_, rfl, hsettles⟩
    · exact .inr rfl

theorem store (d : Dialect) (line : Int) (name : String) (v : Value) :
    (store d line name v : Run Unit).Framed earlier := by
  intro s
  rcases refusal?_over d line name v s with ⟨fault, hrefused, hsettles⟩ | hsame
  · rw [run_store_of_some hrefused]
    exact .inl ⟨fault, rfl, hsettles⟩
  · right
    cases h : refusal? d line name v s with
    | none =>
      rw [run_store_of_none h, run_store_of_none (hsame.trans h)]
      rfl
    | some fault => rw [run_store_of_some h, run_store_of_some (hsame.trans h)]

theorem finishCall (name : String) : (finishCall name : Run Unit).Framed earlier := by
  intro s
  have hdeclared := Journal.isDeclared_append s.journal earlier name
  unfold Statement.finishCall
  rw [run_bind_ok (run_state s), run_bind_ok (run_state (s.over earlier))]
  change _ ∨ (if (s.journal ++ earlier).isDeclared name then _ else _ : Run Unit).run _ = _
  rw [hdeclared]
  cases hown : s.journal.isDeclared name with
  | true => exact .inr rfl
  | false =>
    cases hearlier : earlier.isDeclared name with
    | false => exact .inr rfl
    | true => exact .inl ⟨.crash (.undeclaredFunction name), rfl, hearlier⟩

theorem leaves (earlier : Journal) (d : Dialect) : (framing earlier).Leaves d d (fun _ => True) where
  lookup _ _ _ := .inr rfl
  note _ _ _ := .inr rfl
  beyond _ _ := .inr rfl
  log _ _ := .inr rfl
  store t _ v := store d t.line t.text v

theorem callLeaves : (framing earlier).CallLeaves (fun _ => True) := by
  refine .of_lookup (fun _ => .inr rfl) (fun _ _ _ _ => .inr rfl) finishCall ?_
  intro arguments body _ hbody s
  rw [run_inCall, run_inCall]
  rcases hbody (s.enter arguments) with hsettled | hsame
  · exact .inl hsettled
  · right
    have hbody : body.run ((s.over earlier).enter arguments) = _ := hsame
    rw [hbody]
    rfl

end framing

/-! ### What a program stops for -/

/-- The journal only grows, and lacks at the end what the computation has stopped for. -/
def Run.Concludes {α : Type} (x : Run α) : Prop :=
  ∀ s, s.journal <:+ (x.run s).2.journal ∧
    ∀ fault, (x.run s).1 = .error fault → (x.run s).2.journal.settles fault = false

def conclusion : Simulation Run Run where
  Rel x _ := x.Concludes
  ret _ _ := ⟨List.suffix_rfl, fun _ h => by cases h⟩
  seq {_ _ x _ f _} hx hf s := by
    obtain ⟨hgrows, hlacks⟩ := hx s
    rcases h : x.run s with ⟨result, t⟩
    rw [h] at hgrows hlacks
    cases result with
    | error fault =>
      rw [run_bind_error h]
      exact ⟨hgrows, fun fault' heq => hlacks fault' (congrArg Except.error (Except.error.inj heq))⟩
    | ok a =>
      rw [run_bind_ok h]
      obtain ⟨hgrows', hlacks'⟩ := hf a t
      exact ⟨hgrows.trans hgrows', hlacks'⟩
  stop fault h s := ⟨List.suffix_rfl, fun fault' heq => Except.error.inj heq ▸ h s.journal⟩

namespace conclusion

theorem change {f : State → State} (h : ∀ s, s.journal <:+ (f s).journal) :
    (Machine.change f : Run Unit).Concludes :=
  fun s => ⟨h s, fun _ heq => by cases heq⟩

theorem lookup (name : String) : (lookup? name : Run (Option Binding)).Concludes :=
  fun _ => ⟨List.suffix_rfl, fun _ heq => by cases heq⟩

theorem store (d : Dialect) (line : Int) (name : String) (v : Value) :
    (store d line name v : Run Unit).Concludes := by
  intro s
  cases h : refusal? d line name v s with
  | none =>
    rw [run_store_of_none h]
    exact ⟨List.suffix_cons _ _, fun _ heq => by cases heq⟩
  | some fault =>
    rw [run_store_of_some h]
    refine ⟨List.suffix_rfl, fun fault' heq => ?_⟩
    obtain rfl : fault = fault' := Except.error.inj heq
    rcases refusal?_eq_some h with rfl | ⟨_, _, rfl⟩ | ⟨rfl, _, huntyped⟩
    · rfl
    · rfl
    · exact Option.isSome_eq_false_iff.mpr (Option.isNone_iff_eq_none.mpr huntyped)

theorem finishCall (name : String) : (finishCall name : Run Unit).Concludes := by
  intro s
  unfold Statement.finishCall
  rw [run_bind_ok (run_state s)]
  cases hdeclared : s.journal.isDeclared name with
  | true => exact ⟨List.suffix_cons _ _, fun _ heq => by cases heq⟩
  | false => exact ⟨List.suffix_rfl, fun fault heq => Except.error.inj heq ▸ hdeclared⟩

theorem leaves (d : Dialect) : conclusion.Leaves d d (fun _ => True) where
  lookup t _ := lookup t.text
  note _ _ := change fun _ => List.suffix_cons _ _
  beyond _ := conclusion.stop _ fun _ => rfl
  log _ := change fun _ => List.suffix_rfl
  store t _ v := store d t.line t.text v

theorem callLeaves : conclusion.CallLeaves (fun _ => True) :=
  .of_lookup (lookup functionsName) (fun _ _ _ => change fun _ => List.suffix_cons _ _) finishCall
    fun arguments _ _ hbody s => hbody (s.enter arguments)

theorem block (d : Dialect) (rounds depth : Nat) (tokens : List Token) :
    (block (exec d rounds depth) tokens : Run Unit).Concludes :=
  Simulation.block (S := conclusion) (fun _ h => Simulation.exec (leaves d) callLeaves (.inl rfl) (.inl rfl) h)
    (All.trivial tokens)

theorem called {x : Run Unit} (hx : x.Concludes) (name : String) (arguments : List (String × Value)) :
    (do inCall arguments x; Statement.finishCall name : Run Unit).Concludes := by
  have hinCall : conclusion.Rel (inCall arguments x) (inCall arguments x) := fun s => hx (s.enter arguments)
  exact conclusion.seq (y := inCall arguments x) (g := fun _ => Statement.finishCall name) hinCall
    fun _ => finishCall name

end conclusion

namespace Program

variable {d : Dialect} {limits : Limits} {code : String} {s : State} {fault : Fault}

structure Echoes (earlier : Journal) (fresh later : Outcome × State) : Prop where
  outcome : later.1 = fresh.1
  logs : later.2.logs = fresh.2.logs
  journal : later.2.journal = fresh.2.journal ++ earlier
  scope : fresh.1.result = .ok () → later.2.scope = fresh.2.scope

theorem echoes_run (h : ∀ fault, (run d limits code {}).1.result = .error fault → s.journal.settles fault = false) :
    Echoes s.journal (run d limits code {}) (run d limits code s) := by
  cases htokens : Token.tokenize d code with
  | error stuck =>
    rw [run_of_stuck htokens, run_of_stuck htokens]
    exact ⟨rfl, rfl, rfl, fun heq => by cases heq⟩
  | ok tokens =>
    have hstatements : (statements d limits tokens : Run Unit).Framed s.journal :=
      Simulation.program (framing.leaves s.journal d) framing.callLeaves (.inl rfl) (.inl rfl) tokens
    have hframed := hstatements (start d {})
    rcases hfresh : (statements d limits tokens : Run Unit).run (start d {}) with ⟨result, t⟩
    rw [hfresh] at hframed
    have hover : start d { s with logs := [] } = (start d {}).over s.journal := rfl
    cases result with
    | ok =>
      rw [run_of_ok htokens hfresh]
      rcases hframed with ⟨_, heq, _⟩ | hsame
      · cases heq
      · rw [run_of_ok htokens (hover ▸ hsame)]
        exact ⟨rfl, rfl, rfl, fun _ => rfl⟩
    | error fault =>
      rw [run_of_error htokens hfresh] at h ⊢
      rcases hframed with ⟨fault', heq, hsettles⟩ | hsame
      · rw [h fault' (congrArg Except.error (Except.error.inj heq))] at hsettles
        cases hsettles
      · rw [run_of_error htokens (hover ▸ hsame)]
        exact ⟨rfl, rfl, rfl, fun heq => by cases heq⟩

theorem settles_run (h : (run d limits code s).1.result = .error fault) :
    s.journal.settles fault = false ∧ (run d limits code s).2.journal.settles fault = false := by
  cases htokens : Token.tokenize d code with
  | error stuck =>
    rw [run_of_stuck htokens] at h ⊢
    obtain rfl : _ = fault := Except.error.inj h
    exact ⟨rfl, rfl⟩
  | ok tokens =>
    have hstatements : (statements d limits tokens : Run Unit).Concludes :=
      Simulation.program (conclusion.leaves d) conclusion.callLeaves (.inl rfl) (.inl rfl) tokens
    obtain ⟨hgrows, hlacks⟩ := hstatements (start d { s with logs := [] })
    rcases hrun : (statements d limits tokens : Run Unit).run (start d { s with logs := [] }) with ⟨result, t⟩
    rw [hrun] at hgrows hlacks
    cases result with
    | ok =>
      rw [run_of_ok htokens hrun] at h
      cases h
    | error fault' =>
      rw [run_of_error htokens hrun] at h ⊢
      have hlacked : t.journal.settles fault = false := hlacks fault h
      exact ⟨Journal.settles_of_suffix hgrows hlacked, hlacked⟩

end Program

end Bang
