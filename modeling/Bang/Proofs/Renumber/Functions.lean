import Bang.Proofs.Arity
import Bang.Proofs.Renumber.Statements

/-! Programs with functions whose lines are numbered in another way. The bodies of functions are kept with the lines
of their tokens, so the two tables differ in them, and in nothing else. -/

namespace Bang

open Machine Run Statement

namespace Assoc

variable {α β : Type} {m : Assoc α} {key other : String}

theorem insert_insert (m : Assoc α) (key : String) (a b : α) : (m.insert key a).insert key b = m.insert key b := by
  obtain ⟨entries⟩ := m
  refine congrArg Assoc.mk ?_
  change put key b (put key a entries) = put key b entries
  induction entries with
  | nil => simp [put]
  | cons entry rest ih =>
    by_cases hkey : key = entry.1
    · simp [put, hkey]
    · simp [put, hkey, ih]

theorem insert_comm (h : (m.get? key).isSome) (hne : key ≠ other) (a b : α) :
    (m.insert key a).insert other b = (m.insert other b).insert key a := by
  obtain ⟨entries⟩ := m
  refine congrArg Assoc.mk ?_
  change put other b (put key a entries) = put key a (put other b entries)
  induction entries with
  | nil => cases h
  | cons entry rest ih =>
    by_cases hkey : key = entry.1
    · have hother : ¬ other = entry.1 := fun heq => hne (hkey.trans heq.symm)
      simp [put, hkey, hother]
    · have hrest : (Assoc.get? ⟨rest⟩ key : Option α).isSome := by
        have hbeq : (key == entry.1) = false := beq_false_of_ne hkey
        change ((entry :: rest).lookup key).isSome at h
        rw [List.lookup_cons, hbeq] at h
        exact h
      by_cases hother : other = entry.1
      · simp [put, hkey, hother]
      · simp [put, hkey, hother, ih hrest]

theorem get?_map (f : α → β) (m : Assoc α) (key : String) : (m.map f).get? key = (m.get? key).map f := by
  obtain ⟨entries⟩ := m
  change (entries.map fun entry => (entry.1, f entry.2)).lookup key = (entries.lookup key).map f
  induction entries with
  | nil => rfl
  | cons entry rest ih =>
    rw [List.map_cons, List.lookup_cons, List.lookup_cons]
    split
    · rfl
    · exact ih

theorem map_insert (f : α → β) (m : Assoc α) (key : String) (a : α) :
    (m.insert key a).map f = (m.map f).insert key (f a) := by
  obtain ⟨entries⟩ := m
  refine congrArg Assoc.mk ?_
  change (put key a entries).map (fun entry => (entry.1, f entry.2)) =
    put key (f a) (entries.map fun entry => (entry.1, f entry.2))
  induction entries with
  | nil => rfl
  | cons entry rest ih =>
    by_cases hkey : key = entry.1
    · simp [put, hkey]
    · simp [put, hkey, ih]

end Assoc

def Function.renumber (φ : Int → Int) (f : Function) : Function := { f with body := f.body.map (.renumber φ) }

def Definition.renumber (φ : Int → Int) : Definition → Definition
  | .function f => .function (f.renumber φ)
  | .other v => .other v

def Namespace.renumber (φ : Int → Int) (ns : Namespace) : Namespace := ns.map (Definition.renumber φ)

def Namespace.Fits (ns : Namespace) (whole : List Token) : Prop :=
  ∀ name definition, ns.get? name = some definition →
    ∃ f : Function, definition = .function f ∧ f.body <:+: whole ∧ functionsName ∉ f.params

namespace Scope

variable {s t : Scope} {ns later : Namespace} {name : String}

theorem withFunctions_withFunctions (s : Scope) (ns later : Namespace) :
    (s.withFunctions ns).withFunctions later = s.withFunctions later := by
  unfold withFunctions
  rw [Assoc.insert_insert]

theorem Owns.bind_withFunctions (h : s.Owns ns) (hname : name ≠ functionsName) (v : Value) (later : Namespace) :
    (s.withFunctions later).bind name v = (s.bind name v).withFunctions later := by
  have htable : (s.table.insert functionsName (.functions later)).insert name (.ofValue name v) =
      (s.table.insert name (.ofValue name v)).insert functionsName (.functions later) :=
    Assoc.insert_comm (Option.isSome_of_eq_some h.1) hname.symm _ _
  have hkey : (name == functionsName) = false := beq_false_of_ne hname
  simp only [Scope.bind, Scope.withFunctions, hkey, htable, Bool.false_eq_true, if_false]

theorem Owns.enter_withFunctions (h : s.Owns ns) {arguments : List (String × Value)}
    (hnames : ∀ a ∈ arguments, a.1 ≠ functionsName) (later : Namespace) :
    (s.withFunctions later).enter arguments = (s.enter arguments).withFunctions later := by
  have hbound (arguments : List (String × Value)) (t : Scope) (ht : t.Owns ns)
      (hnames : ∀ a ∈ arguments, a.1 ≠ functionsName) :
      arguments.foldl (fun scope argument => scope.bind argument.1 argument.2) (t.withFunctions later) =
        (arguments.foldl (fun scope argument => scope.bind argument.1 argument.2) t).withFunctions later := by
    induction arguments generalizing t with
    | nil => rfl
    | cons argument rest ih =>
      have hname := hnames argument List.mem_cons_self
      rw [List.foldl_cons, List.foldl_cons, ht.bind_withFunctions hname]
      exact ih _ (ht.bind hname _) fun a ha => hnames a (List.mem_cons_of_mem _ ha)
  exact hbound arguments { table := s.table } ⟨h.1, rfl⟩ hnames

end Scope

/-- Two states that differ in the lines of functions and in what statements cannot tell apart. -/
def State.Renumbered (φ : Int → Int) (whole : List Token) (s t : State) : Prop :=
  ∃ ns : Namespace, s.scope.Owns ns ∧ ns.Fits whole ∧
    State.Alike { s with scope := s.scope.withFunctions (ns.renumber φ) } t

namespace State.Renumbered

variable {φ : Int → Int} {whole : List Token} {s t : State} {name : String}

theorem get? (h : s.Renumbered φ whole t) (hname : name ≠ functionsName) : t.scope.get? name = s.scope.get? name := by
  obtain ⟨ns, _, _, halike⟩ := h
  rw [halike.scope]
  exact s.scope.get?_withFunctions_of_ne _ hname

theorem functions (h : s.Renumbered φ whole t) : ∃ ns : Namespace, ns.Fits whole ∧
    s.scope.get? functionsName = some (.functions ns) ∧
      t.scope.get? functionsName = some (.functions (ns.renumber φ)) := by
  obtain ⟨ns, howns, hfits, halike⟩ := h
  refine ⟨ns, hfits, howns.1, ?_⟩
  rw [halike.scope]
  exact (howns.withFunctions (ns.renumber φ)).1

theorem note (h : s.Renumbered φ whole t) {event event' : Event} (he : event.isPassing) (he' : event'.isPassing) :
    (s.note event).Renumbered φ whole (t.note event') := by
  obtain ⟨ns, howns, hfits, halike⟩ := h
  exact ⟨ns, howns, hfits, ((State.Alike.note_passing _ he).symm.trans halike).trans (State.Alike.note_passing t he')⟩

theorem note_same (h : s.Renumbered φ whole t) (event : Event) : (s.note event).Renumbered φ whole (t.note event) := by
  obtain ⟨ns, howns, hfits, halike⟩ := h
  exact ⟨ns, howns, hfits, halike.note event⟩

theorem log (h : s.Renumbered φ whole t) (line : String) : (s.log line).Renumbered φ whole (t.log line) := by
  obtain ⟨ns, howns, hfits, halike⟩ := h
  exact ⟨ns, howns, hfits, halike.log line⟩

theorem put (h : s.Renumbered φ whole t) (hname : name ≠ functionsName) (v : Value) :
    (s.put name v).Renumbered φ whole (t.put name v) := by
  obtain ⟨ns, howns, hfits, halike⟩ := h
  refine ⟨ns, howns.bind hname v, hfits, ?_⟩
  have hput := halike.put name v
  simp only [State.put, howns.bind_withFunctions hname, Scope.get?_withFunctions_of_ne _ _ hname] at hput ⊢
  exact hput

theorem refusal? (h : s.Renumbered φ whole t) (hname : name ≠ functionsName) (line : Int) (v : Value) :
    refusal? .extended line name v t = refusal? .extended line name v s := by
  obtain ⟨ns, _, _, halike⟩ := h
  rw [halike.refusal?]
  unfold Statement.refusal?
  rw [Scope.get?_withFunctions_of_ne _ _ hname]

theorem declare (h : s.Renumbered φ whole t) {ns : Namespace} (hns : s.scope.get? functionsName = some (.functions ns))
    {f : Function} (hbody : f.body <:+: whole) (hparams : functionsName ∉ f.params) :
    (s.declare name f (ns.insert name (.function f))).Renumbered φ whole
      (t.declare name (f.renumber φ) ((ns.renumber φ).insert name (.function (f.renumber φ)))) := by
  obtain ⟨ns', howns, hfits, halike⟩ := h
  obtain rfl : ns = ns' := Binding.functions.inj (Option.some.inj (hns.symm.trans howns.1))
  refine ⟨_, howns.withFunctions _, fun other definition hdefinition => ?_, ?_⟩
  · by_cases hother : other = name
    · subst hother
      rw [Assoc.get?_insert_self] at hdefinition
      exact ⟨f, (Option.some.inj hdefinition).symm, hbody, hparams⟩
    · rw [Assoc.get?_insert_of_ne _ hother] at hdefinition
      exact hfits other definition hdefinition
  · have hdeclare := halike.declare name f (f.renumber φ) ((ns.renumber φ).insert name (.function (f.renumber φ)))
    have hinsert : Namespace.renumber φ (ns.insert name (.function f)) =
        (ns.renumber φ).insert name (.function (f.renumber φ)) := Assoc.map_insert _ _ _ _
    simp only [State.declare, Scope.withFunctions_withFunctions, hinsert] at hdeclare ⊢
    exact hdeclare

theorem enter (h : s.Renumbered φ whole t) {arguments : List (String × Value)}
    (hnames : ∀ a ∈ arguments, a.1 ≠ functionsName) : (s.enter arguments).Renumbered φ whole (t.enter arguments) := by
  obtain ⟨ns, howns, hfits, halike⟩ := h
  refine ⟨ns, howns.enter hnames, hfits, ?_⟩
  have henter := halike.enter arguments
  simp only [State.enter, howns.enter_withFunctions hnames] at henter ⊢
  exact henter

theorem leave {s' t' : State} (h : s.Renumbered φ whole t) (h' : s'.Renumbered φ whole t') :
    (s.leave s').Renumbered φ whole (t.leave t') := by
  obtain ⟨ns, howns, _, halike⟩ := h
  obtain ⟨later, hlater, hfits, halike'⟩ := h'
  have hleave := halike.leave halike'
  have hrenumbered : (s'.scope.withFunctions (later.renumber φ)).Owns (later.renumber φ) := hlater.withFunctions _
  refine ⟨later, howns.leave hlater, hfits, ?_⟩
  simp only [State.leave, hrenumbered.leave_eq, hlater.leave_eq, Scope.withFunctions_withFunctions] at hleave ⊢
  exact hleave

end State.Renumbered

namespace matching

section Calls

variable {φ : Int → Int} {whole tokens : List Token} {inner : List Token → Run Unit}
variable (hname : ∀ u ∈ whole, u.text ≠ functionsName)

theorem isSome_refusal? (d : Dialect) (line line' : Int) (name : String) (v : Value) (s : State) :
    (refusal? d line name v s).isSome = (refusal? d line' name v s).isSome := by
  cases d with
  | basic => rfl
  | extended =>
    unfold refusal?
    cases v.type? with
    | none => rfl
    | some type =>
      dsimp only
      split
      · cases s.journal.typeOf? name with
        | none => rfl
        | some old =>
          dsimp only
          split <;> rfl
      · rfl

include hname

theorem extendedLeaves : Leaves (State.Renumbered φ whole) .extended whole where
  lookup u hu s t h := ⟨congrArg some (h.get? (hname u hu)), h⟩
  note _ _ he he' _ _ h := ⟨rfl, h.note he he'⟩
  log line _ _ h := ⟨rfl, h.log line⟩
  store u hu line v s t h := by
    have hsame := h.refusal? (hname u hu) line v
    have hsome := isSome_refusal? .extended u.line line u.text v s
    cases hrefused : refusal? .extended u.line u.text v s with
    | none =>
      rw [hrefused, ← hsame] at hsome
      rw [run_store_of_none hrefused, run_store_of_none (Option.not_isSome_iff_eq_none.mp (by simp [← hsome]))]
      exact ⟨rfl, h.put (hname u hu) v⟩
    | some fault =>
      rw [hrefused, ← hsame] at hsome
      obtain ⟨fault', hfault'⟩ := Option.isSome_iff_exists.mp hsome.symm
      rw [run_store_of_some hrefused, run_store_of_some hfault']
      exact ⟨rfl, h⟩

omit hname in
theorem parameters (tokens : List Token) :
    (matching (State.Renumbered φ whole)).Rel (parameters tokens) (parameters (tokens.map (.renumber φ))) := by
  induction tokens with
  | nil => exact (matching _).ret []
  | cons t ts ih =>
    simp only [Statement.parameters, List.map_cons]
    change (matching _).Rel _ (if t.isIdentifier then _ else if t.text == "," then _ else _)
    split
    · exact (matching _).seq ih fun params => (matching _).ret (t.text :: params)
    · split
      · exact ih
      · exact stops _ _

omit hname in
theorem mem_parameters {params : List String} {s t : State}
    (h : (Statement.parameters tokens : Run (List String)).run s = (.ok params, t)) :
    ∀ param ∈ params, ∃ u ∈ tokens, u.text = param := by
  have hrel : tourSimulation.Rel (Statement.parameters tokens) (Statement.parameters tokens) :=
    Simulation.parameters tokens
  have herases := hrel { state := s }
  rcases upholding.parameters_cases tokens { state := s } with ⟨fault, hrun⟩ | ⟨found, hrun, hfound⟩
  · rw [hrun, h] at herases
    cases herases
  · rw [hrun, h] at herases
    obtain rfl : found = params := Except.ok.inj (Prod.mk.inj herases).1
    exact hfound

omit hname in
theorem define {name : String} {f : Function} (hbody : f.body <:+: whole) (hparams : functionsName ∉ f.params) :
    (matching (State.Renumbered φ whole)).Rel (define name f) (define name (f.renumber φ)) := by
  intro s t h
  obtain ⟨ns, _, hs, ht⟩ := h.functions
  unfold Statement.define
  rw [run_bind_ok run_lookup?, run_bind_ok run_lookup?, hs, ht]
  exact ⟨rfl, h.declare hs hbody hparams⟩

theorem declare (h : tokens <:+: whole) :
    (matching (State.Renumbered φ whole)).Rel (declare tokens) (declare (tokens.map (.renumber φ))) := by
  rcases tokens with _ | ⟨first, _ | ⟨name, _ | ⟨opening, _ | ⟨t, ts⟩⟩⟩⟩
  · exact stops _ _
  · exact stops _ _
  · exact stops _ _
  · exact stops _ _
  · simp only [Statement.declare, List.map_cons]
    change (matching _).Rel _ (if !name.isIdentifier then _ else if opening.text != "(" then _ else _)
    split
    · exact stops _ _
    · split
      · exact stops _ _
      · rw [← List.map_cons, upToClosing?_renumber]
        cases hclosing : upToClosing? 0 (t :: ts) with
        | none => exact stops _ _
        | some parts =>
          obtain ⟨inside, body⟩ := parts
          obtain ⟨hinside, hbody⟩ := isInfix_upToClosing? hclosing
          have hbehind : t :: ts <:+: whole := List.IsInfix.trans ⟨[first, name, opening], [], by simp⟩ h
          intro s u hsu
          refine (parameters inside s u hsu).bind fun params s' u' hparams hsu' => ?_
          rw [startsBlock_renumber]
          split
          · refine define (f := ⟨params, body⟩) (hbody.trans hbehind) (fun hmem => ?_) s' u' hsu'
            obtain ⟨v, hv, htext⟩ := mem_parameters hparams _ hmem
            exact hname v (hbehind.subset (hinside.subset hv)) htext
          · exact ⟨rfl, hsu'⟩

omit hname in
theorem finishCall (name : String) :
    (matching (State.Renumbered φ whole)).Rel (finishCall name) (finishCall name) := by
  intro s t h
  obtain ⟨_, _, _, halike⟩ := id h
  unfold Statement.finishCall
  rw [run_bind_ok (run_state s), run_bind_ok (run_state t), halike.declared name]
  cases s.journal.isDeclared name with
  | true => exact ⟨rfl, h.note_same _⟩
  | false => exact ⟨rfl, h⟩

omit hname in
theorem inCall {arguments : List (String × Value)} (hnames : ∀ a ∈ arguments, a.1 ≠ functionsName) {x y : Run Unit}
    (h : (matching (State.Renumbered φ whole)).Rel x y) :
    (matching (State.Renumbered φ whole)).Rel (inCall arguments x) (inCall arguments y) := by
  intro s t hst
  obtain ⟨hresult, hstates⟩ := h _ _ (hst.enter hnames)
  rw [run_inCall, run_inCall]
  exact ⟨hresult, hst.leave hstates⟩

theorem call (F : Faithful φ .extended whole)
    (hinner : ∀ {tokens}, Begins whole tokens →
      (matching (State.Renumbered φ whole)).Rel (inner tokens) (inner (tokens.map (.renumber φ))))
    {callee : Token} {rest : List Token} (h : Begins whole (callee :: rest))
    (hopening : rest.head?.any (·.text == "(") = true) :
    (matching (State.Renumbered φ whole)).Rel (call inner (callee :: rest))
      (call inner ((callee :: rest).map (.renumber φ))) := by
  have hseeks : seeksBrackets .extended (callee :: rest) = true := (Bool.or_eq_true _ _).mpr (.inr hopening)
  intro s t hst
  obtain ⟨ns, hfits, hs, ht⟩ := hst.functions
  have hrenumbered : (ns.renumber φ).get? callee.text = (ns.get? callee.text).map (.renumber φ) := Assoc.get?_map _ _ _
  cases hdefinition : ns.get? callee.text with
  | none =>
    rw [hdefinition] at hrenumbered
    have hcall : (Statement.call inner ((callee :: rest).map (.renumber φ)) : Run Unit).run t =
        (.error (.diagnostic (.functionUndefined callee.text)), t) := run_call_of_undefined ht hrenumbered
    rw [run_call_of_undefined hs hdefinition, hcall]
    exact ⟨rfl, hst⟩
  | some definition =>
    obtain ⟨f, rfl, hbody, hparams⟩ := hfits callee.text definition hdefinition
    rw [hdefinition] at hrenumbered
    have hcallee : t.scope.Defines (callee.renumber φ).text (f.renumber φ) := ⟨_, ht, hrenumbered⟩
    have hdefines : s.scope.Defines callee.text f := ⟨ns, hs, hdefinition⟩
    unfold Statement.call
    rw [run_bind_ok hdefines.run_checkFunction, List.map_cons]
    dsimp only
    rw [run_bind_ok hcallee.run_checkFunction, ← List.map_cons, Token.line_renumber,
      F.finds h hseeks (by decide), F.finds h hseeks (by decide)]
    cases (callee :: rest).idxOf? (bracket "(" callee.line) with
    | none => exact stops _ _ s t hst
    | some start =>
      cases (callee :: rest).idxOf? (bracket ")" callee.line) with
      | none => exact stops _ _ s t hst
      | some stop =>
        have hinside : ((callee :: rest).take stop).drop (start + 1) ⊆ whole := fun u hu =>
          h.isInfix.subset (List.take_subset stop _ (List.drop_subset (start + 1) _ hu))
        dsimp only
        rw [← List.map_take, ← List.map_drop]
        refine (arguments (extendedLeaves hname) hinside s t hst).bind fun values s' t' hvalues hst' => ?_
        -- The arguments change nothing in the scope, so the function is still there.
        obtain ⟨ns', _, hs', ht'⟩ := hst'.functions
        have hdefines' : s'.scope.Defines callee.text f := by rwa [(Quiet.arguments _).scope_of_run hvalues]
        have hcallee' : t'.scope.Defines (callee.renumber φ).text (f.renumber φ) := by
          obtain ⟨later, hlater, hname'⟩ := hdefines'
          obtain rfl : ns' = later := Binding.functions.inj (Option.some.inj (hs'.symm.trans hlater))
          exact ⟨_, ht', (Assoc.get?_map _ _ _).trans (congrArg (Option.map _) hname')⟩
        rw [run_bind_ok hdefines'.run_functionOf, run_bind_ok hcallee'.run_functionOf]
        refine (?_ : (matching (State.Renumbered φ whole)).Rel _ _) s' t' hst'
        change (matching _).Rel (if values.length != f.params.length then _ else _)
          (if values.length != f.params.length then _ else _)
        split
        · exact stops _ _
        · have hnames : ∀ a ∈ f.params.zip values, a.1 ≠ functionsName := fun a ha heq =>
            hparams (heq ▸ (List.of_mem_zip ha).1)
          refine (matching _).seq ((extendedLeaves hname).note _ _ rfl rfl) fun _ => ?_
          exact (matching _).seq (inCall hnames (block hinner hbody)) fun _ => finishCall callee.text

end Calls

theorem extended_statements {φ : Int → Int} {tokens : List Token} (F : Faithful φ .extended (unstarted tokens))
    (hname : ∀ u ∈ unstarted tokens, u.text ≠ functionsName) (limits : Limits) :
    (matching (State.Renumbered φ (unstarted tokens))).Rel (Program.statements .extended limits tokens)
      (Program.statements .extended limits (tokens.map (.renumber φ))) := by
  refine statements fun hpart =>
    exec (extendedLeaves hname) F limits.rounds (fun hinner first rest h => ?_) limits.depth hpart
  unfold unmarked
  have hsecond : (rest.map (Token.renumber φ)).head?.any (·.text == "(") = rest.head?.any (·.text == "(") := by
    cases rest <;> rfl
  rw [hsecond]
  change (matching _).Rel _ (if Dialect.extended == .extended && first.text == "func" then _
    else if opensBlock first then _ else if Dialect.extended == .extended && _ then _ else _)
  split
  · exact declare hname h.isInfix
  · split
    · exact block hinner h.isInfix
    · split
      · exact call hname F hinner h ((Bool.and_eq_true _ _).mp ‹_›).2
      · exact assign (extendedLeaves hname) h.isInfix.subset

end matching

end Bang
