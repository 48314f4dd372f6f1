import Bang.Proofs.Hosting
import Bang.Proofs.Usage

/-! Assignments that fail. Whatever stops an assignment, be it its form, a name, a number, the expression or the type of
its value, it stops before anything is stored. All that can be left of it is that some names of its right side count as
used. -/

namespace Bang

open Machine Run Statement

namespace Mark

variable {α : Type}

def markUsed (names : List String) (m : Assoc (Use α)) : Assoc (Use α) :=
  ⟨m.entries.map fun entry => (entry.1, { entry.2 with used := entry.2.used || names.contains entry.1 })⟩

theorem markUsed_markUsed (name : String) (names : List String) (m : Assoc (Use α)) :
    markUsed [name] (markUsed names m) = markUsed (name :: names) m := by
  have hflag (use : Use α) (key : String) : (use.used || names.contains key || [name].contains key) =
      (use.used || (name :: names).contains key) := by
    rw [Bool.or_assoc, Bool.or_comm (names.contains key), List.contains_cons, List.contains_cons, List.contains_nil,
      Bool.or_false]
  simp only [markUsed, List.map_map, Function.comp_def, hflag]

theorem markUsed_of_not_mem {names : List String} {m : Assoc (Use α)} (h : ∀ name ∈ names, name ∉ m.keys) :
    markUsed names m = m := by
  obtain ⟨entries⟩ := m
  refine congrArg Assoc.mk ((List.map_congr_left fun entry hentry => ?_).trans (List.map_id _))
  have hunmarked : entry.1 ∉ names := fun hmem => h entry.1 hmem (List.mem_map.mpr ⟨entry, hentry, rfl⟩)
  simp [hunmarked]

theorem put_used {name : String} {use : Use α} {entries : List (String × Use α)}
    (hnodup : (entries.map Prod.fst).Nodup) (huse : entries.lookup name = some use) :
    (⟨Assoc.put name { use with used := true } entries⟩ : Assoc (Use α)) = markUsed [name] ⟨entries⟩ := by
  induction entries with
  | nil => cases huse
  | cons entry rest ih =>
    obtain ⟨key, other⟩ := entry
    rw [List.map_cons, List.nodup_cons] at hnodup
    by_cases hkey : name = key
    · subst hkey
      rw [List.lookup_cons_self] at huse
      obtain rfl := Option.some.inj huse
      have hrest : markUsed [name] ⟨rest⟩ = ⟨rest⟩ := markUsed_of_not_mem fun other hother =>
        List.mem_singleton.mp hother ▸ hnodup.1
      simpa [Assoc.put, markUsed] using (congrArg Assoc.entries hrest).symm
    · have hne : (name == key) = false := beq_false_of_ne hkey
      rw [List.lookup_cons, hne] at huse
      have hrest := congrArg Assoc.entries (ih hnodup.2 huse)
      simpa [Assoc.put, markUsed, hne, Ne.symm hkey] using hrest

theorem modify_used {name : String} {m : Assoc (Use α)} (h : m.keys.Nodup) :
    m.modify name ({ · with used := true }) = markUsed [name] m := by
  unfold Assoc.modify
  split
  · rename_i use huse
    exact put_used h huse
  · rename_i hnone
    refine (markUsed_of_not_mem ?_).symm
    simp [Assoc.mem_keys, hnone]

end Mark

namespace Journal

def Reading (tokens : List Token) : Event → Prop
  | .evaluating _ => True
  | .read name => ∃ t ∈ tokens, t.isIdentifier ∧ t.text = name
  | _ => False

variable {tokens : List Token} {events j : Journal}

theorem append_of_reading {β : Type} {view : Journal → β}
    (hview : ∀ e j, Reading tokens e → view (e :: j) = view j) (h : ∀ e ∈ events, Reading tokens e) :
    view (events ++ j) = view j := by
  induction events with
  | nil => rfl
  | cons e rest ih =>
    exact (hview e _ (h e List.mem_cons_self)).trans (ih fun e he => h e (List.mem_cons_of_mem _ he))

theorem types_append_of_reading (h : ∀ e ∈ events, Reading tokens e) : types (events ++ j) = j.types := by
  refine append_of_reading (fun e j he => ?_) h
  cases e with
  | evaluating | read => rfl
  | _ => exact he.elim

theorem functionMarks_append_of_reading (h : ∀ e ∈ events, Reading tokens e) :
    functionMarks (events ++ j) = j.functionMarks := by
  refine append_of_reading (fun e j he => ?_) h
  cases e with
  | evaluating | read => rfl
  | _ => exact he.elim

theorem uses_append_of_reading (j : Journal) (h : ∀ e ∈ events, Reading tokens e) :
    ∃ names, (∀ name ∈ names, ∃ t ∈ tokens, t.isIdentifier ∧ t.text = name) ∧
      Mark.uses (variableMarks (events ++ j)) = Mark.markUsed names (Mark.uses j.variableMarks) := by
  induction events with
  | nil => exact ⟨[], by simp, (Mark.markUsed_of_not_mem (by simp)).symm⟩
  | cons e rest ih =>
    obtain ⟨names, hnames, huses⟩ := ih fun e he => h e (List.mem_cons_of_mem _ he)
    have he := h e List.mem_cons_self
    cases e with
    | evaluating => exact ⟨names, hnames, huses⟩
    | read name =>
      refine ⟨name :: names, List.forall_mem_cons.mpr ⟨he, hnames⟩, ?_⟩
      change (Mark.uses (variableMarks (rest ++ j))).modify name _ = _
      rw [Mark.modify_used (Mark.nodup_keys_uses _), huses, Mark.markUsed_markUsed]
    | _ => exact he.elim

end Journal

/-- All that has happened from one state to the other is that expressions have read names among some
tokens. -/
structure State.Perused (tokens : List Token) (s t : State) : Prop where
  scope : t.scope = s.scope
  logs : t.logs = s.logs
  journal : ∃ events, t.journal = events ++ s.journal ∧ ∀ e ∈ events, Journal.Reading tokens e

namespace State.Perused

variable {tokens : List Token} {s t u : State}

theorem refl (s : State) : s.Perused tokens s := ⟨rfl, rfl, [], rfl, by simp⟩

theorem trans (h : s.Perused tokens t) (h' : t.Perused tokens u) : s.Perused tokens u := by
  obtain ⟨events, hevents, hreading⟩ := h.journal
  obtain ⟨later, hlater, hreading'⟩ := h'.journal
  refine ⟨h'.scope.trans h.scope, h'.logs.trans h.logs, later ++ events, ?_, fun e he => ?_⟩
  · rw [hlater, hevents, List.append_assoc]
  · exact (List.mem_append.mp he).elim (hreading' e) (hreading e)

theorem note {event : Event} (h : Journal.Reading tokens event) : s.Perused tokens (s.note event) :=
  ⟨rfl, rfl, [event], rfl, by simpa using h⟩

end State.Perused

def Run.Peruses {α : Type} (tokens : List Token) (x : Run α) : Prop := ∀ s : State, s.Perused tokens (x.run s).2

namespace Run.Peruses

variable {α β : Type} {tokens : List Token}

theorem ret (a : α) : (pure a : Run α).Peruses tokens := State.Perused.refl

theorem stop (fault : Fault) : (fail fault : Run α).Peruses tokens := State.Perused.refl

theorem lookup (name : String) : (lookup? name : Run (Option Binding)).Peruses tokens := State.Perused.refl

theorem note {event : Event} (h : Journal.Reading tokens event) : (note event : Run Unit).Peruses tokens :=
  fun _ => .note h

theorem seq {x : Run α} {f : α → Run β} (hx : x.Peruses tokens) (hf : ∀ a, (f a).Peruses tokens) :
    (x >>= f).Peruses tokens :=
  fun s => run_bind_trans (R := State.Perused tokens) State.Perused.trans (hx s) hf

theorem tokenText {t : Token} (h : t ∈ tokens) : (tokenText t : Run (List Char)).Peruses tokens := by
  unfold Statement.tokenText
  split
  · rename_i hkind
    refine seq (lookup t.text) fun binding => ?_
    cases binding with
    | none => exact stop _
    | some binding =>
      refine seq (note ⟨t, h, by simp [Token.isIdentifier, hkind], rfl⟩) fun _ => ?_
      cases operandText? binding.toValue with
      | none => exact stop _
      | some text => exact ret text
  · exact ret _
  · exact ret _
  · exact ret _
  · exact stop _

theorem formulaText {part : List Token} (h : part ⊆ tokens) : (formulaText part : Run (List Char)).Peruses tokens := by
  induction part with
  | nil => exact ret []
  | cons t ts ih =>
    obtain ⟨ht, hts⟩ := List.cons_subset.mp h
    exact seq (tokenText ht) fun text => seq (ih hts) fun rest => ret (text ++ rest)

theorem evaluate (tokens : List Token) : (evaluate tokens : Run Value).Peruses tokens := by
  refine seq (note trivial) fun _ => seq (formulaText (List.Subset.refl tokens)) fun text => ?_
  split
  · exact ret _
  · exact stop _
  · exact stop _

theorem checkOperands (part : List Token) : (checkOperands part : Run Unit).Peruses tokens := by
  induction part with
  | nil => exact ret ()
  | cons t ts ih =>
    refine seq (lookup t.text) fun binding => ?_
    split
    · exact stop _
    · exact ih

theorem numberValue (text : String) : (numberValue text : Run Value).Peruses tokens := by
  unfold Statement.numberValue
  split
  · split
    · exact ret _
    · exact stop _
  · split
    · exact ret _
    · exact stop _
    · exact stop _

theorem assigned (tokens : List Token) : (assigned tokens : Run Value).Peruses tokens := by
  unfold Statement.assigned
  split
  · exact numberValue _
  · exact ret _
  · exact seq (checkOperands tokens) fun _ => evaluate tokens

end Run.Peruses

namespace Statement

variable {d : Dialect} {tokens : List Token} {s t : State} {fault : Fault}

theorem perused_of_assign (h : (assign d tokens : Run Unit).run s = (.error fault, t)) :
    s.Perused (tokens.drop 2) t := by
  unfold assign at h
  split at h
  · rename_i name line line' first rest
    have hright := Run.Peruses.assigned (first :: rest) s
    rcases hrun : (assigned (first :: rest) : Run Value).run s with ⟨result, u⟩
    rw [hrun] at hright
    cases result with
    | error other =>
      rw [run_bind_error hrun] at h
      cases h
      exact hright
    | ok v =>
      rw [run_bind_ok hrun] at h
      cases hrefused : refusal? d line name v u with
      | none =>
        rw [run_store_of_none hrefused] at h
        cases h
      | some other =>
        rw [run_store_of_some hrefused] at h
        cases h
        exact hright
  · cases h
    exact .refl s

/-- In every host, an assignment that keeps to the language and fails, in whatever state and for
whatever reason, leaves the table, the lines, the types and the uses of functions as they were. Of
the uses of variables it keeps the names, their order and the values; some of the names on its right
side may now count as used. -/
theorem failed_assign_keeps (h : Host) (d : Dialect) (tokens : List Token) (s t : State) (fault : Fault)
    (hcontained : Hosted.Contained d h (assign d tokens) s)
    (hfailed : (assign d tokens : Hosted d h Unit).run s = (.error fault, t)) :
    t.scope = s.scope ∧ t.logs = s.logs ∧ t.journal.types = s.journal.types ∧
      Mark.uses t.journal.functionMarks = Mark.uses s.journal.functionMarks ∧
        ∃ names, (∀ name ∈ names, ∃ u ∈ tokens.drop 2, u.isIdentifier ∧ u.text = name) ∧
          Mark.uses t.journal.variableMarks = Mark.markUsed names (Mark.uses s.journal.variableMarks) := by
  rw [(hosting.assign d h tokens).run_eq hcontained] at hfailed
  obtain ⟨closed, hclosed⟩ := Hosted.error_of_answer hfailed
  obtain ⟨hscope, hlogs, events, hjournal, hreading⟩ := perused_of_assign hclosed
  rw [hjournal]
  refine ⟨hscope, hlogs, Journal.types_append_of_reading hreading, ?_, Journal.uses_append_of_reading _ hreading⟩
  rw [Journal.functionMarks_append_of_reading hreading]

section Clash

def clash : State := (({} : State).put "x" (.str "a")).put "y" (.int 1)

def clashTokens : List Token :=
  [⟨.identifier, "x", 1⟩, ⟨.operator, "=", 1⟩, ⟨.identifier, "y", 1⟩, ⟨.operator, "+", 1⟩, ⟨.number, "1", 1⟩]

theorem failed_assign_keeps_of_clash :
    ∃ fault t, (assign .extended clashTokens : Hosted .extended .standard Unit).run clash = (.error fault, t) ∧
      t.scope = clash.scope ∧
      ((Mark.uses t.journal.variableMarks).entries.map fun entry => (entry.1, entry.2.used)) =
        [("x", false), ("y", true)] ∧
      ∃ names, (∀ name ∈ names, ∃ u ∈ clashTokens.drop 2, u.isIdentifier ∧ u.text = name) ∧
        Mark.uses t.journal.variableMarks = Mark.markUsed names (Mark.uses clash.journal.variableMarks) := by
  have hclosed : ((assign .extended clashTokens : Run Unit).run clash).1 =
        .error (.diagnostic (.typeChanged 1 "x" .string .number)) ∧
      ((assign .extended clashTokens : Hosted .extended .standard Unit).run clash).1.isOk = false ∧
      ((Mark.uses ((assign .extended clashTokens : Hosted .extended .standard Unit).run
        clash).2.journal.variableMarks).entries.map
        fun entry => (entry.1, entry.2.used)) = [("x", false), ("y", true)] := by
    decide +kernel
  obtain ⟨hwithin, hfails, hmarks⟩ := hclosed
  rcases hrun : (assign .extended clashTokens : Hosted .extended .standard Unit).run clash with ⟨result, t⟩
  rw [hrun] at hfails hmarks
  cases result with
  | ok => cases hfails
  | error fault =>
    obtain ⟨hscope, _, _, _, huses⟩ := failed_assign_keeps .standard .extended clashTokens clash t fault
      (.standard (by rw [hwithin]; decide)) hrun
    exact ⟨fault, t, rfl, hscope, hmarks, huses⟩

end Clash

/-- An expression that goes beyond the language can record a type and then fail. -/
theorem failed_assign_records_type :
    let tokens := [⟨.identifier, "x", 1⟩, ⟨.operator, "=", 1⟩] ++
      Reach.tokens ("+" ++ Reach.Place.types.text ++ ".update(z='number')")
    ((assign .extended tokens : Hosted .extended .standard Unit).run {}).1.isOk = false ∧
      ((assign .extended tokens : Hosted .extended .standard Unit).run {}).2.journal.types.keys = ["z"] := by
  decide +kernel

end Statement

end Bang
