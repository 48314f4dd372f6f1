import Bang.Proofs.Hosting
import Bang.Proofs.Watch

/-! Type soundness of the extended dialect. All scopes and all programs of a session share one record of
types, and parameters are bound without entering it. Still, at every point of a run, whatever call is in
progress, each variable of the program itself has the type that is recorded for its name: a scope holds all
the names of the scopes around it, and a type is recorded only for a name that the current scope lacks. -/

namespace Bang

open Machine Statement

def Table.HasType (table : Table) (name : String) (type : ValueType) : Prop :=
  ∃ v, table.get? name = some (.value v) ∧ v.type? = some type

def Table.Keeps (earlier later : Table) : Prop :=
  ∀ name type, ¬ isReserved name → earlier.HasType name type → later.HasType name type

/-- Every variable of the program itself has a type, the one that is recorded for it. -/
def Point.Sound (p : Point) : Prop :=
  ∀ name, ¬ isReserved name → (p.main.get? name).isSome →
    ∃ type, p.main.HasType name type ∧ p.journal.types.get? name = some type

structure State.Advances (s t : State) : Prop where
  names : ∀ name, (s.scope.get? name).isSome → (t.scope.get? name).isSome
  types : ∀ name, (s.scope.get? name).isSome → t.journal.typeOf? name = s.journal.typeOf? name
  stored : ∀ name, ¬ isReserved name → t.scope.get? name = s.scope.get? name ∨
    ∃ type, t.scope.table.HasType name type ∧ t.journal.typeOf? name = some type

namespace Scope

variable (scope : Scope) {name : String}

theorem isSome_bind (other : String) (v : Value) (h : (scope.get? name).isSome) :
    ((scope.bind other v).get? name).isSome := by
  by_cases heq : name = other
  · subst heq
    rw [get?_bind_self]
    rfl
  · rwa [scope.get?_bind_of_ne heq]

theorem isSome_withFunctions (ns : Namespace) (h : (scope.get? name).isSome) :
    ((scope.withFunctions ns).get? name).isSome := by
  by_cases heq : name = functionsName
  · subst heq
    exact Option.isSome_iff_exists.mpr ⟨_, scope.table.get?_insert_self functionsName _⟩
  · rwa [scope.get?_withFunctions_of_ne ns heq]

theorem isSome_enter (arguments : List (String × Value)) (h : (scope.get? name).isSome) :
    ((scope.enter arguments).get? name).isSome := by
  unfold enter
  have hstart : (get? { table := scope.table } name).isSome := h
  generalize ({ table := scope.table } : Scope) = callee at hstart
  induction arguments generalizing callee with
  | nil => exact hstart
  | cons argument rest ih => exact ih _ (callee.isSome_bind argument.1 argument.2 hstart)

theorem isSome_leave (callee : Scope) (h : (scope.get? name).isSome) :
    ((scope.leave callee).get? name).isSome := by
  unfold leave
  split
  · exact scope.isSome_withFunctions _ h
  · exact h

theorem get?_leave_of_ne (callee : Scope) (h : name ≠ functionsName) :
    (scope.leave callee).get? name = scope.get? name := by
  unfold leave
  split
  · exact scope.get?_withFunctions_of_ne _ h
  · rfl

end Scope

namespace Table

variable {a b c : Table} {name : String} {type other : ValueType}

theorem Keeps.refl (a : Table) : a.Keeps a := fun _ _ _ h => h

theorem Keeps.trans (h : a.Keeps b) (h' : b.Keeps c) : a.Keeps c :=
  fun name type hname ha => h' name type hname (h name type hname ha)

theorem HasType.isSome (h : a.HasType name type) : (a.get? name).isSome := by
  obtain ⟨v, hv, _⟩ := h
  rw [hv]
  rfl

theorem HasType.unique (h : a.HasType name type) (h' : a.HasType name other) : type = other := by
  obtain ⟨v, hv, htype⟩ := h
  obtain ⟨w, hw, hother⟩ := h'
  obtain rfl : v = w := Binding.value.inj (Option.some.inj (hv.symm.trans hw))
  exact Option.some.inj (htype.symm.trans hother)

theorem HasType.congr (heq : b.get? name = a.get? name) (h : a.HasType name type) : b.HasType name type := by
  obtain ⟨v, hv, htype⟩ := h
  exact ⟨v, heq.trans hv, htype⟩

theorem keeps_of_get? (h : ∀ name, ¬ isReserved name → b.get? name = a.get? name) : a.Keeps b :=
  fun name _ hname ha => ha.congr (h name hname)

end Table

namespace Point

variable {p q : Point}

theorem Sound.typeOf? (h : p.Sound) {name : String} (hname : ¬ isReserved name) {type : ValueType}
    (htype : p.main.HasType name type) : p.journal.typeOf? name = some type := by
  obtain ⟨type', htype', hrecorded⟩ := h name hname htype.isSome
  rw [htype.unique htype', ← Journal.get?_types, hrecorded]

theorem Sound.congr (h : p.Sound) (hmain : ∀ name, ¬ isReserved name → q.main.get? name = p.main.get? name)
    (htypes : ∀ name, ¬ isReserved name → (p.main.get? name).isSome →
      q.journal.typeOf? name = p.journal.typeOf? name) : q.Sound := by
  intro name hname hsome
  rw [hmain name hname] at hsome
  obtain ⟨type, htype, hrecorded⟩ := h name hname hsome
  refine ⟨type, htype.congr (hmain name hname), ?_⟩
  rw [Journal.get?_types, htypes name hname hsome, ← Journal.get?_types, hrecorded]

end Point

namespace State.Advances

variable {s t : State}

theorem sound (h : s.Advances t) (hs : Point.Sound ⟨s.scope.table, s.journal⟩) :
    Point.Sound ⟨t.scope.table, t.journal⟩ := by
  intro name hname hsome
  rcases h.stored name hname with heq | ⟨type, htype, hrecorded⟩
  · have hold : (s.scope.get? name).isSome := heq ▸ hsome
    obtain ⟨type, htype, hrecorded⟩ := hs name hname hold
    refine ⟨type, htype.congr heq, ?_⟩
    rw [Journal.get?_types] at hrecorded ⊢
    exact (h.types name hold).trans hrecorded
  · exact ⟨type, htype, (Journal.get?_types _ _).trans hrecorded⟩

theorem keeps (h : s.Advances t) (hs : Point.Sound ⟨s.scope.table, s.journal⟩) :
    s.scope.table.Keeps t.scope.table := by
  intro name type hname htype
  rcases h.stored name hname with heq | ⟨type', htype', hrecorded'⟩
  · exact htype.congr heq
  · have hrecorded : s.journal.typeOf? name = some type := hs.typeOf? hname htype
    rw [h.types name htype.isSome, hrecorded] at hrecorded'
    rwa [Option.some.inj hrecorded']

theorem log (s : State) (line : String) : s.Advances (s.log line) :=
  ⟨fun _ h => h, fun _ _ => rfl, fun _ _ => .inl rfl⟩

theorem note (s : State) {event : Event} (h : ∀ name, Journal.typeGiven? name event = none) :
    s.Advances (s.note event) where
  names _ hsome := hsome
  types name _ := by
    change Journal.typeOf? (event :: s.journal) name = _
    rw [Journal.typeOf?_cons, h, Option.none_or]
  stored _ _ := .inl rfl

theorem declare (s : State) (name : String) (f : Function) (ns : Namespace) :
    s.Advances (s.declare name f ns) where
  names _ hsome := s.scope.isSome_withFunctions ns hsome
  types other _ := by
    change Journal.typeOf? (_ :: s.journal) other = _
    rw [Journal.typeOf?_cons]
    rfl
  stored other hother := .inl (s.scope.get?_withFunctions_of_ne ns fun h => hother (.inl h))

theorem put {name : String} {v : Value} {type : ValueType} (htype : v.type? = some type)
    (hold : (s.scope.get? name).isSome → s.journal.typeOf? name = some type) : s.Advances (s.put name v) := by
  have hother : ∀ other, other ≠ name → (s.put name v).journal.typeOf? other = s.journal.typeOf? other := by
    intro other hne
    change Journal.typeOf? (_ :: s.journal) other = _
    rw [Journal.typeOf?_cons]
    split <;> simp [Journal.typeGiven?, hne]
  have hknown : (s.scope.get? name).isSome → (s.put name v).journal.typeOf? name = s.journal.typeOf? name := by
    intro hsome
    change Journal.typeOf? (_ :: s.journal) name = _
    rw [if_pos hsome, Journal.typeOf?_cons]
    rfl
  refine ⟨fun _ hsome => s.scope.isSome_bind name v hsome, fun other hsome => ?_, fun other hreserved => ?_⟩
  · by_cases h : other = name
    · subst h
      exact hknown hsome
    · exact hother other h
  · by_cases h : other = name
    · subst h
      right
      refine ⟨type, ⟨v, ?_, htype⟩, ?_⟩
      · have hvalue : Binding.ofValue other v = .value v := Binding.ofValue_of_ne (fun h => hreserved (.inl h)) v
        exact (s.scope.get?_bind_self other v).trans (congrArg some hvalue)
      · by_cases hsome : (s.scope.get? other).isSome
        · rw [hknown hsome, hold hsome]
        · change Journal.typeOf? (_ :: s.journal) other = _
          rw [if_neg hsome, Journal.typeOf?_cons]
          simp [Journal.typeGiven?, htype]
    · exact .inl (s.scope.get?_bind_of_ne h v)

end State.Advances

/-! ### Along a run -/

structure Watched.Sound (w : Watched) : Prop where
  nested : ∀ scope ∈ w.state.scope :: w.callers, ∀ name,
    (w.main.get? name).isSome → (scope.get? name).isSome
  current : w.point.Sound
  latest : w.points.head? = some w.point
  passed : ∀ p ∈ w.points, p.Sound
  kept : ∀ p ∈ w.points, p.main.Keeps w.main.table
  ordered : w.points.Pairwise fun later earlier => earlier.main.Keeps later.main

namespace Watched.Sound

variable {w v : Watched}

theorem step (h : w.Sound) (hpoints : v.points = w.points)
    (hnested : ∀ scope ∈ v.state.scope :: v.callers, ∀ name,
      (v.main.get? name).isSome → (scope.get? name).isSome)
    (hcurrent : v.point.Sound) (hkeeps : w.main.table.Keeps v.main.table) : v.pass.Sound := by
  have hkept : ∀ p ∈ v.points, p.main.Keeps v.main.table :=
    fun p hp => (h.kept p (hpoints ▸ hp)).trans hkeeps
  refine ⟨hnested, hcurrent, rfl, fun p hp => ?_, fun p hp => ?_, ?_⟩
  · rcases List.mem_cons.mp hp with rfl | hp
    · exact hcurrent
    · exact h.passed p (hpoints ▸ hp)
  · rcases List.mem_cons.mp hp with rfl | hp
    · exact .refl _
    · exact hkept p hp
  · exact List.pairwise_cons.mpr ⟨hkept, hpoints ▸ h.ordered⟩

theorem update (h : w.Sound) {f : State → State} (hf : w.state.Advances (f w.state)) : (w.update f).Sound := by
  obtain ⟨s, callers, points⟩ := w
  cases callers with
  | nil =>
    refine step h rfl (fun scope hscope name hname => ?_) (hf.sound h.current) (hf.keeps h.current)
    rw [List.mem_singleton.mp hscope]
    exact hname
  | cons caller rest =>
    -- The scope of the program itself waits, so its names only need to keep their recorded types.
    refine step h rfl (fun scope hscope name hname => ?_) ?_ (.refl _)
    · rcases List.mem_cons.mp hscope with rfl | hscope
      · exact hf.names name (h.nested s.scope List.mem_cons_self name hname)
      · exact h.nested scope (List.mem_cons_of_mem _ hscope) name hname
    · exact h.current.congr (fun _ _ => rfl) fun name _ hname =>
        hf.types name (h.nested s.scope List.mem_cons_self name hname)

theorem main_enter (w : Watched) (arguments : List (String × Value)) : (w.enter arguments).main = w.main :=
  List.getLastD_cons ..

theorem enter (h : w.Sound) (arguments : List (String × Value)) : (w.enter arguments).Sound := by
  have hmain := main_enter w arguments
  refine step h rfl (fun scope hscope name hname => ?_) ?_ ?_
  · replace hname : (w.main.get? name).isSome := hmain ▸ hname
    rcases List.mem_cons.mp hscope with rfl | hscope
    · exact w.state.scope.isSome_enter arguments (h.nested w.state.scope List.mem_cons_self name hname)
    · exact h.nested scope hscope name hname
  · exact h.current.congr (fun name _ => congrArg (Scope.get? · name) hmain) fun _ _ _ => rfl
  · exact Table.keeps_of_get? fun name _ => congrArg (Scope.get? · name) hmain

theorem leave (hv : v.Sound) (hcallers : v.callers = w.state.scope :: w.callers) : (w.leave v).Sound := by
  obtain ⟨t, callers, points⟩ := v
  obtain rfl : callers = w.state.scope :: w.callers := hcallers
  obtain ⟨s, outer, _⟩ := w
  cases outer with
  | nil =>
    have hmain : ∀ name, ¬ isReserved name → (s.scope.leave t.scope).get? name = s.scope.get? name :=
      fun name hname => s.scope.get?_leave_of_ne t.scope fun h => hname (.inl h)
    refine step hv rfl (fun scope hscope name hname => ?_) ?_ (Table.keeps_of_get? hmain)
    · rw [List.mem_singleton.mp hscope]
      exact hname
    · exact hv.current.congr hmain fun _ _ _ => rfl
  | cons caller rest =>
    refine step hv rfl (fun scope hscope name hname => ?_) ?_ (.refl _)
    · rcases List.mem_cons.mp hscope with rfl | hscope
      · exact s.scope.isSome_leave t.scope (hv.nested s.scope (by simp) name hname)
      · exact hv.nested scope (List.mem_cons_of_mem _ (List.mem_cons_of_mem _ hscope)) name hname
    · exact hv.current.congr (fun _ _ => rfl) fun _ _ _ => rfl

end Watched.Sound

def Watch.Safe {α : Type} (x : Watch α) : Prop :=
  ∀ w, w.Sound → (x.run w).2.Sound ∧ (x.run w).2.callers = w.callers

def safety : Simulation Watch Watch where
  Rel x _ := Watch.Safe x
  ret _ _ h := ⟨h, rfl⟩
  seq {_ _ x _ f _} hx hf w hw := by
    obtain ⟨hv, hcallers⟩ := hx w hw
    rcases h : x.run w with ⟨result, v⟩
    rw [h] at hv hcallers
    cases result with
    | error fault =>
      rw [Run.run_bind_error h]
      exact ⟨hv, hcallers⟩
    | ok a =>
      rw [Run.run_bind_ok h]
      obtain ⟨hu, hcallers'⟩ := hf a v hv
      exact ⟨hu, hcallers'.trans hcallers⟩
  stop _ _ _ h := ⟨h, rfl⟩

namespace safety

theorem change {f : State → State} (hf : ∀ s : State, s.Advances (f s)) :
    Watch.Safe (change f : Watch Unit) :=
  fun w hw => ⟨hw.update (hf w.state), rfl⟩

theorem lookup (name : String) : Watch.Safe (lookup? name : Watch (Option Binding)) := fun _ hw => ⟨hw, rfl⟩

theorem store (line : Int) (name : String) (v : Value) :
    Watch.Safe (store .extended line name v : Watch Unit) := by
  intro w hw
  unfold Statement.store
  rw [Run.run_bind_ok (Watch.run_state w)]
  cases hrefused : refusal? .extended line name v w.state with
  | some fault => exact ⟨hw, rfl⟩
  | none =>
    obtain ⟨type, htype, hold⟩ := refusal?_extended_eq_none.mp hrefused
    exact ⟨hw.update (.put htype hold), rfl⟩

theorem leaves : safety.Leaves .extended .extended (fun _ => True) where
  lookup t _ := lookup t.text
  note event hpassing := by
    refine change fun s => .note s fun name => ?_
    cases event <;> first | rfl | cases hpassing
  beyond _ := safety.stop _ fun _ => rfl
  log line := change fun s => .log s line
  store t _ v := store t.line t.text v

theorem finishCall (name : String) : Watch.Safe (finishCall name : Watch Unit) := by
  intro w hw
  unfold Statement.finishCall
  rw [Run.run_bind_ok (Watch.run_state w)]
  cases w.state.journal.isDeclared name with
  | true => exact ⟨hw.update (.note w.state fun _ => rfl), rfl⟩
  | false => exact ⟨hw, rfl⟩

theorem callLeaves : safety.CallLeaves (fun _ => True) := by
  refine .of_lookup (lookup functionsName) (fun name f ns => change fun s => .declare s name f ns)
    finishCall ?_
  intro arguments body _ hbody w hw
  obtain ⟨hv, hcallers⟩ := hbody (w.enter arguments) (hw.enter arguments)
  rw [Watch.run_inCall]
  exact ⟨hv.leave hcallers, rfl⟩

end safety

namespace Program

theorem sound_start (s : State) : (Watched.pass { state := start .extended s }).Sound := by
  have hsound : Point.Sound ⟨initialTable .extended, s.journal⟩ := by
    intro name hname hsome
    rw [get?_initialTable hname] at hsome
    cases hsome
  refine ⟨fun scope hscope name hname => ?_, hsound, rfl, fun p hp => ?_, fun p hp => ?_, ?_⟩
  · rw [List.mem_singleton.mp hscope]
    exact hname
  · rw [List.mem_singleton.mp hp]
    exact hsound
  · rw [List.mem_singleton.mp hp]
    exact .refl _
  · exact List.pairwise_singleton _ _

theorem sound_watch (limits : Limits) (tokens : List Token) (s : State) :
    (watch .extended limits tokens s).2.Sound ∧ (watch .extended limits tokens s).2.callers = [] :=
  Simulation.program safety.leaves safety.callLeaves (.inl rfl) (.inl rfl) tokens _ (sound_start s)

theorem getLast?_points {limits : Limits} {code : String} {s : State} {tokens : List Token}
    (h : Token.tokenize .extended code = .ok tokens) :
    ∃ p, (points .extended limits code s).getLast? = some p ∧
      p.journal = (run .extended limits code s).2.journal ∧
        ((run .extended limits code s).1.result = .ok () → p.main = (run .extended limits code s).2.scope.table) := by
  obtain ⟨hsound, hcallers⟩ := sound_watch limits tokens { s with logs := [] }
  have hrun := (watch_eq_run .extended limits tokens { s with logs := [] }).symm
  simp only [points, h, List.getLast?_reverse]
  generalize (watch .extended limits tokens { s with logs := [] }) = watched at hsound hcallers hrun ⊢
  obtain ⟨result, w⟩ := watched
  -- All calls have ended, so the current scope is that of the program itself.
  have hmain : w.main = w.state.scope := by
    unfold Watched.main
    rw [hcallers]
    rfl
  refine ⟨w.point, hsound.latest, ?_⟩
  cases result with
  | ok =>
    rw [run_of_ok h hrun]
    exact ⟨rfl, fun _ => congrArg Scope.table hmain⟩
  | error fault =>
    rw [run_of_error h hrun]
    refine ⟨rfl, fun hok => ?_⟩
    cases hok

/-- A run of the extended dialect that keeps to the language passes the same points in every host.
Whatever the session did before, at each of them every variable of the program itself has the type
that is recorded for it; and it keeps that type to the end of the run. -/
theorem variables_keep_recorded_types (h : Host) (limits : Limits) (code : String) (s : State)
    (hcontained : Contained h .extended limits code s) :
    (∀ p ∈ points .extended limits code s, p.Sound) ∧
      (points .extended limits code s).Pairwise (fun earlier later => earlier.main.Keeps later.main) ∧
        ∀ tokens, Token.tokenize .extended code = .ok tokens →
          ∃ p, (points .extended limits code s).getLast? = some p ∧
            p.journal = (runOn h .extended limits code s).2.journal ∧
              ((runOn h .extended limits code s).1.result = .ok () →
                p.main = (runOn h .extended limits code s).2.scope.table) := by
  refine ⟨fun p hp => ?_, ?_, fun tokens htokens => ?_⟩
  · unfold points at hp
    split at hp
    · cases hp
    · exact (sound_watch limits _ _).1.passed p (List.mem_reverse.mp hp)
  · unfold points
    split
    · exact .nil
    · exact List.pairwise_reverse.mpr (sound_watch limits _ _).1.ordered
  · obtain ⟨p, hlast, hjournal, hmain⟩ := getLast?_points htokens
    rw [runOn_eq hcontained]
    exact ⟨p, hlast, hjournal, fun hok => hmain (ok_of_told hok)⟩

theorem keep_recorded_types_of_call :
    let code := "INICIO x=1! func f(x)\x7b z=x! \x7d f(\"a\")! x=x+1! FIN"
    (runOn .standard .extended ⟨9, 9⟩ code {}).1.result.isOk ∧
      (∀ p ∈ points .extended ⟨9, 9⟩ code {}, p.Sound) ∧
        (points .extended ⟨9, 9⟩ code {}).Pairwise fun earlier later => earlier.main.Keeps later.main := by
  intro code
  have hok : (run .extended ⟨9, 9⟩ code {}).1.result.isOk ∧
      (runOn .standard .extended ⟨9, 9⟩ code {}).1.result.isOk := by
    decide +kernel
  obtain ⟨hsound, hkept, _⟩ :=
    variables_keep_recorded_types .standard ⟨9, 9⟩ code {} (.standard (Hosted.ne_beyond_of_isOk hok.1))
  exact ⟨hok.2, hsound, hkept⟩

/-- An expression can write into the record of types. -/
theorem recorded_type_changed :
    let code := "INICIO x=1! y=" ++ Reach.expression ("==" ++ Reach.Place.types.text ++ ".update(x='string')") ++
      "! FIN"
    (runOn .standard .extended ⟨5, 5⟩ code {}).2.journal.types.get? "x" = some .string ∧
      ((runOn .standard .extended ⟨5, 5⟩ code {}).2.scope.table.get? "x").bind (·.toValue.type?) = some .number := by
  decide +kernel

end Program

end Bang
