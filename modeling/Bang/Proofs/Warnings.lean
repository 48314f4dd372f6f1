import Bang.Proofs.Hosting
import Bang.Proofs.Leftover
import Bang.Proofs.Scopes
import Bang.Proofs.Usage

/-! What the report of unused variables says about a run. The report goes by names. A name is in it if it was created
and no expression has read it since, so that in a program without functions it has exactly the names that no
expression ever reads. With functions a name can be created again once the scope that had it has ended; only then is
a name reported that was read where it had been assigned. -/

namespace Bang

open Statement

namespace Journal

variable {j later before : Journal} {event : Event} {name : String}

def assignedNames (j : Journal) : List String := (j.reverse.filterMap Event.assigned?).eraseDups

theorem mem_assignedNames : name ∈ j.assignedNames ↔ ∃ e ∈ j, e.assigned? = some name := by
  simp [assignedNames]

theorem assignedNames_of_none (h : event.assigned? = none) (j : Journal) :
    assignedNames (event :: j) = j.assignedNames := by
  simp [assignedNames, h]

theorem assignedNames_of_some (h : event.assigned? = some name) (j : Journal) :
    assignedNames (event :: j) = if name ∈ j.assignedNames then j.assignedNames else j.assignedNames ++ [name] := by
  have hnames : (event :: j).reverse.filterMap Event.assigned? = j.reverse.filterMap Event.assigned? ++ [name] := by
    simp [h]
  unfold assignedNames
  rw [hnames, eraseDups_concat]

theorem assignedNames_eq_keys
    (h : ∀ later name v before, j = later ++ .updated name v :: before → ∃ w, .created name w ∈ before) :
    j.assignedNames = (Mark.uses j.variableMarks).keys := by
  induction j with
  | nil => rfl
  | cons event j ih =>
    have hj := ih fun later name v before hsplit => h (event :: later) name v before (congrArg (event :: ·) hsplit)
    cases event with
    | created name v =>
      change _ = ((Mark.uses (variableMarks j)).insert name _).keys
      rw [assignedNames_of_some rfl, Assoc.keys_insert, hj]
    | updated name v =>
      obtain ⟨w, hcreated⟩ := h [] name v j rfl
      have hknown : name ∈ assignedNames j := mem_assignedNames.mpr ⟨_, hcreated, rfl⟩
      rw [assignedNames_of_some rfl, if_pos hknown]
      exact hj
    | read name =>
      change _ = ((Mark.uses (variableMarks j)).modify name _).keys
      rw [assignedNames_of_none rfl, Assoc.keys_modify, hj]
    | _ => exact (assignedNames_of_none rfl j).trans hj

theorem mem_unusedVariables : name ∈ j.unusedVariables ↔
    isInternal name = false ∧ ∃ later v before, j = later ++ .created name v :: before ∧ .read name ∉ later := by
  rw [unusedVariables, Mark.mem_unused_iff_idle, Bool.not_eq_true']
  refine and_congr_right fun _ => ⟨?_, ?_⟩
  · rintro ⟨marks, v, earlier, hmarks, hused⟩
    obtain ⟨later, rest, rfl, rfl, hrest⟩ := List.filterMap_eq_append_iff.mp hmarks
    obtain ⟨quiet, event, before, rfl, hquiet, hmark, rfl⟩ := List.filterMap_eq_cons_iff.mp hrest
    cases event with
    | created other w =>
      obtain ⟨rfl, rfl⟩ := Mark.opened.inj (Option.some.inj hmark)
      refine ⟨later ++ quiet, w, before, (List.append_assoc ..).symm, fun hread => ?_⟩
      rcases List.mem_append.mp hread with hread | hread
      · exact hused (List.mem_filterMap.mpr ⟨_, hread, rfl⟩)
      · cases hquiet _ hread
    | _ => cases hmark
  · rintro ⟨later, v, before, rfl, hread⟩
    refine ⟨variableMarks later, v, variableMarks before, variableMarks_append .., fun hused => hread ?_⟩
    obtain ⟨event, hevent, hmark⟩ := List.mem_filterMap.mp hused
    cases event with
    | read other =>
      obtain rfl := Mark.used.inj (Option.some.inj hmark)
      exact hevent
    | _ => cases hmark

theorem Written.mem_unusedVariables (h : Written j) : name ∈ j.unusedVariables ↔
    isInternal name = false ∧
      ∃ later v before, j = later ++ .created name v :: before ∧ ∀ e ∈ later, e.mentions name = false := by
  rw [Journal.mem_unusedVariables]
  refine and_congr_right fun _ => ?_
  refine exists_congr fun later => exists_congr fun v => exists_congr fun before => ?_
  refine and_congr_right fun hsplit => ?_
  rw [hsplit] at h
  rw [(h.of_assigned rfl).2.2 name]
  simp

theorem Written.created_of_updated (h : Written j) (later : Journal) (name : String) (v : Value) (before : Journal)
    (hsplit : j = later ++ .updated name v :: before) : ∃ w, .created name w ∈ before := by
  rw [hsplit] at h
  exact (h.of_assigned rfl).2.1

theorem Written.created_of_assigned (h : Written j) (hname : name ∈ j.assignedNames) : ∃ v, .created name v ∈ j := by
  obtain ⟨event, hevent, hassigned⟩ := mem_assignedNames.mp hname
  cases event with
  | created other v => exact ⟨v, Option.some.inj hassigned ▸ hevent⟩
  | updated other v =>
    obtain ⟨later, before, rfl⟩ := List.append_of_mem hevent
    obtain ⟨w, hw⟩ := h.created_of_updated later other v before rfl
    exact ⟨w, Option.some.inj hassigned ▸ List.mem_append_right later (List.mem_cons_of_mem _ hw)⟩
  | _ => cases hassigned

theorem Written.unusedVariables_eq_filter (h : Written j) :
    j.unusedVariables = j.assignedNames.filter (· ∈ j.unusedVariables) := by
  have hfilter : Mark.unused (!isInternal ·) j.variableMarks = _ := Mark.unused_eq_filter j.variableMarks
  rw [assignedNames_eq_keys h.created_of_updated]
  refine hfilter.trans (List.filter_congr fun name hname => ?_)
  rw [Bool.eq_iff_iff, decide_eq_true_iff, unusedVariables, hfilter, List.mem_filter]
  exact (and_iff_right hname).symm

theorem isInternal_of_isReserved (h : isReserved name) : isInternal name = true := by
  rcases h with rfl | rfl <;> decide

theorem Written.mentions_before_created {v : Value} (h : Written (later ++ .created name v :: before))
    (hinternal : isInternal name = false) (hcalls : ∀ callee, .entered callee ∉ before) :
    ∀ e ∈ before, e.mentions name = false := by
  intro e he
  by_contra hmentions
  obtain ⟨hbefore, hadmits, _⟩ := h.of_assigned rfl
  obtain ⟨names, hframes, hcreated⟩ := hbefore.frames_of_no_call hcalls
  obtain ⟨behind, earlier, rfl⟩ := List.append_of_mem he
  rcases hbefore.knows_of_mentions (Bool.eq_true_of_not_eq_false hmentions) with hreserved | ⟨w, hw⟩ | ⟨callee, hcallee⟩
  · rw [isInternal_of_isReserved hreserved] at hinternal
    cases hinternal
  · have hassigned : name ∈ names := hcreated name w (List.mem_append_right behind (List.mem_cons_of_mem e hw))
    exact hadmits names (hframes ▸ List.mem_singleton_self names) hassigned
  · exact hcalls callee (List.mem_append_right behind (List.mem_cons_of_mem e hcallee))

theorem Written.mem_unusedVariables_of_no_call (h : Written j) (hcalls : ∀ callee, .entered callee ∉ j) :
    name ∈ j.unusedVariables ↔
      isInternal name = false ∧ name ∈ j.assignedNames ∧ ∀ e ∈ j, e.mentions name = false := by
  rw [h.mem_unusedVariables]
  refine and_congr_right fun hinternal => ⟨?_, ?_⟩
  · rintro ⟨later, v, before, rfl, hquiet⟩
    refine ⟨mem_assignedNames.mpr ⟨_, List.mem_append_right later List.mem_cons_self, rfl⟩, fun e he => ?_⟩
    rcases List.mem_append.mp he with he | he
    · exact hquiet e he
    · rcases List.mem_cons.mp he with rfl | he
      · rfl
      · exact h.mentions_before_created hinternal
          (fun callee hmem => hcalls callee (List.mem_append_right later (List.mem_cons_of_mem _ hmem))) e he
  · rintro ⟨hassigned, hquiet⟩
    obtain ⟨v, hcreated⟩ := h.created_of_assigned hassigned
    obtain ⟨later, before, rfl⟩ := List.append_of_mem hcreated
    exact ⟨later, v, before, rfl, fun e he => hquiet e (List.mem_append_left _ he)⟩

theorem cut_cases {after earlier : Journal} {other : Event} (h : later ++ event :: before = after ++ other :: earlier)
    (hne : event ≠ other) :
    event ∈ after ∨ ∃ between, later = after ++ other :: between ∧ earlier = between ++ event :: before := by
  rcases List.append_eq_append_iff.mp h with ⟨part, rfl, hpart⟩ | ⟨part, rfl, hpart⟩
  · cases part with
    | nil => exact absurd (List.cons.inj hpart).1 hne
    | cons first rest =>
      obtain ⟨rfl, _⟩ := List.cons.inj hpart
      exact .inl (List.mem_append_right later List.mem_cons_self)
  · cases part with
    | nil => exact absurd (List.cons.inj hpart).1.symm hne
    | cons first between =>
      obtain ⟨rfl, rfl⟩ := List.cons.inj hpart
      exact .inr ⟨between, rfl, rfl⟩

/-- Some expression had the name in a scope in which the name had been assigned. -/
def readsAssigned (name : String) : Journal → Bool
  | [] => false
  | event :: before => event.mentions name && ((frames before).headD []).contains name || readsAssigned name before

theorem readsAssigned_iff : readsAssigned name j ↔
    ∃ later event before, j = later ++ event :: before ∧ event.mentions name ∧ name ∈ (frames before).headD [] := by
  induction j with
  | nil => simp [readsAssigned]
  | cons first rest ih =>
    rw [readsAssigned, Bool.or_eq_true, ih, Bool.and_eq_true, List.contains_iff_mem]
    constructor
    · rintro (⟨hread, hassigned⟩ | ⟨later, event, before, rfl, hread, hassigned⟩)
      · exact ⟨[], first, rest, rfl, hread, hassigned⟩
      · exact ⟨first :: later, event, before, rfl, hread, hassigned⟩
    · rintro ⟨later, event, before, heq, hread, hassigned⟩
      cases later with
      | nil =>
        obtain ⟨rfl, rfl⟩ := List.cons.inj heq
        exact .inl ⟨hread, hassigned⟩
      | cons _ later =>
        obtain ⟨_, rfl⟩ := List.cons.inj heq
        exact .inr ⟨later, event, before, rfl, hread, hassigned⟩

end Journal

namespace Program

open Journal

variable {limits : Limits} {code : String}

theorem written_of_ok (hok : (run .extended limits code {}).1.result.isOk) :
    (run .extended limits code {}).2.journal.Written :=
  ((course_of_ok hok).accounted accounted_start).written

/-- In every host, a program without functions that keeps to the language has exactly those names in
its report that were assigned and that no expression had. -/
theorem unusedVariables_exact (h : Host) {tokens : List Token} (htokens : Token.tokenize .extended code = .ok tokens)
    (hfunc : ∀ t ∈ tokens, t.text ≠ "func") (hcontained : Contained h .extended limits code {})
    (hok : (runOn h .extended limits code {}).1.result.isOk) :
    (runOn h .extended limits code {}).2.journal.unusedVariables =
      (runOn h .extended limits code {}).2.journal.assignedNames.filter fun name =>
        !isInternal name && !(runOn h .extended limits code {}).2.journal.any (·.mentions name) := by
  rw [isOk_runOn hcontained] at hok
  rw [snd_runOn hcontained]
  have hwritten := written_of_ok hok
  have hcalls := not_entered htokens hfunc hok
  refine hwritten.unusedVariables_eq_filter.trans (List.filter_congr fun name hname => ?_)
  rw [Bool.eq_iff_iff, decide_eq_true_iff, hwritten.mem_unusedVariables_of_no_call hcalls]
  simp [hname]

def countingLoop : String := "INICIO a=1! b=2! b=3! doFor(i=0;i<1;i=i+1)\x7bc=a!\x7d __d=4! FIN"

def countingLoopTokens : List Token := (Token.tokenize .extended countingLoop).toOption.getD []

theorem tokenize_countingLoop : Token.tokenize .extended countingLoop = .ok countingLoopTokens :=
  Token.tokenize_eq_getD (by decide +kernel)

theorem unusedVariables_exact_of_countingLoop :
    (runOn .standard .extended ⟨5, 5⟩ countingLoop {}).2.journal.assignedNames = ["a", "b", "i", "c", "__d"] ∧
      ((runOn .standard .extended ⟨5, 5⟩ countingLoop {}).2.journal.assignedNames.filter fun name =>
        !isInternal name && !(runOn .standard .extended ⟨5, 5⟩ countingLoop {}).2.journal.any (·.mentions name)) =
          ["b", "c"] := by
  have hfunc : ∀ t ∈ countingLoopTokens, t.text ≠ "func" := by decide +kernel
  have hrun : (run .extended ⟨5, 5⟩ countingLoop {}).1.result.isOk ∧
      (runOn .standard .extended ⟨5, 5⟩ countingLoop {}).1.result.isOk ∧
        (runOn .standard .extended ⟨5, 5⟩ countingLoop {}).2.journal.assignedNames = ["a", "b", "i", "c", "__d"] ∧
          (runOn .standard .extended ⟨5, 5⟩ countingLoop {}).2.journal.unusedVariables = ["b", "c"] := by
    decide +kernel
  obtain ⟨hclosed, hok, hassigned, hunused⟩ := hrun
  have hexact := unusedVariables_exact .standard tokenize_countingLoop hfunc
    (.standard (Hosted.ne_beyond_of_isOk hclosed)) hok
  exact ⟨hassigned, hexact.symm.trans hunused⟩

/-- An expression can clear the record of uses. -/
theorem uses_forgotten :
    let code := "INICIO x=1! y=" ++ Reach.expression ("==" ++ Reach.Place.variableUses.text ++ ".clear()") ++ "! FIN"
    (runOn .standard .extended ⟨5, 5⟩ code {}).1.result.isOk ∧
      (runOn .standard .extended ⟨5, 5⟩ code {}).2.journal.unusedVariables = ["y"] := by
  decide +kernel

/-- In every host, in a run that keeps to the language, a name that was read in the scope in which
it had been assigned is reported if and only if this scope has ended, the name was then created
again, and no expression has read it since. -/
theorem reported_after_read (h : Host) {name : String} {later before : Journal} {event : Event}
    (hcontained : Contained h .extended limits code {}) (hok : (runOn h .extended limits code {}).1.result.isOk)
    (hjournal : (runOn h .extended limits code {}).2.journal = later ++ event :: before)
    (hread : event.mentions name) (hassigned : name ∈ before.frames.headD []) :
    name ∈ (runOn h .extended limits code {}).2.journal.unusedVariables ↔
      isInternal name = false ∧ ∃ after v between, later = after ++ .created name v :: between ∧
        Ends (event :: before) between ∧ ∀ e ∈ after, e.mentions name = false := by
  rw [isOk_runOn hcontained] at hok
  rw [snd_runOn hcontained] at hjournal ⊢
  have hwritten := written_of_ok hok
  rw [hwritten.mem_unusedVariables]
  rw [hjournal] at hwritten ⊢
  refine and_congr_right fun _ => ⟨?_, ?_⟩
  · rintro ⟨after, v, earlier, hsplit, hquiet⟩
    have hne : event ≠ .created name v := by
      rintro rfl
      cases hread
    rcases cut_cases hsplit hne with hbehind | ⟨between, hlater, rfl⟩
    · exact absurd hread (Bool.eq_false_iff.mp (hquiet event hbehind))
    · refine ⟨after, v, between, hlater, ?_, hquiet⟩
      -- While the scope is open it has the name, which then cannot be created.
      by_contra hopen
      have hscope : name ∈ (frames (event :: before)).headD [] := by rwa [frames_of_mentions hread]
      obtain ⟨frame, hframe, hname⟩ := mem_frames_of_not_ends hscope hopen
      rw [hsplit] at hwritten
      exact (hwritten.of_assigned rfl).2.1 frame hframe hname
  · rintro ⟨after, v, between, rfl, _, hquiet⟩
    exact ⟨after, v, between ++ event :: before, List.append_assoc .., hquiet⟩

def reassigned : String := "INICIO func f()\x7bx=1! print(x)!\x7d f()! x=2! FIN"

theorem run_reassigned : (run .extended .standard reassigned {}).1.result.isOk ∧
    (runOn .standard .extended .standard reassigned {}).1.result.isOk ∧
      readsAssigned "x" (runOn .standard .extended .standard reassigned {}).2.journal ∧
        "x" ∈ (runOn .standard .extended .standard reassigned {}).2.journal.unusedVariables := by
  decide +kernel

theorem reported_after_read_of_reassigned :
    ∃ later event before, (runOn .standard .extended .standard reassigned {}).2.journal = later ++ event :: before ∧
      event.mentions "x" ∧ "x" ∈ (frames before).headD [] ∧
        ∃ after v between, later = after ++ .created "x" v :: between ∧ Ends (event :: before) between ∧
          ∀ e ∈ after, e.mentions "x" = false := by
  obtain ⟨hclosed, hok, hreads, hreported⟩ := run_reassigned
  obtain ⟨later, event, before, hjournal, hread, hassigned⟩ := readsAssigned_iff.mp hreads
  have hreport := (reported_after_read .standard (.standard (Hosted.ne_beyond_of_isOk hclosed)) hok hjournal hread
    hassigned).mp hreported
  exact ⟨later, event, before, hjournal, hread, hassigned, hreport.2⟩

theorem report_not_sound : ¬ ∀ limits code name, (runOn .standard .extended limits code {}).1.result.isOk →
    readsAssigned name (runOn .standard .extended limits code {}).2.journal →
      name ∉ (runOn .standard .extended limits code {}).2.journal.unusedVariables := by
  intro hsound
  obtain ⟨_, hok, hreads, hreported⟩ := run_reassigned
  exact hsound .standard reassigned "x" hok hreads hreported

end Program

end Bang
