import Bang.Proofs.Course
import Bang.Proofs.Typing

/-! What the journal tells about scopes. Entering and leaving functions opens and ends scopes, and the journal alone
says which names have been assigned in those that are open. Runs that end well write journals of a certain form: a
name is created only where no open scope has assigned it, and an expression reads all its names at once. -/

namespace Bang

open Machine Run Statement

namespace Event

def assigned? : Event → Option String
  | created name _ | updated name _ => some name
  | _ => none

def mentions (name : String) : Event → Bool
  | evaluating tokens => tokens.any fun t => t.isIdentifier && t.text == name
  | _ => false

end Event

namespace Journal

/-- The names assigned in each open scope, the innermost scope first. -/
def frames : Journal → List (List String)
  | [] => [[]]
  | .created name _ :: j | .updated name _ :: j => (frames j).modifyHead (name :: ·)
  | .entered _ :: j => [] :: frames j
  | .returned _ :: j => (frames j).tail
  | _ :: j => frames j

def Ends (earlier behind : Journal) : Prop :=
  ∃ part, part <:+ behind ∧ (frames (part ++ earlier)).length < earlier.frames.length

/-- Where a bound name can come from: every table starts with it, it was created, or it is a
parameter. -/
def Knows (j : Journal) (name : String) : Prop :=
  isReserved name ∨ (∃ v, .created name v ∈ j) ∨ ∃ callee, .entered callee ∈ j

def Admits (j : Journal) : Event → Prop
  | .created name _ => ∀ frame ∈ j.frames, name ∉ frame
  | .updated name _ => ∃ v, .created name v ∈ j
  | .returned callee => .entered callee ∈ j
  | .declared _ _ | .entered _ => True
  | .typed _ _ | .evaluating _ | .read _ => False

/-- Journals as programs that end well write them. -/
inductive Written : Journal → Prop
  | nil : Written []
  | expression {j : Journal} {tokens : List Token} : Written j →
    (∀ t ∈ tokens, t.isIdentifier → j.Knows t.text) → Written (reads tokens ++ .evaluating tokens :: j)
  | event {j : Journal} {event : Event} : Written j → j.Admits event → Written (event :: j)

variable {j later before : Journal} {event : Event} {name : String} {tokens : List Token}

theorem Knows.mono {k : Journal} (h : j.Knows name) (hsubset : j ⊆ k) : k.Knows name := by
  rcases h with hreserved | ⟨v, hcreated⟩ | ⟨callee, hentered⟩
  · exact .inl hreserved
  · exact .inr (.inl ⟨v, hsubset hcreated⟩)
  · exact .inr (.inr ⟨callee, hsubset hentered⟩)

theorem read_mem_reads : .read name ∈ reads tokens ↔ (Event.evaluating tokens).mentions name := by
  rw [mem_reads, Event.mentions, List.any_eq_true]
  refine exists_congr fun t => and_congr_right fun _ => ?_
  rw [Bool.and_eq_true, beq_iff_eq, Event.read.injEq, eq_comm (a := name)]

theorem frames_reads (tokens : List Token) (j : Journal) :
    frames (reads tokens ++ .evaluating tokens :: j) = j.frames := by
  have hreads : ∀ events : Journal, (∀ e ∈ events, ∃ name, e = .read name) →
      frames (events ++ .evaluating tokens :: j) = j.frames := by
    intro events h
    induction events with
    | nil => rfl
    | cons e rest ih =>
      obtain ⟨name, rfl⟩ := h e List.mem_cons_self
      exact ih fun e he => h e (List.mem_cons_of_mem _ he)
  apply hreads
  intro e he
  obtain ⟨t, _, _, rfl⟩ := mem_reads.mp he
  exact ⟨t.text, rfl⟩

theorem frames_of_mentions (h : event.mentions name) (j : Journal) : frames (event :: j) = j.frames := by
  cases event with
  | evaluating tokens => rfl
  | _ => cases h

theorem mem_frames_of_not_ends {earlier behind : Journal} (h : name ∈ earlier.frames.headD [])
    (hopen : ¬ Ends earlier behind) : ∃ frame ∈ frames (behind ++ earlier), name ∈ frame := by
  obtain ⟨scope, outer, hearlier, hscope⟩ : ∃ scope outer, earlier.frames = scope :: outer ∧ name ∈ scope := by
    cases hframes : earlier.frames with
    | nil =>
      rw [hframes] at h
      cases h
    | cons scope outer =>
      rw [hframes] at h
      exact ⟨scope, outer, rfl, h⟩
  -- The scope keeps its place from below.
  suffices ∃ inner frame, frames (behind ++ earlier) = inner ++ frame :: outer ∧ name ∈ frame by
    obtain ⟨inner, frame, hframes, hname⟩ := this
    refine ⟨frame, ?_, hname⟩
    rw [hframes]
    exact List.mem_append_right inner List.mem_cons_self
  induction behind with
  | nil => exact ⟨[], scope, hearlier, hscope⟩
  | cons e rest ih =>
    have hrest : ¬ Ends earlier rest := fun ⟨part, hpart, hlength⟩ =>
      hopen ⟨part, hpart.trans (List.suffix_cons e rest), hlength⟩
    obtain ⟨inner, frame, hframes, hname⟩ := ih hrest
    have hassign (other : String) : ∃ inner' frame', (frames (rest ++ earlier)).modifyHead (other :: ·) =
        inner' ++ frame' :: outer ∧ name ∈ frame' := by
      rw [hframes]
      cases inner with
      | nil => exact ⟨[], other :: frame, rfl, List.mem_cons_of_mem other hname⟩
      | cons first inner => exact ⟨(other :: first) :: inner, frame, rfl, hname⟩
    cases e with
    | created other _ | updated other _ => exact hassign other
    | entered => exact ⟨[] :: inner, frame, congrArg ([] :: ·) hframes, hname⟩
    | returned callee =>
      cases inner with
      | nil =>
        refine absurd ⟨.returned callee :: rest, List.suffix_rfl, ?_⟩ hopen
        change (frames (rest ++ earlier)).tail.length < earlier.frames.length
        rw [hframes, hearlier]
        exact Nat.lt_succ_self outer.length
      | cons first inner => exact ⟨inner, frame, congrArg List.tail hframes, hname⟩
    | _ => exact ⟨inner, frame, hframes, hname⟩

theorem split_reads (h : later ++ event :: before = reads tokens ++ .evaluating tokens :: j) :
    (∃ name, event = .read name) ∨ (event = .evaluating tokens ∧ later = reads tokens ∧ before = j) ∨
      ∃ rest, later = reads tokens ++ .evaluating tokens :: rest ∧ j = rest ++ event :: before := by
  rcases List.append_eq_append_iff.mp h with ⟨part, hreads, hrest⟩ | ⟨part, rfl, hrest⟩
  · cases part with
    | nil =>
      obtain ⟨rfl, rfl⟩ := List.cons.inj hrest
      exact .inr (.inl ⟨rfl, (hreads.trans (List.append_nil later)).symm, rfl⟩)
    | cons e part =>
      obtain ⟨rfl, _⟩ := List.cons.inj hrest
      have hmem : event ∈ reads tokens := hreads ▸ List.mem_append_right later List.mem_cons_self
      obtain ⟨t, _, _, rfl⟩ := mem_reads.mp hmem
      exact .inl ⟨t.text, rfl⟩
  · cases part with
    | nil =>
      obtain ⟨rfl, rfl⟩ := List.cons.inj hrest
      exact .inr (.inl ⟨rfl, List.append_nil _, rfl⟩)
    | cons e part =>
      obtain ⟨rfl, rfl⟩ := List.cons.inj hrest
      exact .inr (.inr ⟨part, rfl, rfl⟩)

namespace Written

theorem of_assigned (h : Written (later ++ event :: before)) (hassigned : event.assigned? = some name) :
    Written before ∧ before.Admits event ∧ ∀ other, .read other ∈ later ↔ ∃ e ∈ later, e.mentions other := by
  generalize hj : later ++ event :: before = j at h
  induction h generalizing later with
  | nil => cases later <;> cases hj
  | @expression j tokens _ _ ih =>
    rcases split_reads hj with ⟨_, rfl⟩ | ⟨rfl, _⟩ | ⟨rest, rfl, rfl⟩
    · cases hassigned
    · cases hassigned
    · obtain ⟨hbefore, hadmits, hreads⟩ := ih rfl
      refine ⟨hbefore, hadmits, fun other => ?_⟩
      have hmentions : ¬ ∃ e ∈ reads tokens, e.mentions other := by
        rintro ⟨e, he, hmentions⟩
        obtain ⟨t, _, _, rfl⟩ := mem_reads.mp he
        cases hmentions
      simp only [List.mem_append, List.mem_cons, read_mem_reads, hreads, reduceCtorEq, false_or, or_and_right,
        exists_or, exists_eq_left, hmentions]
  | @event j e hwritten hadmits ih =>
    cases later with
    | nil =>
      obtain ⟨rfl, rfl⟩ := List.cons.inj hj
      exact ⟨hwritten, hadmits, by simp⟩
    | cons first rest =>
      obtain ⟨rfl, rfl⟩ := List.cons.inj hj
      obtain ⟨hbefore, hadmits', hreads⟩ := ih rfl
      refine ⟨hbefore, hadmits', fun other => ?_⟩
      have hfirst : ¬ first.mentions other ∧ .read other ≠ first := by
        cases first with
        | evaluating | read => exact hadmits.elim
        | _ => exact ⟨Bool.false_ne_true, by simp⟩
      simp only [List.mem_cons, hfirst, Bool.false_eq_true, false_or, hreads, or_and_right, exists_or, exists_eq_left]

theorem knows_of_mentions (h : Written (later ++ event :: before)) (hmentions : event.mentions name) :
    before.Knows name := by
  generalize hj : later ++ event :: before = j at h
  induction h generalizing later with
  | nil => cases later <;> cases hj
  | @expression j tokens _ hknown ih =>
    rcases split_reads hj with ⟨_, rfl⟩ | ⟨rfl, rfl, rfl⟩ | ⟨rest, rfl, rfl⟩
    · cases hmentions
    · obtain ⟨t, ht, hidentifier, heq⟩ := mem_reads.mp (read_mem_reads.mpr hmentions)
      exact Event.read.inj heq ▸ hknown t ht hidentifier
    · exact ih rfl
  | @event j e _ hadmits ih =>
    cases later with
    | nil =>
      obtain ⟨rfl, rfl⟩ := List.cons.inj hj
      cases event with
      | evaluating => exact hadmits.elim
      | _ => cases hmentions
    | cons first rest =>
      obtain ⟨rfl, rfl⟩ := List.cons.inj hj
      exact ih rfl

theorem frames_of_no_call (h : Written j) (hcalls : ∀ callee, .entered callee ∉ j) :
    ∃ names, j.frames = [names] ∧ ∀ name v, .created name v ∈ j → name ∈ names := by
  induction h with
  | nil => exact ⟨[], rfl, fun _ _ h => nomatch h⟩
  | @expression j tokens _ _ ih =>
    obtain ⟨names, hframes, hcreated⟩ := ih fun callee hmem =>
      hcalls callee (List.mem_append_right _ (List.mem_cons_of_mem _ hmem))
    refine ⟨names, (frames_reads tokens j).trans hframes, fun name v hmem => hcreated name v ?_⟩
    simpa [mem_reads] using hmem
  | @event j e _ hadmits ih =>
    obtain ⟨names, hframes, hcreated⟩ := ih fun callee hmem => hcalls callee (List.mem_cons_of_mem _ hmem)
    have hold {name : String} {v : Value} (hne : .created name v ≠ e) (hmem : .created name v ∈ e :: j) :
        name ∈ names :=
      hcreated name v ((List.mem_cons.mp hmem).resolve_left hne)
    cases e with
    | created other w =>
      refine ⟨other :: names, congrArg (List.modifyHead _) hframes, fun name v hmem => ?_⟩
      by_cases hname : name = other
      · exact List.mem_cons.mpr (.inl hname)
      · exact List.mem_cons_of_mem other (hold (by simp [hname]) hmem)
    | updated other w =>
      exact ⟨other :: names, congrArg (List.modifyHead _) hframes, fun name v hmem =>
        List.mem_cons_of_mem other (hold (by simp) hmem)⟩
    | declared => exact ⟨names, hframes, fun name v => hold (by simp)⟩
    | entered callee => exact absurd List.mem_cons_self (hcalls callee)
    | returned callee => exact absurd (List.mem_cons_of_mem _ hadmits) (hcalls callee)
    | typed | evaluating | read => exact hadmits.elim

theorem typed_not_mem (h : Written j) (other : String) (type : ValueType) : .typed other type ∉ j := by
  induction h with
  | nil => exact List.not_mem_nil
  | expression _ _ ih => simp [mem_reads, ih]
  | event _ hadmits ih =>
    intro hmem
    rcases List.mem_cons.mp hmem with rfl | hmem
    · exact hadmits
    · exact ih hmem

theorem created_of_typeOf? (h : Written j) {type : ValueType} (htype : j.typeOf? name = some type) :
    ∃ v, .created name v ∈ j := by
  obtain ⟨e, he, hgiven⟩ := List.exists_of_findSome?_eq_some htype
  cases e with
  | created other v =>
    have hname : name = other := by
      by_contra hne
      simp [typeGiven?, hne] at hgiven
    exact ⟨v, hname ▸ he⟩
  | typed other type => exact absurd he (h.typed_not_mem other type)
  | _ => cases hgiven

end Written

end Journal

/-! ### The journals of runs -/

theorem State.frames_put (s : State) (name : String) (v : Value) :
    (s.put name v).journal.frames = s.journal.frames.modifyHead (name :: ·) := by
  unfold put
  split <;> rfl

theorem State.mem_frames_put {s : State} {name other : String} {v : Value} {frame : List String}
    (hframe : frame ∈ (s.put name v).journal.frames) (hother : other ∈ frame) :
    other = name ∨ ∃ frame ∈ s.journal.frames, other ∈ frame := by
  rw [frames_put] at hframe
  cases hframes : s.journal.frames with
  | nil =>
    rw [hframes] at hframe
    cases hframe
  | cons first outer =>
    rw [hframes] at hframe
    rcases List.mem_cons.mp hframe with rfl | hframe
    · rcases List.mem_cons.mp hother with rfl | hother
      · exact .inl rfl
      · exact .inr ⟨first, List.mem_cons_self, hother⟩
    · exact .inr ⟨frame, List.mem_cons_of_mem first hframe, hother⟩

namespace Course

variable {d : Dialect} {s t : State}

theorem suffix (h : Course d s t) : s.journal <:+ t.journal := by
  induction h with
  | refl s => exact List.suffix_rfl
  | trans _ _ hst htu => exact hst.trans htu
  | consult =>
    rw [State.journal_consult]
    exact (List.suffix_cons _ _).trans (List.suffix_append _ _)
  | log => exact List.suffix_rfl
  | put | declare => exact List.suffix_cons _ _
  | call _ _ ih => exact ((List.suffix_cons _ _).trans ih).trans (List.suffix_cons _ _)

theorem tail_frames (h : Course d s t) : t.journal.frames.tail = s.journal.frames.tail := by
  induction h with
  | refl | log | declare => rfl
  | trans _ _ hst htu => exact htu.trans hst
  | consult => rw [State.journal_consult, Journal.frames_reads]
  | put => rw [State.frames_put, List.tail_modifyHead]
  | call _ _ ih => exact congrArg List.tail ih

end Course

/-- The journal has the form that runs give it, and it agrees with the table about the names that
are bound. -/
structure State.Accounted (s : State) : Prop where
  written : s.journal.Written
  bound : ∀ frame ∈ s.journal.frames, ∀ name ∈ frame, (s.scope.get? name).isSome
  known : ∀ name, (s.scope.get? name).isSome → s.journal.Knows name

namespace State.Accounted

variable {s t : State}

theorem consult (h : s.Accounted) {tokens : List Token}
    (hnames : ∀ t ∈ tokens, t.isIdentifier → (s.scope.get? t.text).isSome) : (s.consult tokens).Accounted where
  written := by
    rw [journal_consult]
    exact .expression h.written fun t ht hidentifier => h.known t.text (hnames t ht hidentifier)
  bound := by
    rw [journal_consult, Journal.frames_reads, (s.alike_consult tokens).scope]
    exact h.bound
  known name hname := by
    rw [(s.alike_consult tokens).scope] at hname
    rw [journal_consult]
    exact (h.known name hname).mono fun e he => List.mem_append_right _ (List.mem_cons_of_mem _ he)

theorem put (h : s.Accounted) {line : Int} {name : String} {v : Value}
    (hrefusal : refusal? .extended line name v s = none) : (s.put name v).Accounted := by
  have hadmits : s.journal.Admits (if (s.scope.get? name).isSome then .updated name v else .created name v) := by
    split
    · rename_i hbound
      obtain ⟨type, _, htype⟩ := refusal?_extended_eq_none.mp hrefusal
      exact h.written.created_of_typeOf? (htype hbound)
    · rename_i hunbound
      exact fun frame hframe hname => hunbound (h.bound frame hframe name hname)
  have hcreated : ∃ w, .created name w ∈ (s.put name v).journal := by
    by_cases hbound : (s.scope.get? name).isSome
    · rw [if_pos hbound] at hadmits
      obtain ⟨w, hw⟩ := hadmits
      exact ⟨w, List.mem_cons_of_mem _ hw⟩
    · rw [State.put, if_neg hbound]
      exact ⟨v, List.mem_cons_self⟩
  refine ⟨.event h.written hadmits, fun frame hframe other hother => ?_, fun other hother => ?_⟩
  · rcases mem_frames_put hframe hother with rfl | ⟨frame, hframe, hother⟩
    · exact Option.isSome_of_eq_some (s.scope.get?_bind_self other v)
    · exact s.scope.isSome_bind name v (h.bound frame hframe other hother)
  · by_cases hname : other = name
    · exact .inr (.inl (hname ▸ hcreated))
    · have hold : (s.scope.get? other).isSome := by
        rwa [← s.scope.get?_bind_of_ne hname v]
      exact (h.known other hold).mono (List.subset_cons_self _ _)

theorem declare (h : s.Accounted) (name : String) (f : Function) (ns : Namespace) :
    (s.declare name f ns).Accounted where
  written := .event h.written trivial
  bound frame hframe other hother := s.scope.isSome_withFunctions ns (h.bound frame hframe other hother)
  known other hother := by
    by_cases hname : other = functionsName
    · exact .inl (.inl hname)
    · have hold : (s.scope.get? other).isSome := by
        rwa [← s.scope.get?_withFunctions_of_ne ns hname]
      exact (h.known other hold).mono (List.subset_cons_self _ _)

theorem enter (h : s.Accounted) (name : String) (arguments : List (String × Value)) :
    ((s.note (.entered name)).enter arguments).Accounted where
  written := .event h.written trivial
  bound frame hframe other hother := by
    rcases List.mem_cons.mp hframe with rfl | hframe
    · cases hother
    · exact s.scope.isSome_enter arguments (h.bound frame hframe other hother)
  known other _ := .inr (.inr ⟨name, List.mem_cons_self⟩)

theorem leave (h : s.Accounted) (ht : t.Accounted) {name : String} (hentered : .entered name ∈ t.journal)
    (hframes : t.journal.frames.tail = s.journal.frames) :
    (((s.note (.entered name)).leave t).note (.returned name)).Accounted where
  written := .event ht.written hentered
  bound frame hframe other hother := by
    have hcaller : frame ∈ s.journal.frames := hframes ▸ hframe
    exact s.scope.isSome_leave t.scope (h.bound frame hcaller other hother)
  known other _ := .inr (.inr ⟨name, List.mem_cons_of_mem _ hentered⟩)

end State.Accounted

theorem Course.accounted {s t : State} (h : Course .extended s t) (hs : s.Accounted) : t.Accounted := by
  induction h with
  | refl | log => exact ⟨hs.written, hs.bound, hs.known⟩
  | trans _ _ hst htu => exact htu (hst hs)
  | consult hnames => exact hs.consult hnames
  | put hrefusal => exact hs.put hrefusal
  | declare _ name f ns => exact hs.declare name f ns
  | @call s t name arguments hbody _ ih =>
    exact hs.leave (ih (hs.enter name arguments)) (hbody.suffix.subset List.mem_cons_self) hbody.tail_frames

theorem Program.accounted_start : (start .extended {}).Accounted where
  written := .nil
  bound frame hframe name hname := by
    rw [List.mem_singleton.mp hframe] at hname
    cases hname
  known name hname := by
    by_contra hknows
    have hnone : (start .extended {}).scope.get? name = none :=
      get?_initialTable fun hreserved => hknows (.inl hreserved)
    rw [hnone] at hname
    cases hname

end Bang
