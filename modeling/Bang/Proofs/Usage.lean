import Bang.Usage

/-! What is unused after later marks have come on top of earlier ones. A name that the later marks bring in
is theirs alone; an earlier name stays unused unless they make use of it. -/

namespace Bang

theorem eraseDups_concat (names : List String) (name : String) : (names ++ [name]).eraseDups =
    if name ∈ names.eraseDups then names.eraseDups else names.eraseDups ++ [name] := by
  rw [List.eraseDups_append]
  by_cases hmem : name ∈ names
  · have hnone : [name].removeAll names = [] := by simp [List.removeAll, hmem]
    rw [hnone, if_pos (List.mem_eraseDups.mpr hmem)]
    exact List.append_nil _
  · have hnew : [name].removeAll names = [name] := by simp [List.removeAll, hmem]
    rw [hnew, if_neg fun h => hmem (List.mem_eraseDups.mp h)]
    rfl

namespace Assoc

variable {α : Type}

theorem nodup_keys_insert {m : Assoc α} (h : m.keys.Nodup) (key : String) (a : α) : (m.insert key a).keys.Nodup := by
  rw [keys_insert]
  split
  · exact h
  · rename_i hnew
    rw [List.nodup_append]
    refine ⟨h, by simp, fun name hname other hother => ?_⟩
    rw [List.mem_singleton.mp hother]
    exact fun heq => hnew (heq ▸ hname)

theorem map_fst_filter_entries {m : Assoc α} (h : m.keys.Nodup) (p : String → α → Bool) :
    (m.entries.filter fun (name, a) => p name a).map Prod.fst =
      m.keys.filter fun name => (m.get? name).any (p name) := by
  obtain ⟨entries⟩ := m
  change _ = (entries.map Prod.fst).filter fun name => (entries.lookup name).any (p name)
  replace h : (entries.map Prod.fst).Nodup := h
  induction entries with
  | nil => rfl
  | cons entry rest ih =>
    obtain ⟨k, a⟩ := entry
    rw [List.map_cons, List.nodup_cons] at h
    have hrest : (rest.map Prod.fst).filter (fun name => (((k, a) :: rest).lookup name).any (p name)) =
        (rest.map Prod.fst).filter fun name => (rest.lookup name).any (p name) := by
      refine List.filter_congr fun name hname => ?_
      have hne : (name == k) = false := beq_false_of_ne fun heq => h.1 (heq ▸ hname)
      rw [List.lookup_cons, hne]
    rw [List.map_cons, List.filter_cons, List.filter_cons, List.lookup_cons_self, hrest, ← ih h.2]
    change (if p k a then _ else _ : List (String × α)).map Prod.fst = if p k a then _ else _
    split <;> rfl

end Assoc

namespace Mark

variable {α : Type} {keep : String → Bool} (marks earlier : List (Mark α))

def usesName (name : String) : Mark α → Bool
  | opened _ _ => false
  | used other => name == other

theorem nodup_keys_uses : (uses marks).keys.Nodup := by
  induction marks with
  | nil => exact List.nodup_nil
  | cons mark rest ih =>
    cases mark with
    | opened name subject => exact Assoc.nodup_keys_insert ih name _
    | used name => exact (uses rest).keys_modify name _ ▸ ih

theorem unused_eq_filter : unused keep marks =
    (uses marks).keys.filter fun name => keep name && ((uses marks).get? name).any (!·.used) := by
  have hfilter := Assoc.map_fst_filter_entries (nodup_keys_uses marks) fun name use => keep name && !use.used
  refine hfilter.trans (List.filter_congr fun name _ => ?_)
  cases (uses marks).get? name <;> simp

theorem keys_uses_append : (uses (marks ++ earlier)).keys =
    (uses earlier).keys ++ (uses marks).keys.filter (· ∉ (uses earlier).keys) := by
  induction marks with
  | nil => exact (List.append_nil _).symm
  | cons mark rest ih =>
    cases mark with
    | used name =>
      change ((uses (rest ++ earlier)).modify name _).keys = _ ++ ((uses rest).modify name _).keys.filter _
      rw [Assoc.keys_modify, Assoc.keys_modify, ih]
    | opened name subject =>
      change ((uses (rest ++ earlier)).insert name _).keys = _ ++ ((uses rest).insert name _).keys.filter _
      rw [Assoc.keys_insert, Assoc.keys_insert, ih]
      by_cases hearlier : name ∈ (uses earlier).keys <;> by_cases hrest : name ∈ (uses rest).keys <;>
        simp [hearlier, hrest]

theorem get?_uses_append (name : String) : (uses (marks ++ earlier)).get? name =
    ((uses marks).get? name).or (((uses earlier).get? name).map fun use =>
      { use with used := marks.any (usesName name) || use.used }) := by
  induction marks with
  | nil =>
    change (uses earlier).get? name = Option.or none _
    cases (uses earlier).get? name <;> rfl
  | cons mark rest ih =>
    cases mark with
    | opened other subject =>
      change ((uses (rest ++ earlier)).insert other _).get? name = (((uses rest).insert other _).get? name).or _
      by_cases h : name = other
      · subst h
        rw [Assoc.get?_insert_self, Assoc.get?_insert_self, Option.some_or]
      · rw [Assoc.get?_insert_of_ne _ h, Assoc.get?_insert_of_ne _ h, ih]
        rfl
    | used other =>
      change ((uses (rest ++ earlier)).modify other _).get? name = (((uses rest).modify other _).get? name).or _
      by_cases h : name = other
      · subst h
        rw [Assoc.get?_modify_self, Assoc.get?_modify_self, ih]
        cases (uses rest).get? name <;> cases (uses earlier).get? name <;> simp [usesName]
      · rw [Assoc.get?_modify_of_ne _ h, Assoc.get?_modify_of_ne _ h, ih]
        have hother : usesName name (used other : Mark α) = false := beq_false_of_ne h
        simp [hother]

theorem mem_unused {name : String} : name ∈ unused keep marks ↔
    keep name ∧ ∃ use, (uses marks).get? name = some use ∧ use.used = false := by
  rw [unused_eq_filter, List.mem_filter, Assoc.mem_keys]
  cases (uses marks).get? name <;> simp

def Idle (name : String) (marks : List (Mark α)) : Prop :=
  ∃ later subject before, marks = later ++ opened name subject :: before ∧ used name ∉ later

theorem idle_cons {name : String} {mark : Mark α} :
    Idle name (mark :: marks) ↔ (∃ subject, mark = opened name subject) ∨ mark ≠ used name ∧ Idle name marks := by
  constructor
  · rintro ⟨later, subject, before, heq, hused⟩
    cases later with
    | nil => exact .inl ⟨subject, (List.cons.inj heq).1⟩
    | cons first rest =>
      obtain ⟨rfl, rfl⟩ := List.cons.inj heq
      rw [List.mem_cons, not_or] at hused
      exact .inr ⟨fun h => hused.1 h.symm, rest, subject, before, rfl, hused.2⟩
  · rintro (⟨subject, rfl⟩ | ⟨hne, later, subject, before, rfl, hused⟩)
    · exact ⟨[], subject, marks, rfl, List.not_mem_nil⟩
    · refine ⟨mark :: later, subject, before, rfl, ?_⟩
      rw [List.mem_cons, not_or]
      exact ⟨hne.symm, hused⟩

theorem mem_unused_iff_idle {name : String} : name ∈ unused keep marks ↔ keep name ∧ Idle name marks := by
  rw [mem_unused]
  refine and_congr_right fun _ => ?_
  induction marks with
  | nil =>
    constructor
    · rintro ⟨_, ⟨⟩, _⟩
    · rintro ⟨later, _, _, h, _⟩
      cases later <;> cases h
  | cons mark rest ih =>
    rw [idle_cons]
    cases mark with
    | opened other subject =>
      change (∃ use, ((uses rest).insert other _).get? name = some use ∧ _) ↔ _
      by_cases hname : name = other
      · subst hname
        rw [Assoc.get?_insert_self]
        exact ⟨fun _ => .inl ⟨subject, rfl⟩, fun _ => ⟨_, rfl, rfl⟩⟩
      · rw [Assoc.get?_insert_of_ne _ hname, ih]
        have hother : ∀ subject', opened other subject ≠ opened name subject' := by
          rintro subject' ⟨⟩
          exact hname rfl
        simp [hother]
    | used other =>
      change (∃ use, ((uses rest).modify other _).get? name = some use ∧ _) ↔ _
      by_cases hname : name = other
      · subst hname
        rw [Assoc.get?_modify_self]
        simp
      · rw [Assoc.get?_modify_of_ne _ hname, ih]
        simp [Ne.symm hname]

def openedName? : Mark α → Option String
  | opened name _ => some name
  | used _ => none

def usedName? : Mark α → Option String
  | opened _ _ => none
  | used name => some name

def openedNames (marks : List (Mark α)) : List String := (marks.reverse.filterMap openedName?).eraseDups

theorem keys_uses : (uses marks).keys = openedNames marks := by
  induction marks with
  | nil => rfl
  | cons mark rest ih =>
    cases mark with
    | opened name subject =>
      have hnames : (opened name subject :: rest).reverse.filterMap openedName? =
          rest.reverse.filterMap openedName? ++ [name] := by
        simp [openedName?]
      change ((uses rest).insert name _).keys = _
      rw [Assoc.keys_insert, ih, openedNames, openedNames, hnames, eraseDups_concat]
    | used name =>
      have hnames : (used name :: rest).reverse.filterMap openedName? = rest.reverse.filterMap (@openedName? α) := by
        simp [openedName?]
      change ((uses rest).modify name _).keys = _
      rw [Assoc.keys_modify, ih, openedNames, openedNames, hnames]

def since (name : String) (marks : List (Mark α)) : List (Mark α) := marks.takeWhile (·.openedName? != some name)

theorem since_cons {name : String} {mark : Mark α} (h : mark.openedName? ≠ some name) :
    since name (mark :: marks) = mark :: since name marks :=
  List.takeWhile_cons_of_pos (bne_iff_ne.mpr h)

theorem any_get?_uses (name : String) : ((uses marks).get? name).any (!·.used) =
    ((uses marks).contains name && (since name marks).all (·.usedName? != some name)) := by
  induction marks with
  | nil => rfl
  | cons mark rest ih =>
    cases mark with
    | opened other subject =>
      change (((uses rest).insert other _).get? name).any _ = (((uses rest).insert other _).contains name && _)
      by_cases h : name = other
      · subst h
        simp [Assoc.contains, since, openedName?]
      · have hopened : (opened other subject).openedName? ≠ some name := fun heq => h (Option.some.inj heq).symm
        have hunused : ((opened other subject).usedName? != some name) = true := rfl
        rw [Assoc.contains, Assoc.get?_insert_of_ne _ h, ih, Assoc.contains, since_cons rest hopened, List.all_cons,
          hunused, Bool.true_and]
    | used other =>
      change (((uses rest).modify other _).get? name).any _ = (((uses rest).modify other _).contains name && _)
      rw [Assoc.contains_modify, since_cons rest (by simp [openedName?]), List.all_cons]
      by_cases h : name = other
      · subst h
        rw [Assoc.get?_modify_self]
        cases (uses rest).get? name <;> simp [usedName?]
      · have hother : ((@used α other).usedName? != some name) = true := by
          rw [bne_iff_ne]
          exact fun heq => h (Option.some.inj heq).symm
        rw [Assoc.get?_modify_of_ne _ h, ih, hother, Bool.true_and]

theorem unused_eq_since : unused (fun _ => true) marks =
    (openedNames marks).filter fun name => (since name marks).all (·.usedName? != some name) := by
  rw [unused_eq_filter, keys_uses]
  refine List.filter_congr fun name hname => ?_
  have hcontains : (uses marks).contains name = true := by
    rw [← keys_uses] at hname
    exact Assoc.mem_keys.mp hname
  rw [any_get?_uses, hcontains, Bool.true_and, Bool.true_and]

def plain : Mark α → Mark Unit
  | opened name _ => opened name ()
  | used name => used name

theorem openedName?_plain (mark : Mark α) : mark.plain.openedName? = mark.openedName? := by cases mark <;> rfl

theorem usedName?_plain (mark : Mark α) : mark.plain.usedName? = mark.usedName? := by cases mark <;> rfl

theorem unused_plain : unused (fun _ => true) (marks.map plain) = unused (fun _ => true) marks := by
  have hnames : openedNames (marks.map plain) = openedNames marks := by
    simp only [openedNames, ← List.map_reverse, List.filterMap_map, Function.comp_def, openedName?_plain]
  rw [unused_eq_since, unused_eq_since, hnames]
  refine List.filter_congr fun name _ => ?_
  simp only [since, List.takeWhile_map, List.all_map, Function.comp_def, openedName?_plain, usedName?_plain]

theorem not_mem_names_iff {name : String} : name ∉ marks.map Mark.name ↔
    (uses marks).get? name = none ∧ marks.any (usesName name) = false := by
  have hopens : (uses marks).get? name = none ↔ marks.any (opens name) = false := by
    rw [← contains_uses, Assoc.contains, Option.isSome_eq_false_iff, Option.isNone_iff_eq_none]
  rw [hopens, List.any_eq_false, List.any_eq_false, List.mem_map, not_exists]
  constructor
  · intro h
    refine ⟨fun mark hmark hopens => h mark ⟨hmark, ?_⟩, fun mark hmark huses => h mark ⟨hmark, ?_⟩⟩
    · cases mark with
      | opened other subject => exact (beq_iff_eq.mp hopens).symm
      | used other => cases hopens
    · cases mark with
      | opened other subject => cases huses
      | used other => exact (beq_iff_eq.mp huses).symm
  · rintro ⟨hopens, huses⟩ mark ⟨hmark, rfl⟩
    cases mark with
    | opened other subject => exact hopens _ hmark (beq_self_eq_true other)
    | used other => exact huses _ hmark (beq_self_eq_true other)

theorem unused_append : unused keep (marks ++ earlier) =
    (uses earlier).keys.filter (fun name => name ∈ unused keep marks ∨
        name ∈ unused keep earlier ∧ name ∉ marks.map Mark.name) ++
      (unused keep marks).filter (· ∉ (uses earlier).keys) := by
  -- The earlier names come first, then the new ones.
  rw [unused_eq_filter (marks ++ earlier), keys_uses_append, List.filter_append]
  congr 1
  · refine List.filter_congr fun name _ => ?_
    rw [Bool.eq_iff_iff, decide_eq_true_iff, mem_unused, mem_unused, not_mem_names_iff, get?_uses_append]
    cases (uses marks).get? name <;> cases (uses earlier).get? name <;>
      cases marks.any (usesName name) <;> simp
  · rw [unused_eq_filter marks, List.filter_filter, List.filter_filter]
    refine List.filter_congr fun name hname => ?_
    obtain ⟨use, huse⟩ := Option.isSome_iff_exists.mp (Assoc.mem_keys.mp hname)
    rw [get?_uses_append, huse, Option.some_or, Bool.and_comm]

/-- Earlier marks do not show behind later ones: each earlier name without a use is known to the
later marks, and the order in which names first came in is that of the later marks. -/
def Hidden (keep : String → Bool) (marks earlier : List (Mark α)) : Prop :=
  (∀ name ∈ unused keep earlier, name ∈ marks.map Mark.name) ∧
    (uses earlier).keys.filter (· ∈ unused keep marks) ++
      (unused keep marks).filter (· ∉ (uses earlier).keys) = unused keep marks

theorem unused_append_eq_iff : unused keep (marks ++ earlier) = unused keep marks ↔ Hidden keep marks earlier := by
  have hfilter (h : ∀ name ∈ unused keep earlier, name ∈ marks.map Mark.name) :
      unused keep (marks ++ earlier) = (uses earlier).keys.filter (· ∈ unused keep marks) ++
        (unused keep marks).filter (· ∉ (uses earlier).keys) := by
    rw [unused_append]
    congr 1
    refine List.filter_congr fun name _ => ?_
    rw [decide_eq_decide]
    exact or_iff_left fun ⟨hunused, hunknown⟩ => hunknown (h name hunused)
  constructor
  · intro heq
    have hknown : ∀ name ∈ unused keep earlier, name ∈ marks.map Mark.name := by
      intro name hunused
      apply Decidable.byContradiction
      intro hunknown
      obtain ⟨hkeep, use, hget, hused⟩ := (mem_unused earlier).mp hunused
      obtain ⟨hnone, hany⟩ := (not_mem_names_iff marks).mp hunknown
      have hstale : name ∈ unused keep (marks ++ earlier) := by
        rw [mem_unused, get?_uses_append, hnone, hget, hany]
        exact ⟨hkeep, _, rfl, hused⟩
      obtain ⟨_, _, hsome, _⟩ := (mem_unused marks).mp (heq ▸ hstale)
      rw [hnone] at hsome
      cases hsome
    exact ⟨hknown, (hfilter hknown).symm.trans heq⟩
  · intro h
    exact (hfilter h.1).trans h.2

theorem unused_append_of_keys (h : (uses earlier).keys = (uses marks).keys)
    (hunused : ∀ name ∈ unused keep earlier, name ∈ marks.map Mark.name) :
    unused keep (marks ++ earlier) = unused keep marks := by
  refine (unused_append_eq_iff marks earlier).mpr ⟨hunused, ?_⟩
  have hown : (unused keep marks).filter (· ∉ (uses earlier).keys) = [] := by
    rw [List.filter_eq_nil_iff]
    intro name hname
    rw [unused_eq_filter, List.mem_filter] at hname
    simpa [h] using hname.1
  rw [hown, List.append_nil, h]
  refine Eq.trans (List.filter_congr fun name hname => ?_) (unused_eq_filter marks).symm
  rw [unused_eq_filter, Bool.eq_iff_iff, decide_eq_true_iff, List.mem_filter]
  exact and_iff_right hname

theorem keys_uses_repeat (n : Nat) : (uses (List.replicate (n + 1) marks).flatten).keys = (uses marks).keys := by
  induction n with
  | zero => rw [List.replicate_one, List.flatten_singleton]
  | succ n ih =>
    have hself : (uses marks).keys.filter (· ∉ (uses marks).keys) = [] := by
      rw [List.filter_eq_nil_iff]
      intro name hname
      simpa using hname
    rw [List.replicate_succ, List.flatten_cons, keys_uses_append, ih, hself, List.append_nil]

theorem unused_repeat (n : Nat) : unused keep (marks ++ (List.replicate n marks).flatten) = unused keep marks := by
  cases n with
  | zero => rw [List.replicate_zero, List.flatten_nil, List.append_nil]
  | succ n =>
    refine unused_append_of_keys marks _ (keys_uses_repeat marks n) fun name hname => ?_
    rw [unused_eq_filter, List.mem_filter, keys_uses_repeat] at hname
    apply Decidable.byContradiction
    intro hunknown
    have hsome := Assoc.mem_keys.mp hname.1
    rw [((not_mem_names_iff marks).mp hunknown).1] at hsome
    cases hsome

end Mark

end Bang
