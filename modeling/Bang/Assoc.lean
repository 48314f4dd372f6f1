/-! Maps from names that keep the order in which names came in. Writing to a name that is there keeps
its place; a new name goes to the end. -/

namespace Bang

structure Assoc (α : Type u) where
  entries : List (String × α) := []
  deriving Inhabited

namespace Assoc

variable {α : Type u} {β : Type v}

def empty : Assoc α := {}

def get? (m : Assoc α) (key : String) : Option α := m.entries.lookup key

def contains (m : Assoc α) (key : String) : Bool := (m.get? key).isSome

def keys (m : Assoc α) : List String := m.entries.map Prod.fst

def put (key : String) (a : α) : List (String × α) → List (String × α)
  | [] => [(key, a)]
  | (k, b) :: rest => if key == k then (key, a) :: rest else (k, b) :: put key a rest

def insert (m : Assoc α) (key : String) (a : α) : Assoc α := ⟨put key a m.entries⟩

def modify (m : Assoc α) (key : String) (f : α → α) : Assoc α :=
  match m.get? key with
  | some a => m.insert key (f a)
  | none => m

def ofList (entries : List (String × α)) : Assoc α := entries.foldl (fun m (key, a) => m.insert key a) empty

def map (f : α → β) (m : Assoc α) : Assoc β := ⟨m.entries.map fun (key, a) => (key, f a)⟩

theorem lookup_put_self (key : String) (a : α) (entries : List (String × α)) :
    (put key a entries).lookup key = some a := by
  induction entries with
  | nil => simp [put]
  | cons entry rest ih =>
    obtain ⟨k, b⟩ := entry
    by_cases h : key = k
    · simp [put, h]
    · have hk : (key == k) = false := beq_false_of_ne h
      simp [put, List.lookup_cons, hk, ih]

theorem lookup_put_of_ne {key other : String} (h : other ≠ key) (a : α) (entries : List (String × α)) :
    (put key a entries).lookup other = entries.lookup other := by
  have hne : (other == key) = false := beq_false_of_ne h
  induction entries with
  | nil => simp [put, List.lookup_cons, hne]
  | cons entry rest ih =>
    obtain ⟨k, b⟩ := entry
    by_cases hk : key = k
    · subst hk
      simp [put, List.lookup_cons, hne]
    · simp [put, hk, List.lookup_cons, ih]

theorem put_append {key : String} {front : List (String × α)} (h : key ∉ front.map Prod.fst) (a : α)
    (entries : List (String × α)) : put key a (front ++ entries) = front ++ put key a entries := by
  induction front with
  | nil => rfl
  | cons entry rest ih =>
    obtain ⟨k, b⟩ := entry
    rw [List.map_cons, List.mem_cons, not_or] at h
    have hk : (key == k) = false := beq_false_of_ne h.1
    simp [put, hk, ih h.2]

theorem lookup_append {key : String} {front : List (String × α)} (h : key ∉ front.map Prod.fst)
    (entries : List (String × α)) : (front ++ entries).lookup key = entries.lookup key := by
  induction front with
  | nil => rfl
  | cons entry rest ih =>
    obtain ⟨k, b⟩ := entry
    rw [List.map_cons, List.mem_cons, not_or] at h
    have hk : (key == k) = false := beq_false_of_ne h.1
    rw [List.cons_append, List.lookup_cons, hk]
    exact ih h.2

@[simp] theorem get?_insert_self (m : Assoc α) (key : String) (a : α) :
    (m.insert key a).get? key = some a := lookup_put_self key a m.entries

theorem get?_insert_of_ne (m : Assoc α) {key other : String} (h : other ≠ key) (a : α) :
    (m.insert key a).get? other = m.get? other := lookup_put_of_ne h a m.entries

theorem contains_insert (m : Assoc α) (key other : String) (a : α) :
    (m.insert key a).contains other = (other == key || m.contains other) := by
  by_cases h : other = key
  · subst h
    simp [contains]
  · simp [contains, get?_insert_of_ne m h, h]

theorem contains_modify (m : Assoc α) (key other : String) (f : α → α) :
    (m.modify key f).contains other = m.contains other := by
  unfold modify
  split
  case h_1 a h =>
    rw [contains_insert]
    by_cases ho : other = key
    · subst ho
      simp [contains, h]
    · simp [ho]
  case h_2 => rfl

theorem map_fst_put (key : String) (a : α) (entries : List (String × α)) :
    (put key a entries).map Prod.fst =
      if key ∈ entries.map Prod.fst then entries.map Prod.fst else entries.map Prod.fst ++ [key] := by
  induction entries with
  | nil => simp [put]
  | cons entry rest ih =>
    obtain ⟨k, b⟩ := entry
    by_cases h : key = k
    · simp [put, h]
    · simp only [put, beq_iff_eq, h, if_false, List.map_cons, ih, List.mem_cons, false_or]
      split <;> simp

theorem keys_insert (m : Assoc α) (key : String) (a : α) :
    (m.insert key a).keys = if key ∈ m.keys then m.keys else m.keys ++ [key] :=
  map_fst_put key a m.entries

theorem get?_modify_self (m : Assoc α) (key : String) (f : α → α) :
    (m.modify key f).get? key = (m.get? key).map f := by
  unfold modify
  split
  case h_1 a h => rw [get?_insert_self, h, Option.map_some]
  case h_2 h => rw [h, Option.map_none]

theorem get?_modify_of_ne (m : Assoc α) {key other : String} (h : other ≠ key) (f : α → α) :
    (m.modify key f).get? other = m.get? other := by
  unfold modify
  split
  · exact m.get?_insert_of_ne h _
  · rfl

theorem mem_keys {m : Assoc α} {key : String} : key ∈ m.keys ↔ (m.get? key).isSome := by
  obtain ⟨entries⟩ := m
  change key ∈ entries.map Prod.fst ↔ (entries.lookup key).isSome
  induction entries with
  | nil => simp
  | cons entry rest ih =>
    obtain ⟨k, a⟩ := entry
    by_cases h : key = k
    · subst h
      simp
    · have hk : (key == k) = false := beq_false_of_ne h
      rw [List.map_cons, List.mem_cons, ih, List.lookup_cons, hk]
      simp [h]

theorem keys_modify (m : Assoc α) (key : String) (f : α → α) : (m.modify key f).keys = m.keys := by
  unfold modify
  split
  case h_1 a h =>
    have hmem : key ∈ m.keys := mem_keys.mpr (h ▸ rfl)
    rw [keys_insert, if_pos hmem]
  case h_2 => rfl

end Assoc

end Bang
