import Bang.Assoc

/-! Which names were brought in and not made use of since. -/

namespace Bang

structure Use (α : Type) where
  subject : α
  used : Bool

inductive Mark (α : Type) where
  | opened (name : String) (subject : α)
  | used (name : String)

namespace Mark

variable {α : Type}

def name : Mark α → String
  | opened name _ | used name => name

def record : Mark α → Assoc (Use α) → Assoc (Use α)
  | opened name subject, m => m.insert name ⟨subject, false⟩
  | used name, m => m.modify name ({ · with used := true })

def uses (marks : List (Mark α)) : Assoc (Use α) := marks.foldr record .empty

def unused (keep : String → Bool) (marks : List (Mark α)) : List String :=
  ((uses marks).entries.filter fun (name, use) => keep name && !use.used).map Prod.fst

def opens (name : String) : Mark α → Bool
  | opened other _ => name == other
  | used _ => false

theorem contains_uses (marks : List (Mark α)) (name : String) :
    (uses marks).contains name = marks.any (opens name) := by
  induction marks with
  | nil => rfl
  | cons mark rest ih =>
    have hstep : (uses (mark :: rest)).contains name = (opens name mark || (uses rest).contains name) := by
      cases mark with
      | opened other subject => exact (uses rest).contains_insert other name _
      | used other => exact (uses rest).contains_modify other name _
    rw [hstep, ih, List.any_cons]

end Mark

end Bang
