import Bang.Value.Basic
import Mathlib.Data.Int.Bitwise

/-! Chains of integers: the meaning of an operand followed by operators and further operands. Products and
remainders bind tightest, then sums, then `&`, then `|`, all of them to the left. Comparisons bind loosest; a
chain of them holds if every one does, and the first that fails ends it. -/

namespace Bang

inductive Scalar where
  | bool (b : Bool)
  | int (n : Int)
  deriving DecidableEq, Repr

namespace Scalar

def toInt : Scalar → Int
  | bool b => if b then 1 else 0
  | int n => n

def toValue : Scalar → Value
  | bool b => .bool b
  | int n => .int n

end Scalar

inductive Arithmetic where
  | mul
  | mod
  | add
  | sub
  | bitAnd
  | bitOr
  deriving DecidableEq, Repr

namespace Arithmetic

def level : Arithmetic → Nat
  | mul | mod => 1
  | add | sub => 2
  | bitAnd => 4
  | bitOr => 6

def apply : Arithmetic → Scalar → Scalar → Option Scalar
  | mul, a, b => some (.int (a.toInt * b.toInt))
  | mod, a, b => if b.toInt = 0 then none else some (.int (a.toInt.fmod b.toInt))
  | add, a, b => some (.int (a.toInt + b.toInt))
  | sub, a, b => some (.int (a.toInt - b.toInt))
  | bitAnd, .bool p, .bool q => some (.bool (p && q))
  | bitAnd, a, b => some (.int (a.toInt.land b.toInt))
  | bitOr, .bool p, .bool q => some (.bool (p || q))
  | bitOr, a, b => some (.int (a.toInt.lor b.toInt))

end Arithmetic

inductive Relation where
  | eq
  | lt
  | gt
  | le
  | ge
  deriving DecidableEq, Repr

def Relation.holds : Relation → Scalar → Scalar → Bool
  | eq, a, b => a.toInt = b.toInt
  | lt, a, b => a.toInt < b.toInt
  | gt, a, b => b.toInt < a.toInt
  | le, a, b => a.toInt ≤ b.toInt
  | ge, a, b => b.toInt ≤ a.toInt

inductive Operator where
  | arithmetic (op : Arithmetic)
  | relation (op : Relation)
  deriving DecidableEq, Repr

def Operator.text : Operator → String
  | arithmetic .mul => "*"
  | arithmetic .mod => "%"
  | arithmetic .add => "+"
  | arithmetic .sub => "-"
  | arithmetic .bitAnd => "&"
  | arithmetic .bitOr => "|"
  | relation .eq => "=="
  | relation .lt => "<"
  | relation .gt => ">"
  | relation .le => "<="
  | relation .ge => ">="

structure Chain (β α : Type) where
  first : α
  rest : List (β × α)
  deriving DecidableEq, Repr

namespace Chain

variable {α β γ : Type}

def map (f : α → γ) (c : Chain β α) : Chain β γ := ⟨f c.first, c.rest.map fun (op, a) => (op, f a)⟩

def cons (a : α) (op : β) (c : Chain β α) : Chain β α := ⟨a, (op, c.first) :: c.rest⟩

def foldl (k : α → β → α → α) (c : Chain β α) : α := c.rest.foldl (fun a (op, b) => k a op b) c.first

def cutFrom (p : β → Bool) : α → List (β × α) → Chain β (Chain β α)
  | a, [] => ⟨⟨a, []⟩, []⟩
  | a, (op, b) :: rest =>
    let parts := cutFrom p b rest
    if p op then parts.cons ⟨a, []⟩ op else { parts with first := parts.first.cons a op }

/-- The parts of a chain between the operators with a property. -/
def cut (p : β → Bool) (c : Chain β α) : Chain β (Chain β α) := cutFrom p c.first c.rest

/-- Joins the operands level by level, for operators up to a level. -/
def join (k : α → Arithmetic → α → α) : Nat → Chain Arithmetic α → α
  | 0, c => c.first
  | n + 1, c => ((c.cut (n < ·.level)).map (join k n)).foldl k

def sidesFrom : α → List (Operator × α) → Chain Relation (Chain Arithmetic α)
  | a, [] => ⟨⟨a, []⟩, []⟩
  | a, (.arithmetic op, b) :: rest =>
    let sides := sidesFrom b rest
    { sides with first := sides.first.cons a op }
  | a, (.relation op, b) :: rest => (sidesFrom b rest).cons ⟨a, []⟩ op

def sides (c : Chain Operator α) : Chain Relation (Chain Arithmetic α) := sidesFrom c.first c.rest

def result (c : Chain Arithmetic Scalar) : Option Scalar :=
  (c.map some).join (fun a op b => do op.apply (← a) (← b)) 6

def compared (left : Scalar) : List (Relation × Chain Arithmetic Scalar) → Option Scalar
  | [] => some (.bool true)
  | (op, side) :: rest => do
    let right ← side.result
    if op.holds left right then compared right rest else return .bool false

def eval (c : Chain Operator Scalar) : Option Scalar :=
  match c.sides.rest with
  | [] => c.sides.first.result
  | links => do compared (← c.sides.first.result) links

/-! ### Cutting -/

@[induction_eliminator]
theorem induction {motive : Chain β α → Prop} (single : ∀ a, motive ⟨a, []⟩)
    (cons : ∀ a op c, motive c → motive (cons a op c)) (c : Chain β α) : motive c := by
  obtain ⟨a, rest⟩ := c
  induction rest generalizing a with
  | nil => exact single a
  | cons link rest ih => exact cons a link.1 ⟨link.2, rest⟩ (ih link.2)

section Cut

variable {p q : β → Bool}

theorem cut_cons (a : α) (op : β) (c : Chain β α) :
    (c.cons a op).cut p =
      if p op then (c.cut p).cons ⟨a, []⟩ op else { c.cut p with first := (c.cut p).first.cons a op } := rfl

theorem cut_replace (a : α) (c : Chain β α) :
    (⟨a, c.rest⟩ : Chain β α).cut p = { c.cut p with first := ⟨a, (c.cut p).first.rest⟩ } := by
  cases c using induction with
  | single b => rfl
  | cons b op c _ =>
    change (c.cons a op).cut p = _
    rw [cut_cons, cut_cons]
    cases p op <;> rfl

theorem first_cut (p : β → Bool) (c : Chain β α) : (c.cut p).first.first = c.first :=
  congrArg (fun parts => parts.first.first) (cut_replace c.first c)

theorem cut_congr {c : Chain β α} (h : ∀ link ∈ c.rest, p link.1 = q link.1) : c.cut p = c.cut q := by
  induction c with
  | single a => rfl
  | cons a op c ih =>
    have hop : p op = q op := h (op, c.first) List.mem_cons_self
    rw [cut_cons, cut_cons, hop, ih fun link hlink => h link (List.mem_cons_of_mem _ hlink)]

theorem of_mem_cut {link : β × Chain β α} {c : Chain β α} (h : link ∈ (c.cut p).rest) : p link.1 = true := by
  induction c with
  | single a => cases h
  | cons a op c ih =>
    rw [cut_cons] at h
    split at h
    · rename_i hop
      rcases List.mem_cons.mp h with rfl | hmem
      · exact hop
      · exact ih hmem
    · exact ih h

theorem cut_of_all (h : ∀ op, p op = true) (c : Chain β α) : (c.cut p).map first = c := by
  induction c with
  | single a => rfl
  | cons a op c ih =>
    have hmap : ((c.cut p).cons ⟨a, []⟩ op).map first = ((c.cut p).map first).cons a op := rfl
    rw [cut_cons, if_pos (h op), hmap, ih]

theorem cut_of_none (h : ∀ op, p op = false) (c : Chain β α) : c.cut p = ⟨c, []⟩ := by
  induction c with
  | single a => rfl
  | cons a op c ih =>
    rw [cut_cons, h op, if_neg Bool.false_ne_true, ih]

theorem cut_map (f : α → γ) (c : Chain β α) : (c.map f).cut p = (c.cut p).map (map f) := by
  induction c with
  | single a => rfl
  | cons a op c ih =>
    change ((c.map f).cons (f a) op).cut p = _
    rw [cut_cons, cut_cons, ih]
    cases p op <;> rfl

theorem cut_cut (h : ∀ op, q op = true → p op = true) (c : Chain β α) : (c.cut p).cut q = (c.cut q).map (cut p) := by
  induction c with
  | single a => rfl
  | cons a op c ih =>
    rw [cut_cons, cut_cons]
    cases hp : p op with
    | true =>
      rw [if_pos rfl, cut_cons, ih]
      cases q op with
      | true => rfl
      | false =>
        have hpart : ((c.cut q).first.cons a op).cut p = ((c.cut q).first.cut p).cons ⟨a, []⟩ op := by
          rw [cut_cons, hp, if_pos rfl]
        simp only [map, Bool.false_eq_true, if_false, hpart]
    | false =>
      -- Neither cut is made at this operator, so the first parts only grow by one operand.
      have hq : q op = false := by
        cases hq : q op with
        | false => rfl
        | true => simp [h op hq] at hp
      have hpart : ((c.cut q).first.cons a op).cut p =
          { (c.cut q).first.cut p with first := ((c.cut q).first.cut p).first.cons a op } := by
        rw [cut_cons, hp, if_neg Bool.false_ne_true]
      have hfirst : (c.cut p).first = ((c.cut q).first.cut p).first := by
        rw [← first_cut q (c.cut p), ih]
        rfl
      have hgrown := cut_replace (p := q) ((c.cut p).first.cons a op) (c.cut p)
      rw [hq, if_neg Bool.false_ne_true, if_neg Bool.false_ne_true, hgrown, ih]
      simp only [map, hpart, hfirst]

end Cut

/-! ### Joining -/

section Join

theorem map_map {δ : Type} (g : γ → δ) (f : α → γ) (c : Chain β α) : (c.map f).map g = c.map fun a => g (f a) := by
  simp [map]

theorem foldl_hom {k : α → β → α → α} {k' : γ → β → γ → γ} {f : α → γ}
    (h : ∀ a op b, f (k a op b) = k' (f a) op (f b)) (c : Chain β α) : f (c.foldl k) = (c.map f).foldl k' := by
  unfold foldl map
  rw [List.foldl_map]
  exact (List.foldl_hom f fun a link => (h a link.1 link.2).symm).symm

theorem join_hom {k : α → Arithmetic → α → α} {k' : γ → Arithmetic → γ → γ} {f : α → γ}
    (h : ∀ a op b, f (k a op b) = k' (f a) op (f b)) (n : Nat) (c : Chain Arithmetic α) :
    f (c.join k n) = (c.map f).join k' n := by
  induction n generalizing c with
  | zero => rfl
  | succ n ih =>
    have hparts : ((c.cut (n < ·.level)).map fun part => f (join k n part)) =
        ((c.cut (n < ·.level)).map (map f)).map (join k' n) := by
      rw [map_map]
      exact congrArg (fun g => (c.cut (n < ·.level)).map g) (funext ih)
    calc f (c.join k (n + 1))
      _ = ((c.cut (n < ·.level)).map fun part => f (join k n part)).foldl k' := by
        rw [join, foldl_hom h, map_map]
      _ = (c.map f).join k' (n + 1) := by rw [hparts, ← cut_map, join]

theorem join_succ (k : α → Arithmetic → α → α) (n : Nat) (c : Chain Arithmetic α) :
    (((c.cut (n < ·.level)).map (join k n)).cut (·.level != n + 1)).map (foldl k) =
      (c.cut (n + 1 < ·.level)).map (join k (n + 1)) := by
  have hlevel : (c.cut (n < ·.level)).cut (·.level != n + 1) = (c.cut (n < ·.level)).cut (n + 1 < ·.level) := by
    refine cut_congr fun link hlink => ?_
    have hlink : n < link.1.level := by simpa using of_mem_cut hlink
    rw [Bool.eq_iff_iff, bne_iff_ne, decide_eq_true_eq]
    omega
  have hfiner (op : Arithmetic) (h : decide (n + 1 < op.level) = true) : decide (n < op.level) = true := by
    rw [decide_eq_true_eq] at h ⊢
    omega
  rw [cut_map, hlevel, cut_cut hfiner, map_map, map_map]
  rfl

end Join

end Chain

end Bang
