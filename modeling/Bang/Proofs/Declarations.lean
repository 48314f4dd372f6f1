import Bang.Proofs.Slices
import Bang.Proofs.Steps

/-! Declarations of functions. A declaration is accepted exactly if its tokens have the form of one. It then changes
nothing but what its name stands for among the functions and their uses; one that is refused changes nothing. -/

namespace Bang

open Machine Run Statement

namespace Statement

inductive Declares : List Token → String → Function → Prop
  | form {first name opening closing brace : Token} {inside rest : List Token} :
    name.isIdentifier → opening.text = "(" → (∀ t ∈ inside, t.isIdentifier ∨ t.text = ",") → closing.text = ")" →
      opensBlock brace →
        Declares (first :: name :: opening :: (inside ++ closing :: brace :: rest)) name.text
          ⟨(inside.filter Token.isIdentifier).map Token.text, brace :: rest⟩

theorem upToClosing?_of_no_bracket {inside : List Token} (h : ∀ t ∈ inside, t.text ≠ "(" ∧ t.text ≠ ")")
    {closing : Token} (hclosing : closing.text = ")") (behind : List Token) :
    upToClosing? 0 (inside ++ closing :: behind) = some (inside, behind) := by
  induction inside with
  | nil => simp [upToClosing?, hclosing]
  | cons t ts ih =>
    obtain ⟨hopen, hclose⟩ := h t List.mem_cons_self
    have hrest := ih fun u hu => h u (List.mem_cons_of_mem t hu)
    simp [upToClosing?, hopen, hclose, hrest]

variable {s : State}

theorem run_parameters (inside : List Token) (s : State) :
    (∀ t ∈ inside, t.isIdentifier ∨ t.text = ",") ∧
        (parameters inside : Run (List String)).run s = (.ok ((inside.filter Token.isIdentifier).map Token.text), s) ∨
      (¬ ∀ t ∈ inside, t.isIdentifier ∨ t.text = ",") ∧
        ∃ line, (parameters inside : Run (List String)).run s =
          (.error (.diagnostic (.functionParameter line)), s) := by
  induction inside with
  | nil => exact .inl ⟨by simp, rfl⟩
  | cons t ts ih =>
    rw [List.forall_mem_cons]
    unfold parameters
    by_cases hidentifier : t.isIdentifier
    · rw [if_pos hidentifier, List.filter_cons_of_pos hidentifier]
      rcases ih with ⟨hts, hrun⟩ | ⟨hts, line, hrun⟩
      · exact .inl ⟨⟨.inl hidentifier, hts⟩, run_bind_ok hrun⟩
      · exact .inr ⟨fun h => hts h.2, line, run_bind_error hrun⟩
    · rw [if_neg hidentifier, List.filter_cons_of_neg hidentifier]
      by_cases hcomma : t.text = ","
      · rw [if_pos (beq_iff_eq.mpr hcomma)]
        rcases ih with ⟨hts, hrun⟩ | ⟨hts, line, hrun⟩
        · exact .inl ⟨⟨.inr hcomma, hts⟩, hrun⟩
        · exact .inr ⟨fun h => hts h.2, line, hrun⟩
      · rw [if_neg fun h => hcomma (eq_of_beq h)]
        exact .inr ⟨fun h => h.1.elim hidentifier hcomma, t.line, rfl⟩

variable {ns : Namespace} {name : String} {f : Function} {tokens : List Token}

theorem run_define (hns : s.scope.get? functionsName = some (.functions ns)) :
    (define name f : Run Unit).run s = (.ok (), s.declare name f (ns.insert name (.function f))) := by
  unfold define
  rw [run_bind_ok run_lookup?, hns]
  rfl

theorem Declares.run (h : Declares tokens name f) (hns : s.scope.get? functionsName = some (.functions ns))
    (hnames : ∀ t ∈ tokens, t.isIdentifier → t.text ≠ "(" ∧ t.text ≠ ")") :
    (declare tokens : Run Unit).run s = (.ok (), s.declare name f (ns.insert name (.function f))) := by
  obtain @⟨first, name, opening, closing, brace, inside, rest, hname, hopening, hinside, hclosing, hbrace⟩ := h
  have hplain : ∀ t ∈ inside, t.text ≠ "(" ∧ t.text ≠ ")" := by
    intro t ht
    rcases hinside t ht with hidentifier | hcomma
    · exact hnames t (by simp [ht]) hidentifier
    · rw [hcomma]
      decide
  have hclosed := upToClosing?_of_no_bracket hplain hclosing (brace :: rest)
  have hparams := ((run_parameters inside s).resolve_right fun h => h.1 hinside).2
  -- There is always a fourth token: the closing bracket, if not a parameter.
  obtain ⟨t, ts, htail⟩ : ∃ t ts, inside ++ closing :: brace :: rest = t :: ts :=
    List.exists_cons_of_ne_nil (by simp)
  rw [htail] at hclosed ⊢
  have hbody : startsBlock (brace :: rest) = true := hbrace
  simp only [declare, hname, hopening, hclosed]
  rw [if_neg (by simp), if_neg (by simp), run_bind_ok hparams, if_pos hbody]
  exact run_define hns

theorem run_declare_cases (hne : tokens ≠ []) (s : State) :
    (∃ name f, Declares tokens name f) ∨
      ∃ diagnostic, (declare tokens : Run Unit).run s = (.error (.diagnostic diagnostic), s) := by
  unfold declare
  split
  · exact absurd rfl hne
  · rename_i first name opening t ts
    split
    · exact .inr ⟨_, rfl⟩
    · rename_i hname
      split
      · exact .inr ⟨_, rfl⟩
      · rename_i hopening
        split
        · exact .inr ⟨_, rfl⟩
        · rename_i inside body hclosed
          obtain ⟨closing, hclosing, htail⟩ := eq_of_upToClosing? hclosed
          rcases run_parameters inside s with ⟨hinside, hrun⟩ | ⟨_, line, hrun⟩
          · rw [run_bind_ok hrun, htail]
            split
            · rename_i hbody
              obtain ⟨brace, rest, rfl⟩ : ∃ brace rest, body = brace :: rest := by
                cases body with
                | nil => cases hbody
                | cons brace rest => exact ⟨brace, rest, rfl⟩
              refine .inl ⟨_, _, .form ?_ ?_ hinside hclosing hbody⟩
              · simpa using hname
              · simpa using hopening
            · exact .inr ⟨_, rfl⟩
          · exact .inr ⟨_, run_bind_error hrun⟩
  · exact .inr ⟨_, rfl⟩

end Statement

/-- What becomes of a state when a function is declared: its name stands for it among the functions,
it counts as not used, and all else is as it was. -/
structure State.Gains (s : State) (ns : Namespace) (name : String) (f : Function) (t : State) : Prop where
  functions : t.scope.get? functionsName = some (.functions (ns.insert name (.function f)))
  entries : ∀ other, other ≠ functionsName → t.scope.get? other = s.scope.get? other
  keys : t.scope.table.keys = s.scope.table.keys
  lent : t.scope.lent = s.scope.lent
  logs : t.logs = s.logs
  types : t.journal.types = s.journal.types
  variableUses : Mark.uses t.journal.variableMarks = Mark.uses s.journal.variableMarks
  functionUses : Mark.uses t.journal.functionMarks = (Mark.uses s.journal.functionMarks).insert name ⟨f, false⟩

theorem State.gains_declare {s : State} {ns : Namespace} (hns : s.scope.get? functionsName = some (.functions ns))
    (name : String) (f : Function) : s.Gains ns name f (s.declare name f (ns.insert name (.function f))) where
  functions := s.scope.table.get?_insert_self functionsName _
  entries other hother := s.scope.get?_withFunctions_of_ne _ hother
  keys := by
    have hmem : functionsName ∈ s.scope.table.keys := Assoc.mem_keys.mpr (Option.isSome_of_eq_some hns)
    change (s.scope.table.insert functionsName _).keys = _
    rw [Assoc.keys_insert, if_pos hmem]
  lent := rfl
  logs := rfl
  types := rfl
  variableUses := rfl
  functionUses := rfl

/-- Where there are functions, a declaration ends well exactly if its tokens have the form of one.
The function is then there, and nothing else has changed; otherwise the declaration is reported, and
nothing has changed at all. -/
theorem Statement.declare_isOk_iff (s : State) (ns : Namespace) (tokens : List Token)
    (hns : s.scope.get? functionsName = some (.functions ns)) (hne : tokens ≠ [])
    (hnames : ∀ t ∈ tokens, t.isIdentifier → t.text ≠ "(" ∧ t.text ≠ ")") :
    (((declare tokens : Run Unit).run s).1.isOk ↔ ∃ name f, Declares tokens name f) ∧
      (∀ name f, Declares tokens name f → s.Gains ns name f ((declare tokens : Run Unit).run s).2) ∧
        ∀ fault, ((declare tokens : Run Unit).run s).1 = .error fault →
          (∃ diagnostic, fault = .diagnostic diagnostic) ∧ ((declare tokens : Run Unit).run s).2 = s := by
  by_cases hform : ∃ name f, Declares tokens name f
  · obtain ⟨name, f, h⟩ := hform
    refine ⟨iff_of_true ?_ ⟨name, f, h⟩, fun other g hother => ?_, fun fault hfault => ?_⟩
    · rw [h.run hns hnames]
      rfl
    · rw [hother.run hns hnames]
      exact State.gains_declare hns other g
    · rw [h.run hns hnames] at hfault
      cases hfault
  · obtain ⟨diagnostic, hrun⟩ := (run_declare_cases hne s).resolve_left hform
    rw [hrun]
    refine ⟨iff_of_false (by simp [Except.isOk, Except.toBool]) hform, fun name f h => absurd ⟨name, f, h⟩ hform,
      fun fault hfault => ⟨⟨diagnostic, (Except.error.inj hfault).symm⟩, rfl⟩⟩

def pairDeclaration : List Token :=
  [⟨.keyword, "func", 1⟩, ⟨.identifier, "f", 1⟩, bracket "(" 1, ⟨.identifier, "a", 1⟩, ⟨.symbol, ",", 1⟩,
    ⟨.identifier, "b", 1⟩, bracket ")" 1, ⟨.symbol, "\x7b", 1⟩, ⟨.symbol, "\x7d", 1⟩]

def nestedDeclaration : List Token :=
  [⟨.keyword, "func", 1⟩, ⟨.identifier, "f", 1⟩, bracket "(" 1, bracket "(" 1, ⟨.identifier, "a", 1⟩, bracket ")" 1,
    bracket ")" 1, ⟨.symbol, "\x7b", 1⟩, ⟨.symbol, "\x7d", 1⟩]

theorem Statement.declare_isOk_iff_of_brackets :
    (Program.start .extended {}).Gains .empty "f" ⟨["a", "b"], pairDeclaration.drop 7⟩
        ((declare pairDeclaration : Run Unit).run (Program.start .extended {})).2 ∧
      ¬ ∃ name f, Declares nestedDeclaration name f := by
  have hform : Declares pairDeclaration "f" ⟨["a", "b"], pairDeclaration.drop 7⟩ :=
    @Declares.form ⟨.keyword, "func", 1⟩ ⟨.identifier, "f", 1⟩ (bracket "(" 1) (bracket ")" 1) ⟨.symbol, "\x7b", 1⟩
      [⟨.identifier, "a", 1⟩, ⟨.symbol, ",", 1⟩, ⟨.identifier, "b", 1⟩] [⟨.symbol, "\x7d", 1⟩]
      rfl rfl (by decide) rfl rfl
  have hpair := declare_isOk_iff (Program.start .extended {}) .empty pairDeclaration rfl (by decide) (by decide)
  have hnested := declare_isOk_iff (Program.start .extended {}) .empty nestedDeclaration rfl (by decide) (by decide)
  have hrefused : ((declare nestedDeclaration : Run Unit).run (Program.start .extended {})).1.isOk = false := by
    decide +kernel
  refine ⟨hpair.2.1 "f" _ hform, fun h => ?_⟩
  rw [← hnested.1, hrefused] at h
  cases h

end Bang
