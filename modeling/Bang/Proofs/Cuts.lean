import Bang.Proofs.Contract
import Bang.Proofs.Framing
import Bang.Proofs.Guard
import Mathlib.Data.List.Induction

/-! How a program is cut into statements. Cutting and running go hand in hand, but the cuts depend on the tokens only:
a program runs the statements of its segmentation one after the other, and then complains about what is left. -/

namespace Bang.Statement

open Machine Run

/-! ### Where a program is cut -/

/-- A statement, and the `!` that is dropped behind it unless a brace ends it. -/
structure Cut where
  statement : List Token
  mark : Option Token

def Cut.tokens (cut : Cut) : List Token := cut.statement ++ cut.mark.toList

/-- Cut before the first `!` outside all braces, or behind the first brace that closes the last open
one. -/
inductive Cut.IsProper : Cut → Prop
  | mark {tokens : List Token} {e : Token} : Uncut 0 tokens → nesting tokens = 0 → endsStatement e →
      IsProper ⟨tokens, some e⟩
  | brace {tokens : List Token} {c : Token} : Uncut 0 tokens → nesting tokens = 1 → closesBlock c →
      IsProper ⟨tokens ++ [c], none⟩

inductive Left : List Token → Option Diagnostic → Prop
  | nothing : Left [] none
  | unfinished {tokens : List Token} {last : Token} : Uncut 0 (tokens ++ [last]) →
      Left (tokens ++ [last]) (some (.statementUnfinished last.line))
  | stray {tokens rest : List Token} {c : Token} : Uncut 0 tokens → nesting tokens = 0 → closesBlock c →
      Left (tokens ++ c :: rest) (some (.braceUnopened c.line))

/-- The statements of a program's body. Nothing is lost: what is in no statement is a `!` between
two of them, or left behind the last one. -/
structure Segmentation (body : List Token) where
  cuts : List Cut
  left : List Token
  complaint : Option Diagnostic
  isProper : ∀ cut ∈ cuts, cut.IsProper
  isLeft : Left left complaint
  lossless : body = cuts.flatMap Cut.tokens ++ left

def Segmentation.run {m : Type → Type} [Machine m] {body : List Token} (seg : Segmentation body)
    (inner : List Token → m Unit) : m Unit := do
  forM seg.cuts fun cut => inner cut.statement
  seg.complaint.elim (pure ()) report

section Uncut

variable {braces : Int} {t : Token} {ts us : List Token}

theorem uncut_append : Uncut braces (ts ++ us) ↔ Uncut braces ts ∧ Uncut (braces + nesting ts) us := by
  induction ts generalizing braces with
  | nil => simp [Uncut, nesting]
  | cons t ts ih => rw [List.cons_append, Uncut, Uncut, ih, nesting_cons, Int.add_assoc, and_assoc]

theorem exists_cutsAt (braces : Int) (tokens : List Token) :
    Uncut braces tokens ∨ ∃ before t after, tokens = before ++ t :: after ∧ Uncut braces before ∧
      cutsAt (braces + nesting before) t = true := by
  induction tokens generalizing braces with
  | nil => exact .inl True.intro
  | cons t ts ih =>
    cases hcut : cutsAt braces t with
    | true => exact .inr ⟨[], t, ts, rfl, True.intro, by simpa [nesting] using hcut⟩
    | false =>
      rcases ih (braces + braceStep t) with huncut | ⟨before, u, after, rfl, huncut, hlater⟩
      · exact .inl ⟨hcut, huncut⟩
      · refine .inr ⟨t :: before, u, after, rfl, ⟨hcut, huncut⟩, ?_⟩
        rwa [nesting_cons, ← Int.add_assoc]

end Uncut

theorem exists_segmentation (body : List Token) : Nonempty (Segmentation body) := by
  -- Each cut makes what is left shorter.
  induction hlength : body.length using Nat.strong_induction_on generalizing body with
  | _ n ih =>
    rcases exists_cutsAt 0 body with huncut | ⟨before, t, after, rfl, huncut, hcut⟩
    · rcases List.eq_nil_or_concat body with rfl | ⟨front, last, rfl⟩
      · exact ⟨[], [], none, by simp, .nothing, rfl⟩
      · rw [List.concat_eq_append] at huncut ⊢
        exact ⟨[], _, _, by simp, .unfinished huncut, rfl⟩
    · -- Behind a cut the rest is segmented by itself.
      have hbehind {cut : Cut} (hproper : cut.IsProper) (htokens : cut.tokens = before ++ [t]) :
          Nonempty (Segmentation (before ++ t :: after)) := by
        have hshorter : after.length < n := by
          rw [← hlength, List.length_append, List.length_cons]
          omega
        obtain ⟨seg⟩ := ih _ hshorter after rfl
        refine ⟨cut :: seg.cuts, seg.left, seg.complaint, ?_, seg.isLeft, ?_⟩
        · exact List.forall_mem_cons.mpr ⟨hproper, seg.isProper⟩
        · rw [List.flatMap_cons, htokens, List.append_assoc, ← seg.lossless, List.append_assoc, List.singleton_append]
      rw [Int.zero_add] at hcut
      rcases (Bool.or_eq_true _ _).mp hcut with hend | hclose
      · obtain ⟨he, hbraces⟩ := (Bool.and_eq_true _ _).mp hend
        exact hbehind (.mark huncut (eq_of_beq hbraces) he) rfl
      · obtain ⟨hc, hbraces⟩ := (Bool.and_eq_true _ _).mp hclose
        have hle : nesting before ≤ 1 := of_decide_eq_true hbraces
        have hnonneg := huncut.nesting_nonneg (Int.le_refl 0)
        rcases (show nesting before = 0 ∨ nesting before = 1 by omega) with hzero | hone
        · exact ⟨[], _, _, by simp, .stray huncut hzero hc, rfl⟩
        · exact hbehind (.brace huncut hone hc) (List.append_nil _)

/-! ### Statements are balanced -/

inductive Opened : Nat → List Token → Prop
  | balanced {ts : List Token} : Balanced ts → Opened 0 ts
  | opening {k : Nat} {front inside : List Token} {o : Token} : Opened k front → opensBlock o → Balanced inside →
      Opened (k + 1) (front ++ o :: inside)

section Opened

variable {k : Nat} {ts us : List Token} {t : Token}

theorem Opened.append (h : Opened k ts) (hus : Balanced us) : Opened k (ts ++ us) := by
  cases h with
  | balanced hts => exact .balanced (hts.append hus)
  | opening hfront ho hinside =>
    rw [List.append_assoc, List.cons_append]
    exact .opening hfront ho (hinside.append hus)

theorem Opened.close (h : Opened (k + 1) ts) (hc : closesBlock t) : Opened k (ts ++ [t]) := by
  cases h with
  | opening hfront ho hinside =>
    rw [List.append_assoc, List.cons_append]
    exact hfront.append (.group ho hc hinside .nil)

theorem Opened.isBalanced (h : Opened 0 ts) : Balanced ts := by
  cases h with
  | balanced hts => exact hts

theorem Uncut.opened (h : Uncut 0 ts) : Opened (nesting ts).toNat ts := by
  induction ts using List.reverseRecOn with
  | nil => exact .balanced .nil
  | append_singleton ts t ih =>
    obtain ⟨hts, hcut, -⟩ := uncut_append.mp h
    have hopened := ih hts
    have hnonneg := hts.nesting_nonneg (Int.le_refl 0)
    rw [Int.zero_add] at hcut hnonneg
    rw [nesting_append, nesting_singleton]
    cases ho : opensBlock t with
    | true =>
      have hnext : (nesting ts + 1).toNat = (nesting ts).toNat + 1 := by omega
      rw [braceStep_of_opensBlock ho, hnext]
      exact .opening hopened ho .nil
    | false =>
      cases hc : closesBlock t with
      | true =>
        have hopen := cutsAt_of_closesBlock hc hcut
        have hnext : (nesting ts).toNat = (nesting ts + -1).toNat + 1 := by omega
        rw [hnext] at hopened
        rw [braceStep_of_closesBlock hc]
        exact hopened.close hc
      | false =>
        have hstep : braceStep t = 0 := by simp [braceStep, ho, hc]
        rw [hstep, Int.add_zero]
        exact hopened.append (.token hstep .nil)

theorem Cut.IsProper.balanced {cut : Cut} (h : cut.IsProper) : Balanced cut.statement := by
  cases h with
  | mark huncut hzero _ =>
    have hopened := huncut.opened
    rw [hzero] at hopened
    exact hopened.isBalanced
  | brace huncut hone hc =>
    have hopened := huncut.opened
    rw [hone] at hopened
    exact (hopened.close hc).isBalanced

end Opened

/-! ### Running the statements -/

section TopLevel

variable {m : Type → Type} [Machine m] (inner : List Token → m Unit)

theorem topLevel_left {left : List Token} {complaint : Option Diagnostic} (h : Left left complaint)
    (hleft : All IsInner left) {mark : Token} (hmark : mark.kind = .finish) :
    topLevel inner true 0 [] (left ++ [mark]) = complaint.elim (pure ()) report := by
  cases h with
  | nothing => simp [topLevel, hmark]
  | @unfinished tokens last huncut =>
    rw [topLevel_uncut inner huncut hleft]
    simp [topLevel, hmark]
  | @stray tokens rest c huncut hzero hc =>
    have hc' : IsInner c := hleft c (by simp)
    rw [List.append_assoc, topLevel_uncut inner huncut (hleft.subset (by simp)), hzero, List.cons_append,
      topLevel_cons inner hc']
    simp [endsStatement_of_closesBlock hc, opensBlock_of_closesBlock hc, hc]

theorem topLevel_cut {cut : Cut} (h : cut.IsProper) (hcut : All IsInner cut.tokens) (rest : List Token) :
    topLevel inner true 0 [] (cut.tokens ++ rest) = (do inner cut.statement; topLevel inner true 0 [] rest) := by
  cases h with
  | @mark tokens e huncut hzero he =>
    have hcut : All IsInner (tokens ++ [e]) := hcut
    have he' : IsInner e := hcut e (by simp)
    change topLevel inner true 0 [] ((tokens ++ [e]) ++ rest) = _
    rw [List.append_assoc, topLevel_uncut inner huncut (hcut.subset (by simp)), hzero, List.singleton_append,
      topLevel_cons inner he']
    simp [he]
  | @brace tokens c huncut hone hc =>
    have hcut : All IsInner (tokens ++ [c]) := fun t ht => hcut t (by simpa [Cut.tokens] using ht)
    have hc' : IsInner c := hcut c (by simp)
    have htokens : Cut.tokens ⟨tokens ++ [c], none⟩ = tokens ++ [c] := List.append_nil _
    rw [htokens, List.append_assoc, topLevel_uncut inner huncut (hcut.subset (by simp)), hone, List.singleton_append,
      topLevel_cons inner hc']
    simp [endsStatement_of_closesBlock hc, opensBlock_of_closesBlock hc, hc]

theorem topLevel_cuts [LawfulMachine m] {cuts : List Cut} (hproper : ∀ cut ∈ cuts, cut.IsProper) {left : List Token}
    {complaint : Option Diagnostic} (hleft : Left left complaint)
    (hinner : All IsInner (cuts.flatMap Cut.tokens ++ left))
    {mark : Token} (hmark : mark.kind = .finish) :
    topLevel inner true 0 [] (cuts.flatMap Cut.tokens ++ left ++ [mark]) =
      (do forM cuts fun cut => inner cut.statement
          complaint.elim (pure ()) report) := by
  induction cuts with
  | nil =>
    rw [List.forM_nil, pure_bind]
    exact topLevel_left inner hleft hinner hmark
  | cons cut cuts ih =>
    obtain ⟨hcut, hcuts⟩ := List.forall_mem_cons.mp hproper
    have hfront : All IsInner cut.tokens := hinner.subset (by simp)
    have hrest : All IsInner (cuts.flatMap Cut.tokens ++ left) := hinner.subset (by simp)
    rw [List.flatMap_cons, List.append_assoc, List.append_assoc, topLevel_cut inner hcut hfront,
      ← List.append_assoc, ih hcuts hrest, List.forM_cons, bind_assoc]

theorem topLevel_segmentation [LawfulMachine m] {body : List Token} (seg : Segmentation body) (hbody : All IsInner body)
    {mark : Token} (hmark : mark.kind = .finish) : topLevel inner true 0 [] (body ++ [mark]) = seg.run inner := by
  obtain ⟨cuts, left, complaint, hproper, hleft, rfl⟩ := seg
  exact topLevel_cuts inner hproper hleft hbody hmark

end TopLevel

end Bang.Statement

namespace Bang

open Machine Run Statement

/-! ### Programs -/

namespace Program

def Framed (tokens : List Token) : Prop :=
  tokens.head?.any (·.kind == .start) = true ∧ tokens.getLast?.any (·.kind == .finish) = true

instance : DecidablePred Framed := fun _ => inferInstanceAs (Decidable (_ ∧ _))

/-- The tokens before the first end mark, without start marks. -/
def body (tokens : List Token) : List Token := unstarted (tokens.takeWhile (·.kind != .finish))

section Body

variable {m : Type → Type} [Machine m] {t : Token} {ts tokens : List Token}

theorem body_of_start (h : t.kind = .start) : body (t :: ts) = body ts := by simp [body, unstarted, h]

theorem body_of_finish (h : t.kind = .finish) : body (t :: ts) = [] := by simp [body, unstarted, h]

theorem body_of_isInner (h : IsInner t) : body (t :: ts) = t :: body ts := by simp [body, unstarted, h.1, h.2]

theorem isInner_body (tokens : List Token) : All IsInner (body tokens) := by
  intro t ht
  obtain ⟨htaken, hstart⟩ := List.mem_filter.mp ht
  have hfinish := List.all_eq_true.mp List.all_takeWhile t htaken
  exact ⟨by simpa using hstart, by simpa using hfinish⟩

theorem topLevel_body (inner : List Token → m Unit) (h : ∃ t ∈ tokens, t.kind = .finish) {mark : Token}
    (hmark : mark.kind = .finish) (braces : Nat) (pending : List Token) :
    topLevel inner true braces pending tokens = topLevel inner true braces pending (body tokens ++ [mark]) := by
  induction tokens generalizing braces pending with
  | nil =>
    obtain ⟨t, ht, _⟩ := h
    cases ht
  | cons t ts ih =>
    by_cases hfinish : t.kind = .finish
    · rw [body_of_finish hfinish]
      simp [topLevel, hfinish, hmark]
    · have hrest : ∃ u ∈ ts, u.kind = .finish := by
        obtain ⟨u, hu, hkind⟩ := h
        rcases List.mem_cons.mp hu with rfl | hu
        · exact absurd hkind hfinish
        · exact ⟨u, hu, hkind⟩
      by_cases hstart : t.kind = .start
      · rw [body_of_start hstart, ← ih hrest]
        simp [topLevel, hstart]
      · have ht : IsInner t := ⟨hstart, hfinish⟩
        rw [body_of_isInner ht, List.cons_append, topLevel_cons inner ht, topLevel_cons inner ht]
        simp only [ih hrest]

theorem statements_of_framed (d : Dialect) (limits : Limits) (h : Framed tokens) {mark : Token}
    (hmark : mark.kind = .finish) :
    (statements d limits tokens : m Unit) =
      topLevel (exec d limits.rounds limits.depth) true 0 [] (body tokens ++ [mark]) := by
  obtain ⟨hhead, hlast⟩ := h
  cases tokens with
  | nil => cases hhead
  | cons first ts =>
    have hstart : first.kind = .start := eq_of_beq hhead
    obtain ⟨last, hsome⟩ : ∃ last, (first :: ts).getLast? = some last :=
      ⟨_, List.getLast?_eq_some_getLast (List.cons_ne_nil first ts)⟩
    have hfinish : last.kind = .finish := by
      rw [hsome] at hlast
      exact eq_of_beq hlast
    have hmem : last ∈ ts := by
      rcases List.mem_cons.mp (List.mem_of_getLast? hsome) with rfl | hmem
      · rw [hstart] at hfinish
        cases hfinish
      · exact hmem
    have hbegin : (statements d limits (first :: ts) : m Unit) =
        topLevel (exec d limits.rounds limits.depth) true 0 [] ts := by
      unfold statements
      rw [hsome]
      simp [isFramed, hstart, hfinish, topLevel]
    rw [hbegin, body_of_start hstart]
    exact topLevel_body _ ⟨last, hmem, hfinish⟩ hmark 0 []

end Body

end Program

/-! ### Faults of statements and of programs -/

def stoppingWith (stops : Fault → Prop) : Contract where
  Step _ _ := True
  Stops := stops
  refl _ := True.intro
  trans _ _ := True.intro

namespace stoppingWith

variable {stops : Fault → Prop}

theorem meets {α : Type} {x : Run α} (h : ∀ s fault, (x.run s).1 = .error fault → stops fault) :
    x.Meets (stoppingWith stops) := fun s => ⟨True.intro, h s⟩

variable (h : ∀ fault : Fault, fault.isOfProgram = false → stops fault)
include h

theorem store (d : Dialect) (line : Int) (name : String) (v : Value) :
    (store d line name v : Run Unit).Meets (stoppingWith stops) := by
  refine meets fun s fault hfault => h fault ?_
  cases hrefused : refusal? d line name v s with
  | none =>
    rw [run_store_of_none hrefused] at hfault
    cases hfault
  | some refused =>
    rw [run_store_of_some hrefused] at hfault
    obtain rfl : refused = fault := Except.error.inj hfault
    rcases refusal?_eq_some hrefused with rfl | ⟨old, new, rfl⟩ | ⟨rfl, _⟩ <;> rfl

theorem define (name : String) (f : Function) : (define name f : Run Unit).Meets (stoppingWith stops) := by
  refine .seq (Contract.lookup functionsName) fun binding => ?_
  split
  · exact .stop (h _ rfl)
  · exact .stop (h _ rfl)
  · exact .of_ok fun s => ⟨(), _, rfl, True.intro⟩

theorem leaves (d : Dialect) : (stoppingWith stops).Leaves d (fun _ => True) where
  part _ _ := True.intro
  stops := h _
  note _ _ := True.intro
  log _ _ := True.intro
  store _ v := store h d _ _ v
  define _ name f := define h name f

theorem finishCall (name : String) : (finishCall name : Run Unit).Meets (stoppingWith stops) := by
  refine .seq (.of_ok fun s => ⟨s, s, rfl, True.intro⟩) fun s => ?_
  split
  · exact .of_ok fun s => ⟨(), _, rfl, True.intro⟩
  · exact .stop (h _ rfl)

theorem exec (d : Dialect) (rounds depth : Nat) (tokens : List Token) :
    (exec d rounds depth tokens : Run Unit).Meets (stoppingWith stops) := by
  refine Contract.exec (leaves h d) (fun _ depth hinner tokens => ?_) depth True.intro
  refine Contract.call (leaves h d) (fun arguments body => ?_) (finishCall h) tokens
  have hblock : (block (Statement.exec d rounds depth) body : Run Unit).Meets (stoppingWith stops) :=
    Contract.block (leaves h d) hinner True.intro
  exact meets fun s => (hblock (s.enter arguments)).2

end stoppingWith

theorem Statement.Segmentation.meets {body : List Token} (seg : Segmentation body) {C : Contract}
    {inner : List Token → Run Unit} (hinner : ∀ tokens, (inner tokens).Meets C)
    (hcomplaint : ∀ line, C.Stops (.diagnostic (.statementUnfinished line)) ∧
      C.Stops (.diagnostic (.braceUnopened line))) :
    (seg.run inner).Meets C := by
  have hcuts (cuts : List Cut) : (forM cuts fun cut => inner cut.statement : Run Unit).Meets C := by
    induction cuts with
    | nil => exact .ret ()
    | cons cut cuts ih =>
      rw [List.forM_cons]
      exact .seq (hinner cut.statement) fun _ => ih
  have hleft {left : List Token} {complaint : Option Diagnostic} (hleft : Left left complaint) :
      (complaint.elim (pure ()) report : Run Unit).Meets C := by
    cases hleft with
    | nothing => exact .ret ()
    | unfinished _ => exact .stop (hcomplaint _).1
    | stray _ _ _ => exact .stop (hcomplaint _).2
  exact .seq (hcuts seg.cuts) fun _ => hleft seg.isLeft

namespace Program

theorem statements_eq_run {m : Type → Type} [Machine m] [LawfulMachine m] (d : Dialect) (limits : Limits)
    {tokens : List Token} (h : Framed tokens) (seg : Segmentation (body tokens)) :
    (statements d limits tokens : m Unit) = seg.run (exec d limits.rounds limits.depth) := by
  have hmark : Token.kind ⟨.finish, "FIN", 1⟩ = .finish := rfl
  rw [statements_of_framed d limits h hmark, topLevel_segmentation _ seg (isInner_body tokens) hmark]

theorem ne_programUnclosed (d : Dialect) (limits : Limits) (tokens : List Token) (s : State) :
    ((runTokens d limits tokens).run s).1 ≠ .error (.diagnostic .programUnclosed) := by
  have hmeets : (statements d limits tokens : Run Unit).Meets (stoppingWith (· ≠ .diagnostic .programUnclosed)) := by
    by_cases h : Framed tokens
    · obtain ⟨seg⟩ := exists_segmentation (body tokens)
      rw [statements_eq_run d limits h seg]
      refine seg.meets (stoppingWith.exec ?_ d limits.rounds limits.depth) fun line => ?_
      · rintro fault hfault rfl
        cases hfault
      · exact ⟨by simp [stoppingWith], by simp [stoppingWith]⟩
    · unfold statements
      split
      · rename_i first last hfirst hlast
        have hframe : isFramed first last = false := by
          rw [← Bool.not_eq_true]
          intro hframed
          exact h (by simpa [Framed, hfirst, hlast, isFramed] using hframed)
        rw [hframe]
        exact .stop (by simp [stoppingWith])
      · exact .stop (by simp [stoppingWith])
  intro hfault
  have hresult : (((statements d limits tokens : Run Unit)).run (start d s)).1 =
      .error (.diagnostic .programUnclosed) :=
    (fst_finish s _).symm.trans hfault
  exact (hmeets (start d s)).2 _ hresult rfl

section Interrupted

def storingInside : List Token :=
  [bracket "\x7b" 2, ⟨.identifier, "y", 2⟩, ⟨.operator, "=", 2⟩, ⟨.number, "2", 2⟩, bracket "!" 2, bracket "\x7d" 3]

/-- The tokens of `INICIO x=1! INICIO {y=2!} z FIN } FIN`. -/
def interrupted : List Token :=
  ⟨.start, "INICIO", 1⟩ :: (storingOne ++ bracket "!" 1 :: ⟨.start, "INICIO", 2⟩ :: (storingInside ++
    [⟨.identifier, "z", 3⟩, ⟨.finish, "FIN", 3⟩, bracket "\x7d" 3, ⟨.finish, "FIN", 3⟩]))

end Interrupted

end Program

end Bang
