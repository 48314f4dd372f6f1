import Bang.Proofs.Calls

/-! Statements without loops and calls end by themselves. What such a statement holds is shorter than the statement, so
that as many levels as it has tokens are enough, and it does the same on an interpreter with no limit at all. -/

namespace Bang

open Machine Run Statement

namespace Statement

/-- Runs a statement with all that it holds, without a limit on their depth. It goes down only to
lists of tokens that are shorter than the statement, and gives up at any other. -/
def descend {m : Type → Type} [Machine m] (d : Dialect) (tokens : List Token) : m Unit :=
  statement d 0 (fun part => if _ : part.length < tokens.length then descend d part else fail .exhausted) tokens
termination_by tokens.length

def IsStraight (d : Dialect) (t : Token) : Prop := t.text ≠ "doFor" ∧ (d = .extended → t.text ≠ "func")

instance (d : Dialect) (t : Token) : Decidable (IsStraight d t) := inferInstanceAs (Decidable (_ ∧ _))

end Statement

def State.IsCallless (d : Dialect) (s : State) : Prop :=
  d = .extended → ∀ ns : Namespace, s.scope.functions? = some ns → ns.keys = []

theorem State.isCallless_start (d : Dialect) (s : State) : (Program.start d s).IsCallless d := by
  intro hd ns hns
  subst hd
  obtain rfl : Assoc.empty = ns := Option.some.inj hns
  rfl

theorem State.IsCallless.put {d : Dialect} {s : State} (h : s.IsCallless d) {line : Int} {name : String} {v : Value}
    (haccepted : refusal? d line name v s = none) : (s.put name v).IsCallless d := by
  intro hd ns hns
  subst hd
  obtain ⟨type, htype, _⟩ := refusal?_extended_eq_none.mp haccepted
  change (s.scope.bind name v).functions? = some ns at hns
  by_cases hname : name = functionsName
  · subst hname
    rw [Scope.functions?, Scope.get?_bind_self, Binding.ofValue_of_type htype] at hns
    cases hns
  · rw [Scope.functions?_congr (Scope.get?_bind_of_ne s.scope (Ne.symm hname) v)] at hns
    exact h rfl ns hns

def Run.Settles {α : Type} (d : Dialect) (x y : Run α) : Prop :=
  ∀ s : State, s.IsCallless d → x.run s = y.run s ∧ (x.run s).2.IsCallless d ∧ (x.run s).1 ≠ .error .exhausted

namespace Run.Settles

variable {α β : Type} {d : Dialect}

theorem ret (a : α) : (pure a : Run α).Settles d (pure a) := fun _ hs => ⟨rfl, hs, nofun⟩

theorem stop {fault : Fault} (h : fault ≠ .exhausted) : (fail fault : Run α).Settles d (fail fault) :=
  fun _ hs => ⟨rfl, hs, fun heq => h (Except.error.inj heq)⟩

theorem report (complaint : Diagnostic) : (report complaint : Run α).Settles d (report complaint) :=
  stop (Fault.diagnostic complaint).noConfusion

theorem crash (cause : Crash) : (crash cause : Run α).Settles d (crash cause) :=
  stop (Fault.crash cause).noConfusion

theorem seq {x y : Run α} {f g : α → Run β} (hx : x.Settles d y) (hf : ∀ a, (f a).Settles d (g a)) :
    (x >>= f).Settles d (y >>= g) := by
  intro s hs
  obtain ⟨hsame, hcallless, hlasts⟩ := hx s hs
  rcases hrun : x.run s with ⟨result, t⟩
  rw [hrun] at hsame hcallless hlasts
  cases result with
  | error fault =>
    rw [run_bind_error hrun, run_bind_error hsame.symm]
    exact ⟨rfl, hcallless, fun heq => hlasts (congrArg Except.error (Except.error.inj heq))⟩
  | ok a =>
    rw [run_bind_ok hrun, run_bind_ok hsame.symm]
    exact hf a t hcallless

theorem lookup (name : String) : (lookup? name : Run (Option Binding)).Settles d (lookup? name) :=
  fun _ hs => ⟨rfl, hs, nofun⟩

theorem note (event : Event) : (note event : Run Unit).Settles d (note event) := fun _ hs => ⟨rfl, hs, nofun⟩

theorem log (line : String) : (log line : Run Unit).Settles d (log line) := fun _ hs => ⟨rfl, hs, nofun⟩

theorem firstLine (tokens : List Token) : (firstLine tokens : Run Int).Settles d (firstLine tokens) := by
  cases tokens with
  | nil => exact crash _
  | cons t ts => exact ret t.line

/-! ### Expressions and statements that hold no others -/

theorem tokenText (t : Token) : (tokenText t : Run (List Char)).Settles d (tokenText t) := by
  unfold Statement.tokenText
  split
  · refine seq (lookup t.text) fun binding => ?_
    cases binding with
    | none => exact report _
    | some binding =>
      refine seq (note _) fun _ => ?_
      cases operandText? binding.toValue with
      | none => exact crash _
      | some text => exact ret text
  · exact ret _
  · exact ret _
  · exact ret _
  · exact report _

theorem formulaText (tokens : List Token) : (formulaText tokens : Run (List Char)).Settles d (formulaText tokens) := by
  induction tokens with
  | nil => exact ret []
  | cons t ts ih => exact seq (tokenText t) fun text => seq ih fun rest => ret (text ++ rest)

theorem evaluate (tokens : List Token) : (evaluate tokens : Run Value).Settles d (evaluate tokens) := by
  refine seq (note _) fun _ => seq (formulaText tokens) fun text => ?_
  split
  · exact ret _
  · exact stop nofun
  · exact report _

theorem print (tokens : List Token) : (print tokens : Run Unit).Settles d (print tokens) := by
  refine seq (firstLine tokens) fun line => ?_
  split
  · exact report _
  · refine seq (evaluate _) fun v => ?_
    cases v.display with
    | none => exact crash _
    | some text => exact log _

theorem checkOperands (tokens : List Token) : (checkOperands tokens : Run Unit).Settles d (checkOperands tokens) := by
  induction tokens with
  | nil => exact ret ()
  | cons t ts ih =>
    refine seq (lookup t.text) fun binding => ?_
    split
    · exact report _
    · exact ih

theorem numberValue (text : String) : (numberValue text : Run Value).Settles d (numberValue text) := by
  unfold Statement.numberValue
  split
  · split
    · exact ret _
    · exact crash _
  · split
    · exact ret _
    · exact crash _
    · exact crash _

theorem assigned (tokens : List Token) : (assigned tokens : Run Value).Settles d (assigned tokens) := by
  unfold Statement.assigned
  split
  · exact numberValue _
  · exact ret _
  · exact seq (checkOperands tokens) fun _ => evaluate tokens

theorem store (line : Int) (name : String) (v : Value) :
    (store d line name v : Run Unit).Settles d (store d line name v) := by
  intro s hs
  cases hrefused : refusal? d line name v s with
  | none =>
    rw [run_store_of_none hrefused]
    exact ⟨rfl, hs.put hrefused, nofun⟩
  | some fault =>
    rw [run_store_of_some hrefused]
    refine ⟨rfl, hs, fun heq => ?_⟩
    obtain rfl : fault = .exhausted := Except.error.inj heq
    rcases refusal?_eq_some hrefused with h | ⟨_, _, h⟩ | ⟨h, _⟩ <;> cases h

theorem assign (tokens : List Token) : (assign d tokens : Run Unit).Settles d (assign d tokens) := by
  unfold Statement.assign
  split
  · exact seq (assigned _) fun v => store _ _ v
  · exact report _

theorem run_checkFunction (hd : d = .extended) {s : State} (hs : s.IsCallless d) (name : String) :
    ∃ fault, (checkFunction name : Run Unit).run s = (.error fault, s) ∧ fault ≠ .exhausted := by
  unfold checkFunction
  rw [run_bind_ok run_lookup?]
  split
  · exact ⟨_, rfl, nofun⟩
  · rename_i ns hns
    have hnone : ns.get? name = none := by
      rw [← Option.not_isSome_iff_eq_none, ← Assoc.mem_keys, hs hd ns (Scope.functions?_of_get? hns)]
      exact List.not_mem_nil
    rw [hnone]
    exact ⟨_, rfl, nofun⟩
  · split
    · split <;> exact ⟨_, rfl, nofun⟩
    · split <;> exact ⟨_, rfl, nofun⟩
    · split <;> exact ⟨_, rfl, nofun⟩
    · exact ⟨_, rfl, nofun⟩

theorem call (hd : d = .extended) (inner inner' : List Token → Run Unit) (tokens : List Token) :
    (call inner tokens).Settles d (call inner' tokens) := by
  cases tokens with
  | nil => exact crash _
  | cons first rest =>
    intro s hs
    obtain ⟨fault, hrun, hfault⟩ := run_checkFunction hd hs first.text
    have hcall (inner : List Token → Run Unit) : (Statement.call inner (first :: rest)).run s = (.error fault, s) :=
      run_bind_error hrun
    rw [hcall, hcall]
    exact ⟨rfl, hs, fun heq => hfault (Except.error.inj heq)⟩

/-! ### Statements that hold others -/

section Compound

variable {inner inner' : List Token → Run Unit} {n : Nat}
variable (hinner : ∀ part, part.length < n → All (IsStraight d) part → (inner part).Settles d (inner' part))
include hinner

theorem sequence {braces : Int} {pending tokens : List Token} (hp : All (IsStraight d) pending)
    (h : All (IsStraight d) tokens) (hn : pending.length + tokens.length < n) :
    (sequence inner braces pending tokens).Settles d (sequence inner' braces pending tokens) := by
  induction tokens generalizing braces pending with
  | nil =>
    cases pending with
    | nil => exact ret ()
    | cons last _ => exact report _
  | cons t ts ih =>
    rw [List.length_cons] at hn
    simp only [Statement.sequence]
    split
    · have hlength : pending.reverse.length < n := by
        rw [List.length_reverse]
        omega
      exact seq (hinner _ hlength hp.reverse) fun _ => ih All.nil h.tail (by rw [List.length_nil]; omega)
    · exact ih (hp.cons h.head) h.tail (by rw [List.length_cons]; omega)

theorem block {tokens : List Token} (h : All (IsStraight d) tokens) (hn : tokens.length ≤ n) :
    (block inner tokens).Settles d (block inner' tokens) := by
  unfold Statement.block
  split
  · rename_i first _ hfirst _
    split
    · have hne : tokens.length ≠ 0 := by
        cases tokens with
        | nil => cases hfirst
        | cons => exact Nat.succ_ne_zero _
      refine sequence hinner All.nil (h.drop 1).dropLast ?_
      simp only [List.length_dropLast, List.length_drop, List.length_nil]
      omega
    · exact report _
  · exact crash _

theorem ifThen {tokens : List Token} (h : All (IsStraight d) tokens) (hn : tokens.length ≤ n) :
    (ifThen inner tokens).Settles d (ifThen inner' tokens) := by
  refine seq (firstLine tokens) fun line => ?_
  split
  · exact report _
  · rename_i condition body hb
    refine seq (evaluate condition) fun v => ?_
    split
    · split
      · exact block hinner (h.bracketed hb).2 (Nat.le_trans (isInfix_bracketed? hb).2.length_le hn)
      · exact report _
    · exact ret ()
    · exact report _

theorem whileDo {tokens : List Token} (h : All (IsStraight d) tokens) (hn : tokens.length ≤ n) :
    (whileDo inner tokens).Settles d (whileDo inner' tokens) := by
  refine seq (firstLine tokens) fun line => ?_
  split
  · exact report _
  · rename_i condition body hb
    refine seq (evaluate condition) fun v => ?_
    split
    · split
      · exact block hinner (h.bracketed hb).2 (Nat.le_trans (isInfix_bracketed? hb).2.length_le hn)
      · exact report _
    · exact report _

theorem otherwise {tokens : List Token} (h : All (IsStraight d) tokens) (hn : tokens.length ≤ n) :
    (otherwise inner tokens).Settles d (otherwise inner' tokens) := by
  refine seq (firstLine tokens) fun line => ?_
  cases tokens with
  | nil => exact report _
  | cons first rest =>
    cases rest with
    | nil => exact report _
    | cons next rest => exact hinner _ hn h.tail

theorem statement (rounds rounds' : Nat) {tokens : List Token} (h : All (IsStraight d) tokens)
    (hn : tokens.length ≤ n) :
    (statement d rounds inner tokens).Settles d (statement d rounds' inner' tokens) := by
  cases tokens with
  | nil => exact ret ()
  | cons first rest =>
    obtain ⟨hloop, hfunc⟩ := h.head
    simp only [Statement.statement]
    split
    · exact ifThen hinner h hn
    · split
      · exact otherwise hinner h hn
      · split
        · exact whileDo hinner h hn
        · split
          · rename_i heq
            exact absurd (eq_of_beq heq) hloop
          · split
            · exact print _
            · unfold unmarked
              split
              · rename_i heq
                simp only [Bool.and_eq_true, beq_iff_eq] at heq
                exact absurd heq.2 (hfunc heq.1)
              · split
                · exact block hinner h hn
                · split
                  · rename_i heq
                    simp only [Bool.and_eq_true, beq_iff_eq] at heq
                    exact call heq.1 inner inner' _
                  · exact assign _

theorem topLevel {started : Bool} {braces : Nat} {pending tokens : List Token} (hp : All (IsStraight d) pending)
    (h : All (IsStraight d) tokens) (hn : pending.length + tokens.length < n) :
    (topLevel inner started braces pending tokens).Settles d (topLevel inner' started braces pending tokens) := by
  induction tokens generalizing started braces pending with
  | nil =>
    simp only [Statement.topLevel]
    split
    · exact report _
    · exact ret ()
  | cons t ts ih =>
    rw [List.length_cons] at hn
    have hskip {started : Bool} : (Statement.topLevel inner started braces pending ts).Settles d
        (Statement.topLevel inner' started braces pending ts) := ih hp h.tail (by omega)
    have hgrown {started : Bool} {braces : Nat} : (Statement.topLevel inner started braces (t :: pending) ts).Settles d
        (Statement.topLevel inner' started braces (t :: pending) ts) :=
      ih (hp.cons h.head) h.tail (by rw [List.length_cons]; omega)
    have hended {part : List Token} (hpart : part.length < n) (hall : All (IsStraight d) part) {started : Bool} :
        (do inner part; Statement.topLevel inner started 0 [] ts).Settles d
          (do inner' part; Statement.topLevel inner' started 0 [] ts) :=
      seq (hinner part hpart hall) fun _ => ih All.nil h.tail (by rw [List.length_nil]; omega)
    simp only [Statement.topLevel]
    split
    · exact hskip
    · split
      · exact ret ()
      · exact report _
    · split
      · exact hskip
      · split
        · split
          · exact hended (by rw [List.length_reverse]; omega) hp.reverse
          · exact hgrown
        · split
          · exact hgrown
          · split
            · split
              · exact report _
              · exact hended (by rw [List.length_reverse, List.length_cons]; omega) (hp.cons h.head).reverse
              · exact hgrown
            · exact hgrown

end Compound

theorem exec (rounds : Nat) {depth : Nat} {tokens : List Token} (h : All (IsStraight d) tokens)
    (hdepth : tokens.length < depth) : (exec d rounds depth tokens : Run Unit).Settles d (descend d tokens) := by
  -- What a statement holds is shorter than the statement, so one level less is enough for it.
  induction depth generalizing tokens with
  | zero => exact absurd hdepth (Nat.not_lt_zero _)
  | succ depth ih =>
    rw [descend]
    refine statement (fun part hpart hall => ?_) rounds 0 h (Nat.le_refl _)
    rw [dif_pos hpart]
    exact ih hall (by omega)

theorem statements {limits limits' : Limits} {tokens : List Token} (h : All (IsStraight d) tokens)
    (hdepth : tokens.length < limits.depth) (hdepth' : tokens.length < limits'.depth) :
    (Program.statements d limits tokens : Run Unit).Settles d (Program.statements d limits' tokens) := by
  have hexec : ∀ part, part.length < tokens.length + 1 → All (IsStraight d) part →
      (Statement.exec d limits.rounds limits.depth part : Run Unit).Settles d
        (Statement.exec d limits'.rounds limits'.depth part) := by
    intro part hpart hall s hs
    obtain ⟨hsame, hrest⟩ := exec limits.rounds hall (Nat.lt_of_lt_of_le hpart hdepth) s hs
    obtain ⟨hsame', _⟩ := exec limits'.rounds hall (Nat.lt_of_lt_of_le hpart hdepth') s hs
    exact ⟨hsame.trans hsame'.symm, hrest⟩
  unfold Program.statements
  split
  · split
    · exact topLevel hexec All.nil h (by simp)
    · exact report _
  · exact crash _

end Run.Settles

theorem hosting.descend (d : Dialect) (h : Host) (tokens : List Token) :
    Hosted.Follows (Statement.descend d tokens : Run Unit) (Statement.descend d tokens : Hosted d h Unit) := by
  induction hlength : tokens.length using Nat.strongRecOn generalizing tokens with
  | ind n ih =>
    rw [Statement.descend, Statement.descend]
    have hinner (part : List Token) (_ : All (fun _ => True) part) : (hosting d h).Rel
        (if _ : part.length < tokens.length then Statement.descend d part else fail .exhausted)
        (if _ : part.length < tokens.length then Statement.descend d part else fail .exhausted) := by
      split
      · rename_i hshorter
        exact ih part.length (hlength ▸ hshorter) part rfl
      · exact .stop _
    have hacts := (leaves d h).acts
    exact Simulation.statement hinner hacts (.inl rfl)
      (fun _ _ hall => Simulation.unmarked hacts ((callLeaves d h).acts (leaves d h)) hinner hall) (All.trivial tokens)

/-- Tokens without a loop or a declaration, from any table without functions. In every host a
statement, and every statement in a block, does what it does on the interpreter that goes down only
to shorter lists, as soon as there are more levels than tokens and it keeps to the language; a
program does the same under all such limits. No rounds of a loop are needed, and none of them is
exhausted. -/
theorem Statement.straight_bounded (h : Host) (d : Dialect) (tokens : List Token)
    (hstraight : All (IsStraight d) tokens) :
    (∀ (rounds depth : Nat) (s : State), tokens.length < depth → s.IsCallless d →
      (Hosted.Contained d h (exec d rounds depth tokens) s →
        (exec d rounds depth tokens : Hosted d h Unit).run s = (descend d tokens : Hosted d h Unit).run s ∧
        (exec d rounds depth tokens : Hosted d h Unit).run s =
          Hosted.answer d h ((descend d tokens : Run Unit).run s)) ∧
      ((descend d tokens : Run Unit).run s).1 ≠ .error .exhausted ∧
      (Hosted.Contained d h (block (exec d rounds depth) tokens) s →
        (block (exec d rounds depth) tokens : Hosted d h Unit).run s =
          (block (descend d) tokens : Hosted d h Unit).run s ∧
        (block (exec d rounds depth) tokens : Hosted d h Unit).run s =
          Hosted.answer d h ((block (descend d) tokens : Run Unit).run s)) ∧
      ((block (descend d) tokens : Run Unit).run s).1 ≠ .error .exhausted) ∧
    ∀ (limits limits' : Limits) (s : State), tokens.length < limits.depth → tokens.length < limits'.depth →
      (Hosted.Contained d h (Program.runTokens d limits tokens) s →
        (Program.runTokensOn h d limits tokens).run s = (Program.runTokensOn h d limits' tokens).run s ∧
        (Program.runTokensOn h d limits tokens).run s = Hosted.answer d h ((Program.runTokens d limits tokens).run s)) ∧
      ((Program.runTokens d limits tokens).run s).1 ≠ .error .exhausted := by
  refine ⟨fun rounds depth s hdepth hs => ?_, fun limits limits' s hdepth hdepth' => ?_⟩
  · obtain ⟨hsame, _, hlasts⟩ := Settles.exec rounds hstraight hdepth s hs
    obtain ⟨hsame', _, hlasts'⟩ :=
      Settles.block (fun part hpart hall => Settles.exec rounds hall hpart) hstraight (Nat.le_of_lt hdepth) s hs
    have hblock : Hosted.Follows (block (descend d) tokens : Run Unit) (block (descend d) tokens : Hosted d h Unit) :=
      Simulation.block (S := hosting d h) (fun part _ => hosting.descend d h part) (All.trivial tokens)
    refine ⟨fun hcontained => ?_, hsame ▸ hlasts, fun hcontained => ?_, hsame' ▸ hlasts'⟩
    · have hrun := (hosting.exec d h rounds depth tokens).run_eq hcontained
      rw [hsame] at hrun
      exact ⟨hrun.trans ((hosting.descend d h tokens).run_eq (hcontained.of_run_eq hsame)).symm, hrun⟩
    · have hrun := (hosting.block d h rounds depth tokens).run_eq hcontained
      rw [hsame'] at hrun
      exact ⟨hrun.trans (hblock.run_eq (hcontained.of_run_eq hsame')).symm, hrun⟩
  · obtain ⟨hsame, _, hlasts⟩ :=
      Settles.statements hstraight hdepth hdepth' (Program.start d s) (State.isCallless_start d s)
    have hclosed : (Program.runTokens d limits tokens).run s = (Program.runTokens d limits' tokens).run s :=
      congrArg (Program.finish s) hsame
    refine ⟨fun hcontained => ?_, fun hexhausted => hlasts ((Program.fst_finish s _).symm.trans hexhausted)⟩
    have hrun := (hosting.runTokens d h limits tokens).run_eq hcontained
    have hrun' := (hosting.runTokens d h limits' tokens).run_eq (hcontained.of_run_eq hclosed)
    exact ⟨by rw [hrun, hrun', hclosed], hrun⟩

def nestedBlocks : List Token :=
  (Token.tokenize .extended "if(1<2)\x7bwhile(1>2)\x7belse\x7bx=3!print(x)!\x7d!\x7d!\x7d").toOption.getD []

theorem Statement.straight_bounded_of_nested :
    ((descend .extended nestedBlocks : Hosted .extended .standard Unit).run (Program.start .extended {})).1.isOk ∧
      ((descend .extended nestedBlocks : Hosted .extended .standard Unit).run
        (Program.start .extended {})).2.logs = ["3"] := by
  have hclosed : (nestedBlocks.all fun t => decide (IsStraight .extended t)) = true ∧ nestedBlocks.length < 40 ∧
      ((exec .extended 0 40 nestedBlocks : Run Unit).run (Program.start .extended {})).1.isOk ∧
      ((exec .extended 0 40 nestedBlocks : Hosted .extended .standard Unit).run (Program.start .extended {})).1.isOk ∧
        ((exec .extended 0 40 nestedBlocks : Hosted .extended .standard Unit).run (Program.start .extended {})).2.logs =
          ["3"] := by
    decide +kernel
  obtain ⟨hall, hlength, hok, hrun⟩ := hclosed
  have hstraight : All (IsStraight .extended) nestedBlocks :=
    fun t ht => of_decide_eq_true (List.all_eq_true.mp hall t ht)
  have hbounded := (straight_bounded .standard .extended nestedBlocks hstraight).1 0 40 _ hlength
    (State.isCallless_start .extended {})
  rwa [(hbounded.1 (.standard (Hosted.ne_beyond_of_isOk hok))).1] at hrun

/-- `INICIO x=… ! f()! FIN`, with an expression that puts a function into the table that calls
itself. -/
def selfCalling : List Token :=
  let body := "[('SYMBOL','\x7b',1),('IDENTIFIER','f',1),('SYMBOL','(',1),('SYMBOL',')',1),('SYMBOL','!',1),('SYMBOL','\x7d',1)]"
  [⟨.start, "INICIO", 1⟩, ⟨.identifier, "x", 1⟩, ⟨.operator, "=", 1⟩] ++
    Reach.tokens ("==" ++ Reach.Place.functions.text ++ ".update(f=\x7b'params':[],'body':" ++ body ++ "\x7d)") ++
    [⟨.symbol, "!", 1⟩, ⟨.identifier, "f", 1⟩, ⟨.symbol, "(", 1⟩, ⟨.symbol, ")", 1⟩,
     ⟨.symbol, "!", 1⟩, ⟨.finish, "FIN", 1⟩]

theorem Statement.straight_exhausted :
    (∀ t ∈ selfCalling, IsStraight .extended t) ∧ selfCalling.length < 13 ∧
      ((Program.runTokensOn .standard .extended ⟨13, 0⟩ selfCalling).run {}).1 = .error .exhausted := by
  decide +kernel

end Bang
