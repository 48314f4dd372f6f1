import Bang.Proofs.Hosting
import Bang.Proofs.Token.Lossless
import Bang.Proofs.Visits

/-! How many arguments a call can have. Arguments are parted at commas, and no token of a text is a comma: so a call
that comes to its end is one of a function with at most one parameter, however deep it stands. -/

namespace Bang

open Machine Run Statement

/-! ### The tokens of a program -/

def Token.IsLone (t : Token) : Prop := t.text ≠ "," ∧ t.text ≠ functionsName

namespace Token

variable {d : Dialect} {code : String} {tokens : List Token} {t : Token}

theorem text_ne_comma (h : tokenize d code = .ok tokens) (ht : t ∈ tokens) : t.text ≠ "," := by
  intro hcomma
  obtain ⟨rule, hrule, hby⟩ := isBy_of_tokenize h ht
  have haccepts := hby.accepts
  rw [hcomma] at haccepts
  have hlead : Rule.leadOf ',' = rule.lead := Option.some.inj (Rule.leadOf_of_accepts hrule haccepts)
  have hoperator : Rule.leadOf ',' = .operator := by decide
  rw [hoperator] at hlead
  cases rule with
  | operator => exact absurd (Rule.accepts_operator.mp haccepts) (by decide)
  | _ => cases hlead

theorem isIdentifier_of_functionsName (h : tokenize d code = .ok tokens) (ht : t ∈ tokens)
    (htext : t.text = functionsName) : t.isIdentifier = true := by
  obtain ⟨rule, hrule, hby⟩ := isBy_of_tokenize h ht
  have haccepts := hby.accepts
  rw [htext] at haccepts
  have hlead : Rule.leadOf '_' = rule.lead := Option.some.inj (Rule.leadOf_of_accepts hrule haccepts)
  have hname : Rule.leadOf '_' = .identifier := by decide
  rw [hname] at hlead
  cases rule with
  | identifier => rw [isIdentifier, hby.kind]; rfl
  | start => exact absurd (Rule.accepts_start.mp haccepts) (by decide)
  | finish => exact absurd (Rule.accepts_finish.mp haccepts) (by decide)
  | keyword =>
    have hkeyword := (Rule.accepts_keyword.mp haccepts)
    cases d <;> exact absurd hkeyword (by decide)
  | _ => cases hlead

theorem isLone_of_tokenize (h : tokenize d code = .ok tokens)
    (hname : ∀ t ∈ tokens, t.isIdentifier → t.text ≠ functionsName) : All IsLone tokens := fun t ht =>
  ⟨text_ne_comma h ht, fun htext => hname t ht (isIdentifier_of_functionsName h ht htext) htext⟩

end Token

/-! ### The arguments of a call -/

theorem Scope.Defines.unique {scope : Scope} {name : String} {f g : Function}
    (hf : scope.Defines name f) (hg : scope.Defines name g) : f = g := by
  obtain ⟨ns, hns, hname⟩ := hf
  obtain ⟨ns', hns', hother⟩ := hg
  obtain rfl : ns = ns' := Binding.functions.inj (Option.some.inj (hns.symm.trans hns'))
  exact Definition.function.inj (Option.some.inj (hname.symm.trans hother))

namespace Statement

theorem splitOn_of_not_mem {text : String} {tokens : List Token} (h : ∀ t ∈ tokens, t.text ≠ text) :
    splitOn text tokens = [tokens] := by
  induction tokens with
  | nil => rfl
  | cons t ts ih =>
    have hrest := ih fun u hu => h u (List.mem_cons_of_mem t hu)
    simp [splitOn, h t List.mem_cons_self, hrest]

theorem length_of_evaluateAll {parts : List (List Token)} {values : List Value} {s t : State}
    (h : (evaluateAll parts : Run (List Value)).run s = (.ok values, t)) : values.length = parts.length := by
  induction parts generalizing values s t with
  | nil =>
    obtain ⟨hvalues, _⟩ := Prod.mk.inj h
    rw [← Except.ok.inj hvalues, List.length_nil, List.length_nil]
  | cons tokens rest ih =>
    obtain ⟨v, s', _, hrest⟩ := run_bind_eq_ok h
    obtain ⟨vs, t', hvs, hdone⟩ := run_bind_eq_ok hrest
    obtain ⟨hvalues, _⟩ := Prod.mk.inj hdone
    rw [← Except.ok.inj hvalues, List.length_cons, List.length_cons, ih hvs]

theorem length_of_arguments {tokens : List Token} {values : List Value} {s t : State}
    (htokens : All Token.IsLone tokens) (h : (arguments tokens : Run (List Value)).run s = (.ok values, t)) :
    values.length ≤ 1 := by
  have hparts : splitOn "," tokens = [tokens] := splitOn_of_not_mem fun t ht => (htokens t ht).1
  rw [length_of_evaluateAll h, hparts]
  split <;> simp

def IsCall (callee opening : Token) : Prop :=
  callee.text ∉ ["if", "else", "while", "doFor", "print", "func"] ∧ opensBlock callee = false ∧ opening.text = "("

instance (callee opening : Token) : Decidable (IsCall callee opening) := inferInstanceAs (Decidable (_ ∧ _))

theorem statement_of_isCall {m : Type → Type} [Machine m] {callee opening : Token} (h : IsCall callee opening)
    (rounds : Nat) (inner : List Token → m Unit) (rest : List Token) :
    statement .extended rounds inner (callee :: opening :: rest) = call inner (callee :: opening :: rest) := by
  obtain ⟨hword, hblock, hopening⟩ := h
  simp only [List.mem_cons, not_or] at hword
  simp [statement, unmarked, hword, hblock, hopening]

end Statement

/-! ### The functions of a program -/

namespace Scope

/-- A scope whose functions are in its table, as if its caller shared none. -/
def Owns (s : Scope) (ns : Namespace) : Prop := s.get? functionsName = some (.functions ns) ∧ s.lent = none

namespace Owns

variable {s t : Scope} {ns later : Namespace}

theorem bind (h : s.Owns ns) {name : String} (hname : name ≠ functionsName) (v : Value) : (s.bind name v).Owns ns := by
  refine ⟨(get?_bind_of_ne s hname.symm v).trans h.1, ?_⟩
  simp [Scope.bind, hname, h.2]

theorem withFunctions (h : s.Owns ns) (later : Namespace) : (s.withFunctions later).Owns later :=
  ⟨s.table.get?_insert_self functionsName _, h.2⟩

theorem enter (h : s.Owns ns) {arguments : List (String × Value)} (hnames : ∀ a ∈ arguments, a.1 ≠ functionsName) :
    (s.enter arguments).Owns ns := by
  have hbound (arguments : List (String × Value)) (t : Scope) (ht : t.Owns ns)
      (hnames : ∀ a ∈ arguments, a.1 ≠ functionsName) :
      (arguments.foldl (fun scope argument => scope.bind argument.1 argument.2) t).Owns ns := by
    induction arguments generalizing t with
    | nil => exact ht
    | cons argument rest ih =>
      exact ih _ (ht.bind (hnames argument List.mem_cons_self) _) fun a ha => hnames a (List.mem_cons_of_mem _ ha)
  exact hbound arguments _ ⟨h.1, rfl⟩ hnames

theorem leave_eq (ht : t.Owns later) (s : Scope) : s.leave t = s.withFunctions later := by
  have hshared : t.shared? = some later := by rw [shared?, ht.2, Option.none_or, functions?, ht.1]
  rw [Scope.leave, hshared]

theorem leave (h : s.Owns ns) (ht : t.Owns later) : (s.leave t).Owns later := by
  rw [ht.leave_eq]
  exact h.withFunctions later

end Owns

end Scope

def Namespace.IsLexed (ns : Namespace) (j : Journal) : Prop :=
  ∀ name definition, ns.get? name = some definition → ∃ f : Function, definition = .function f ∧
    Event.declared name f ∈ j ∧ All Token.IsLone f.body ∧ functionsName ∉ f.params

theorem Namespace.IsLexed.mono {ns : Namespace} {j later : Journal} (h : ns.IsLexed j) (hgrows : j <:+ later) :
    ns.IsLexed later := by
  intro name definition hdefinition
  obtain ⟨f, rfl, hdeclared, hf⟩ := h name definition hdefinition
  exact ⟨f, rfl, hgrows.subset hdeclared, hf⟩

def State.IsLexed (s : State) : Prop := ∃ ns : Namespace, s.scope.Owns ns ∧ ns.IsLexed s.journal

namespace State.IsLexed

variable {s t : State} {name : String} {f : Function}

theorem note (h : s.IsLexed) (event : Event) : (s.note event).IsLexed := by
  obtain ⟨ns, hns, hlexed⟩ := h
  exact ⟨ns, hns, hlexed.mono (List.suffix_cons _ _)⟩

theorem declare (h : s.IsLexed) {ns : Namespace} (hns : s.scope.get? functionsName = some (.functions ns))
    (hbody : All Token.IsLone f.body) (hparams : functionsName ∉ f.params) :
    (s.declare name f (ns.insert name (.function f))).IsLexed := by
  obtain ⟨ns', hns', hlexed⟩ := h
  obtain rfl : ns = ns' := Binding.functions.inj (Option.some.inj (hns.symm.trans hns'.1))
  refine ⟨_, hns'.withFunctions _, fun other definition hdefinition => ?_⟩
  by_cases hother : other = name
  · subst hother
    rw [Assoc.get?_insert_self] at hdefinition
    exact ⟨f, (Option.some.inj hdefinition).symm, List.mem_cons_self, hbody, hparams⟩
  · rw [Assoc.get?_insert_of_ne _ hother] at hdefinition
    exact hlexed.mono (List.suffix_cons _ _) other definition hdefinition

theorem function (h : s.IsLexed) (hdefines : s.scope.Defines name f) :
    Event.declared name f ∈ s.journal ∧ All Token.IsLone f.body ∧ functionsName ∉ f.params := by
  obtain ⟨ns, hns, hlexed⟩ := h
  obtain ⟨ns', hns', hname⟩ := hdefines
  obtain rfl : ns = ns' := Binding.functions.inj (Option.some.inj (hns.1.symm.trans hns'))
  obtain ⟨g, hg, hfunction⟩ := hlexed name _ hname
  exact Definition.function.inj hg ▸ hfunction

theorem enter (h : s.IsLexed) (hdefines : s.scope.Defines name f) (values : List Value) :
    (s.enter (f.params.zip values)).IsLexed := by
  obtain ⟨_, _, hname⟩ := h.function hdefines
  obtain ⟨ns, hns, hlexed⟩ := h
  refine ⟨ns, hns.enter fun argument hargument heq => hname ?_, hlexed⟩
  exact heq ▸ (List.of_mem_zip hargument).1

theorem leave (h : s.IsLexed) (ht : t.IsLexed) : (s.leave t).IsLexed := by
  obtain ⟨ns, hns, _⟩ := h
  obtain ⟨later, hlater, hlexed⟩ := ht
  exact ⟨later, hns.leave hlater, hlexed⟩

theorem start (s : State) : (Program.start .extended s).IsLexed :=
  ⟨.empty, ⟨rfl, rfl⟩, fun name definition hdefinition => by cases hdefinition⟩

end State.IsLexed

theorem upheld_isLexed : Upheld .extended Token.IsLone State.IsLexed where
  note _ hs := hs.note _
  log hs := hs
  store ht _ hs := by
    obtain ⟨ns, hns, hlexed⟩ := hs
    exact ⟨ns, hns.bind ht.2 _, hlexed.mono (List.suffix_cons _ _)⟩
  declare hns hbody hparams hs := by
    refine hs.declare hns hbody fun hmem => ?_
    obtain ⟨t, ht, htext⟩ := hparams _ hmem
    exact ht.2 htext
  returned hs := hs.note _
  body hdefines hs := (hs.function hdefines).2.1
  enter hdefines hs := hs.enter hdefines _
  leave hs ht := hs.leave ht

namespace Scope.Defines

variable {s : State} {name : String} {f : Function}

theorem run_checkFunction (h : s.scope.Defines name f) : (checkFunction name : Run Unit).run s = (.ok (), s) := by
  obtain ⟨ns, hns, hname⟩ := h
  unfold checkFunction
  rw [run_bind_ok run_lookup?, hns]
  simp only [hname]
  rfl

theorem run_functionOf (h : s.scope.Defines name f) : (functionOf name : Run Function).run s = (.ok f, s) := by
  obtain ⟨ns, hns, hname⟩ := h
  unfold functionOf
  rw [run_bind_ok run_lookup?, hns]
  simp only [hname]
  rfl

end Scope.Defines

theorem length_params_of_call {inner : List Token → Run Unit} {callee : Token} {rest : List Token} {s t : State}
    (hs : s.IsLexed) (htokens : All Token.IsLone (callee :: rest))
    (h : (call inner (callee :: rest) : Run Unit).run s = (.ok (), t)) :
    ∃ f, s.scope.Defines callee.text f ∧ Event.declared callee.text f ∈ s.journal ∧ f.params.length ≤ 1 := by
  obtain ⟨ns, hns, hlexed⟩ := hs
  cases hname : ns.get? callee.text with
  | none =>
    rw [run_call_of_undefined hns.1 hname] at h
    cases h
  | some definition =>
    obtain ⟨f, rfl, hdeclared, _, _⟩ := hlexed callee.text definition hname
    have hdefines : s.scope.Defines callee.text f := ⟨ns, hns.1, hname⟩
    refine ⟨f, hdefines, hdeclared, ?_⟩
    unfold call at h
    rw [run_bind_ok hdefines.run_checkFunction] at h
    split at h
    · cases h
    · cases h
    · obtain ⟨values, s', hvalues, hcall⟩ := run_bind_eq_ok h
      have hlength : values.length ≤ 1 := length_of_arguments ((htokens.take _).drop _) hvalues
      -- The arguments change nothing in the scope, so the function is still there.
      have hlater : s'.scope.Defines callee.text f := by rwa [(Quiet.arguments _).scope_of_run hvalues]
      rw [run_bind_ok hlater.run_functionOf] at hcall
      split at hcall
      · cases hcall
      · rename_i hcount
        have heq : values.length = f.params.length := by simpa using hcount
        omega

namespace Program

/-- In every host, and whatever a session has run before, a program that keeps to the language and
does not name the functions itself can complete no call of a function with more than one parameter:
of all the statements it comes to, those that are calls and return are calls of a function declared
with at most one, and those of a function with more fail. -/
theorem returning_calls_have_one_argument (h : Host) (limits : Limits) (code : String) (s : State) (tokens : List Token)
    (htokens : Token.tokenize .extended code = .ok tokens)
    (hname : ∀ t ∈ tokens, t.isIdentifier → t.text ≠ functionsName) (hcontained : Contained h .extended limits code s) :
    (runOn h .extended limits code s).1.result = (tour .extended limits tokens s).1.mapError (h.told .extended) ∧
      ∀ v ∈ (tour .extended limits tokens s).2.visits,
        (∃ depth, (v.result, v.after) = (exec .extended limits.rounds depth v.tokens : Run Unit).run v.before) ∧
          ∀ callee opening rest, v.tokens = callee :: opening :: rest → IsCall callee opening →
            (v.result = .ok () → ∃ f, v.before.scope.Defines callee.text f ∧
              Event.declared callee.text f ∈ v.before.journal ∧ f.params.length ≤ 1) ∧
              ∀ f, v.before.scope.Defines callee.text f → 2 ≤ f.params.length →
                ∃ fault, v.result = .error fault := by
  refine ⟨?_, fun v hv => ?_⟩
  · rw [runOn_eq hcontained, run_of_tokens htokens, ← tour_eq_run]
    cases (tour .extended limits tokens s).1 <;> rfl
  · obtain ⟨hgenuine, hlone, hlexed⟩ := upheld_isLexed.visits limits (Token.isLone_of_tokenize htokens hname)
      (State.IsLexed.start { s with logs := [] }) v hv
    refine ⟨hgenuine, fun callee opening rest hshape hcall => ?_⟩
    obtain ⟨depth, hrun⟩ := hgenuine
    rw [hshape] at hrun hlone
    have hreturns (hok : v.result = .ok ()) : ∃ f, v.before.scope.Defines callee.text f ∧
        Event.declared callee.text f ∈ v.before.journal ∧ f.params.length ≤ 1 := by
      rw [hok] at hrun
      cases depth with
      | zero => cases hrun
      | succ depth =>
        unfold exec at hrun
        rw [statement_of_isCall hcall] at hrun
        exact length_params_of_call hlexed hlone hrun.symm
    refine ⟨hreturns, fun f hf hmany => ?_⟩
    cases hresult : v.result with
    | error fault => exact ⟨fault, rfl⟩
    | ok =>
      obtain ⟨g, hg, _, hfew⟩ := hreturns hresult
      obtain rfl : f = g := hf.unique hg
      omega

def threeCalls : String :=
  "INICIO func f(x)\x7b print(x)! \x7d func g()\x7b f(7)! \x7d g()! func h(a b)\x7b print(a)! \x7d h(1)! FIN"

def threeCallTokens : List Token := (Token.tokenize .extended threeCalls).toOption.getD []

theorem tokenize_threeCalls : Token.tokenize .extended threeCalls = .ok threeCallTokens :=
  Token.tokenize_eq_getD (by decide +kernel)

theorem returning_calls_of_threeCalls :
    (∀ t ∈ threeCallTokens, t.isIdentifier → t.text ≠ functionsName) ∧
      (runOn .standard .extended ⟨5, 5⟩ threeCalls {}).2.logs = ["7"] ∧
      ((tour .extended ⟨5, 5⟩ threeCallTokens {}).2.visits.map fun v =>
        (v.tokens.head?.map (·.text), v.result.isOk)) =
          [(some "h", false), (some "func", true), (some "g", true), (some "f", true), (some "print", true),
            (some "func", true), (some "func", true)] ∧
      ∀ v ∈ (tour .extended ⟨5, 5⟩ threeCallTokens {}).2.visits, ∀ callee opening rest,
        v.tokens = callee :: opening :: rest → IsCall callee opening → v.result = .ok () →
          ∃ f, v.before.scope.Defines callee.text f ∧
            Event.declared callee.text f ∈ v.before.journal ∧ f.params.length ≤ 1 := by
  have hclosed : (∀ t ∈ threeCallTokens, t.isIdentifier → t.text ≠ functionsName) ∧
      (run .extended ⟨5, 5⟩ threeCalls {}).1.result ≠ .error .beyond ∧
      (runOn .standard .extended ⟨5, 5⟩ threeCalls {}).2.logs = ["7"] ∧
      ((tour .extended ⟨5, 5⟩ threeCallTokens {}).2.visits.map fun v =>
        (v.tokens.head?.map (·.text), v.result.isOk)) =
          [(some "h", false), (some "func", true), (some "g", true), (some "f", true), (some "print", true),
            (some "func", true), (some "func", true)] := by
    decide +kernel
  obtain ⟨hname, hwithin, hlogs, htour⟩ := hclosed
  obtain ⟨_, hvisits⟩ := returning_calls_have_one_argument .standard ⟨5, 5⟩ threeCalls {} threeCallTokens
    tokenize_threeCalls hname (.standard hwithin)
  refine ⟨hname, hlogs, htour, fun v hv callee opening rest hshape hcall => ?_⟩
  exact ((hvisits v hv).2 callee opening rest hshape hcall).1

/-- A function of two parameters from which an expression then takes them away, and a call of it
without arguments. -/
def parameterless : List Token :=
  let opening : Token := ⟨.symbol, "(", 1⟩
  let closing : Token := ⟨.symbol, ")", 1⟩
  [⟨.start, "INICIO", 1⟩, ⟨.keyword, "func", 1⟩, ⟨.identifier, "h", 1⟩, opening, ⟨.identifier, "a", 1⟩,
    ⟨.identifier, "b", 1⟩, closing, ⟨.symbol, "\x7b", 1⟩, ⟨.symbol, "\x7d", 1⟩,
    ⟨.identifier, "x", 1⟩, ⟨.operator, "=", 1⟩] ++
    Reach.tokens ("==" ++ (Reach.Place.function "h").text ++ ".update(params=[])") ++
    [⟨.symbol, "!", 1⟩, ⟨.identifier, "h", 1⟩, opening, closing, ⟨.symbol, "!", 1⟩, ⟨.finish, "FIN", 1⟩]

theorem parameters_taken_away :
    ((runTokensOn .standard .extended ⟨5, 5⟩ parameterless).run {}).1.isOk ∧
      ((Mark.uses ((runTokensOn .standard .extended ⟨5, 5⟩ parameterless).run {}).2.journal.functionMarks).entries.map
        fun entry => (entry.1, entry.2.subject.params, entry.2.used)) = [("h", ["a", "b"], true)] := by
  decide +kernel

end Program

end Bang
