import Bang.Host.Standard
import Bang.Proofs.Simulation
import Bang.Proofs.Steps
import Mathlib.Control.Monad.Basic

/-! Programs in their host. A run that keeps to the language goes in every host as it goes without one: the state is
the same at its end, and so is the result, but for the words in which a fault is told. -/

namespace Bang

open Machine Statement

namespace Hosted

variable {d : Dialect} {h : Host} {α β : Type}

theorem run_bind_ok {x : Hosted d h α} {f : α → Hosted d h β} {a : α} {s t : State} (hx : x.run s = (.ok a, t)) :
    (x >>= f).run s = (f a).run t := Run.run_bind_ok hx

theorem run_bind_error {x : Hosted d h α} {f : α → Hosted d h β} {fault : Fault} {s t : State}
    (hx : x.run s = (.error fault, t)) : (x >>= f).run s = (.error fault, t) := Run.run_bind_error hx

def answer (d : Dialect) (h : Host) (ended : Except Fault α × State) : Except Fault α × State :=
  (ended.1.mapError (h.told d), ended.2)

def Refused (d : Dialect) (h : Host) (lines : List String) (fault : Fault) : Prop :=
  d = .extended ∧ ∃ line ∈ lines, h.display line = .error fault

theorem Refused.append {lines more : List String} {fault : Fault} (hrefused : Refused d h lines fault) :
    Refused d h (lines ++ more) fault := by
  obtain ⟨hd, line, hline, hfault⟩ := hrefused
  exact ⟨hd, line, List.mem_append_left more hline, hfault⟩

/-- A computation in the host goes as the closed one does, unless that goes beyond the language or
the host refuses a line. -/
def Follows (x : Run α) (y : Hosted d h α) : Prop :=
  ∀ s, ∃ added, (x.run s).2.logs = s.logs ++ added ∧ ((x.run s).1 ≠ .error .beyond →
    y.run s = answer d h (x.run s) ∨ ∃ fault, Refused d h added fault ∧ (y.run s).1 = .error fault)

/-- From a state, a closed computation keeps to the language, and every line that it adds is
displayed. -/
structure Contained (d : Dialect) (h : Host) (x : Run α) (s : State) : Prop where
  within : (x.run s).1 ≠ .error .beyond
  displayed : d = .extended → ∀ line ∈ (x.run s).2.logs.drop s.logs.length, (h.display line).isOk

theorem Contained.of_logs {x : Run α} {s : State} (hwithin : (x.run s).1 ≠ .error .beyond)
    (hlogs : (x.run s).2.logs = s.logs) : Contained d h x s where
  within := hwithin
  displayed _ line hline := by
    rw [hlogs, List.drop_length] at hline
    cases hline

theorem Contained.of_run_eq {x y : Run α} {s : State} (hcontained : Contained d h x s) (hrun : x.run s = y.run s) :
    Contained d h y s := ⟨hrun ▸ hcontained.within, hrun ▸ hcontained.displayed⟩

theorem error_of_answer {ended : Except Fault α × State} {t : State} {fault : Fault}
    (hanswer : answer d h ended = (.error fault, t)) : ∃ closed, ended = (.error closed, t) := by
  obtain ⟨_ | closed, u⟩ := ended
  · exact ⟨_, congrArg _ (congrArg Prod.snd hanswer)⟩
  · cases hanswer

theorem ne_beyond_of_isOk {result : Except Fault α} (hok : result.isOk) : result ≠ .error .beyond := by
  rintro rfl
  cases hok

theorem Contained.standard {x : Run α} {s : State} (hwithin : (x.run s).1 ≠ .error .beyond) :
    Contained d .standard x s := ⟨hwithin, fun _ _ _ => rfl⟩

namespace Follows

theorem run_eq {x : Run α} {y : Hosted d h α} {s : State} (hfollows : Follows x y) (hcontained : Contained d h x s) :
    y.run s = answer d h (x.run s) := by
  obtain ⟨added, hlogs, hrun⟩ := hfollows s
  rcases hrun hcontained.within with hy | ⟨fault, ⟨hd, line, hline, hrefused⟩, _⟩
  · exact hy
  · have hmem : line ∈ (x.run s).2.logs.drop s.logs.length := by rwa [hlogs, List.drop_left]
    have hdisplayed := hcontained.displayed hd line hmem
    rw [hrefused] at hdisplayed
    cases hdisplayed

theorem of_run {x : Run α} {y : Hosted d h α} (hlogs : ∀ s, (x.run s).2.logs = s.logs)
    (hrun : ∀ s, y.run s = answer d h (x.run s)) : Follows x y :=
  fun s => ⟨[], by rw [hlogs, List.append_nil], fun _ => .inl (hrun s)⟩

theorem ret (a : α) : Follows (pure a : Run α) (pure a : Hosted d h α) := of_run (fun _ => rfl) fun _ => rfl

theorem stop (fault : Fault) : Follows (fail fault : Run α) (fail fault : Hosted d h α) :=
  of_run (fun _ => rfl) fun _ => rfl

theorem state : Follows (Machine.state : Run State) (Machine.state : Hosted d h State) :=
  of_run (fun _ => rfl) fun _ => rfl

theorem change {f : State → State} (hlogs : ∀ s, (f s).logs = s.logs) :
    Follows (Machine.change f : Run Unit) (Machine.change f : Hosted d h Unit) := of_run hlogs fun _ => rfl

theorem seq {x : Run α} {y : Hosted d h α} {f : α → Run β} {g : α → Hosted d h β} (hx : Follows x y)
    (hf : ∀ a, Follows (f a) (g a)) : Follows (x >>= f) (y >>= g) := by
  intro s
  obtain ⟨added, hlogs, hfollows⟩ := hx s
  rcases hrun : x.run s with ⟨result, t⟩
  rw [hrun] at hlogs hfollows
  cases result with
  | error fault =>
    rw [Run.run_bind_error hrun]
    refine ⟨added, hlogs, fun hcontained => ?_⟩
    have hclosed : (Except.error fault : Except Fault α) ≠ .error .beyond :=
      fun heq => hcontained (congrArg _ (Except.error.inj heq))
    rcases hfollows hclosed with hy | ⟨refusal, hrefused, hy⟩
    · exact .inl (run_bind_error hy)
    · exact .inr ⟨refusal, hrefused, congrArg Prod.fst (run_bind_error (Prod.ext hy rfl))⟩
  | ok a =>
    obtain ⟨more, hlogs', hfollows'⟩ := hf a t
    rw [Run.run_bind_ok hrun]
    refine ⟨added ++ more, by rw [hlogs', hlogs, List.append_assoc], fun hcontained => ?_⟩
    -- If the host refuses a line of the first computation, the second one does not run.
    rcases hfollows (fun heq => by cases heq) with hy | ⟨refusal, hrefused, hy⟩
    · rw [run_bind_ok hy]
      rcases hfollows' hcontained with hg | ⟨refusal, ⟨hd, line, hline, hfault⟩, hg⟩
      · exact .inl hg
      · exact .inr ⟨refusal, ⟨hd, line, List.mem_append_right added hline, hfault⟩, hg⟩
    · exact .inr ⟨refusal, hrefused.append, congrArg Prod.fst (run_bind_error (Prod.ext hy rfl))⟩

theorem beyond (text : List Char) :
    Follows (Machine.beyond text : Run Value) (Machine.beyond text : Hosted d h Value) :=
  fun s => ⟨[], (List.append_nil s.logs).symm, fun hcontained => absurd rfl hcontained⟩

theorem log (line : String) : Follows (Machine.log line : Run Unit) (Machine.log line : Hosted d h Unit) := by
  intro s
  refine ⟨[line], rfl, fun _ => ?_⟩
  cases d with
  | basic => exact .inl rfl
  | extended =>
    cases hdisplay : h.display line with
    | ok =>
      left
      change Hosted.log .extended h line s = (.ok (), s.log line)
      simp only [Hosted.log, hdisplay]
    | error fault =>
      refine .inr ⟨fault, ⟨rfl, line, List.mem_singleton_self line, hdisplay⟩, ?_⟩
      change (Hosted.log .extended h line s).1 = .error fault
      simp only [Hosted.log, hdisplay]

theorem inCall (arguments : List (String × Value)) {x : Run Unit} {y : Hosted d h Unit} (hx : Follows x y) :
    Follows (Machine.inCall arguments x) (Machine.inCall arguments y) := by
  intro s
  obtain ⟨added, hlogs, hfollows⟩ := hx (s.enter arguments)
  refine ⟨added, hlogs, fun hcontained => ?_⟩
  have hleave : (Machine.inCall arguments y : Hosted d h Unit).run s =
      ((y.run (s.enter arguments)).1, s.leave (y.run (s.enter arguments)).2) := rfl
  rcases hfollows hcontained with hy | ⟨fault, hrefused, hy⟩
  · left
    rw [hleave, hy]
    rfl
  · exact .inr ⟨fault, hrefused, by rw [hleave, hy]⟩

theorem lookup (name : String) :
    Follows (lookup? name : Run (Option Binding)) (lookup? name : Hosted d h (Option Binding)) :=
  state.seq fun _ => ret _

theorem store (line : Int) (name : String) (v : Value) :
    Follows (store d line name v : Run Unit) (store d line name v : Hosted d h Unit) := by
  refine state.seq fun s => ?_
  split
  · exact stop _
  · exact change fun _ => rfl

theorem finishCall (name : String) : Follows (finishCall name : Run Unit) (finishCall name : Hosted d h Unit) := by
  refine state.seq fun s => ?_
  split
  · exact change fun _ => rfl
  · exact stop _

end Follows

end Hosted

def hosting (d : Dialect) (h : Host) : Simulation Run (Hosted d h) where
  Rel := Hosted.Follows
  ret := .ret
  seq := .seq
  stop fault _ := .stop fault

namespace hosting

variable (d : Dialect) (h : Host)

theorem leaves : (hosting d h).Leaves d d (fun _ => True) where
  lookup t _ := .lookup t.text
  note _ _ := .change fun _ => rfl
  beyond := .beyond
  log := .log
  store t _ v := .store t.line t.text v

theorem callLeaves : (hosting d h).CallLeaves (fun _ => True) :=
  .of_lookup (.lookup functionsName) (fun _ _ _ => .change fun _ => rfl) .finishCall .inCall

theorem exec (rounds depth : Nat) (tokens : List Token) :
    Hosted.Follows (exec d rounds depth tokens : Run Unit) (exec d rounds depth tokens : Hosted d h Unit) :=
  Simulation.exec (leaves d h) (callLeaves d h) (.inl rfl) (.inl rfl) (All.trivial tokens)

theorem block (rounds depth : Nat) (tokens : List Token) :
    Hosted.Follows (block (Statement.exec d rounds depth) tokens : Run Unit)
      (block (Statement.exec d rounds depth) tokens : Hosted d h Unit) := by
  have hinner (tokens : List Token) (_ : All (fun _ => True) tokens) :
      (hosting d h).Rel (Statement.exec d rounds depth tokens) (Statement.exec d rounds depth tokens) :=
    exec d h rounds depth tokens
  exact Simulation.block hinner (All.trivial tokens)

theorem call (rounds depth : Nat) (tokens : List Token) :
    Hosted.Follows (call (Statement.exec d rounds depth) tokens : Run Unit)
      (call (Statement.exec d rounds depth) tokens : Hosted d h Unit) :=
  Simulation.call (leaves d h).acts ((callLeaves d h).acts (leaves d h)) (fun tokens _ => exec d h rounds depth tokens)
    (All.trivial tokens)

theorem assign (tokens : List Token) :
    Hosted.Follows (assign d tokens : Run Unit) (assign d tokens : Hosted d h Unit) :=
  Simulation.assign (leaves d h).acts (All.trivial tokens)

theorem statements (limits : Limits) (tokens : List Token) :
    Hosted.Follows (Program.statements d limits tokens : Run Unit)
      (Program.statements d limits tokens : Hosted d h Unit) :=
  Simulation.program (leaves d h) (callLeaves d h) (.inl rfl) (.inl rfl) tokens

theorem runTokens (limits : Limits) (tokens : List Token) :
    Hosted.Follows (Program.runTokens d limits tokens) (Program.runTokensOn h d limits tokens) := by
  intro s
  obtain ⟨added, hlogs, hfollows⟩ := statements d h limits tokens (Program.start d s)
  have hclosed : (Program.runTokens d limits tokens).run s =
      Program.finish s ((Program.statements d limits tokens : Run Unit).run (Program.start d s)) := rfl
  have hhosted : (Program.runTokensOn h d limits tokens).run s =
      Program.finish s ((Program.statements d limits tokens : Hosted d h Unit).run (Program.start d s)) := rfl
  rw [hclosed, hhosted]
  generalize (Program.statements d limits tokens : Hosted d h Unit).run (Program.start d s) = ended at hfollows
  rcases hrun : (Program.statements d limits tokens : Run Unit).run (Program.start d s) with ⟨result, t⟩
  rw [hrun] at hlogs hfollows
  -- The table stays only if the program ends well, and a fault that is told in other words is still a fault.
  cases result <;> refine ⟨added, hlogs, fun hcontained => (hfollows hcontained).imp ?_ ?_⟩
  case ok.refine_1 | error.refine_1 =>
    rintro rfl
    rfl
  case ok.refine_2 | error.refine_2 =>
    rintro ⟨fault, hrefused, hresult⟩
    obtain ⟨_, _⟩ := ended
    obtain rfl : _ = _ := hresult
    exact ⟨fault, hrefused, rfl⟩

end hosting

namespace Program

variable {h : Host} {d : Dialect} {limits : Limits} {code : String} {s : State}

/-- A run that keeps to the language, all of whose lines are displayed. -/
structure Contained (h : Host) (d : Dialect) (limits : Limits) (code : String) (s : State) : Prop where
  within : (run d limits code s).1.result ≠ .error .beyond
  displayed : d = .extended → ∀ line ∈ (run d limits code s).2.logs, (h.display line).isOk

def told (h : Host) (d : Dialect) (ended : Outcome × State) : Outcome × State :=
  ({ ended.1 with result := ended.1.result.mapError (h.told d) }, ended.2)

theorem runOn_of_stuck {stuck : Token.Stuck} (htokens : Token.tokenize d code = .error stuck) :
    runOn h d limits code s = (⟨none, .error (.diagnostic (.lexical stuck))⟩, { s with logs := [] }) := by
  simp only [runOn, runBy, htokens]

theorem runOn_of_tokens {tokens : List Token} (htokens : Token.tokenize d code = .ok tokens) :
    runOn h d limits code s =
      (⟨some tokens, ((runTokensOn h d limits tokens).run { s with logs := [] }).1⟩,
        ((runTokensOn h d limits tokens).run { s with logs := [] }).2) := by
  simp only [runOn, runBy, htokens]

/-- In a host, a run does what it does without one, goes beyond the language, or stops at a line
that is refused. -/
theorem runOn_cases (h : Host) (d : Dialect) (limits : Limits) (code : String) (s : State) :
    (run d limits code s).1.result = .error .beyond ∨ runOn h d limits code s = told h d (run d limits code s) ∨
      ∃ fault, Hosted.Refused d h (run d limits code s).2.logs fault ∧
        (runOn h d limits code s).1.result = .error fault := by
  cases htokens : Token.tokenize d code with
  | error stuck =>
    right; left
    rw [run_of_stuck htokens, runOn_of_stuck htokens]
    cases d <;> rfl
  | ok tokens =>
    obtain ⟨added, hlogs, hfollows⟩ := hosting.runTokens d h limits tokens { s with logs := [] }
    have hclosed : run d limits code s = (⟨some tokens, ((runTokens d limits tokens).run { s with logs := [] }).1⟩,
        ((runTokens d limits tokens).run { s with logs := [] }).2) := by
      simp only [run, runBy, htokens]
      rfl
    rw [hclosed, runOn_of_tokens htokens]
    by_cases hbeyond : ((runTokens d limits tokens).run { s with logs := [] }).1 = .error .beyond
    · exact .inl hbeyond
    · rcases hfollows hbeyond with hrun | ⟨fault, hrefused, hrun⟩
      · rw [hrun]
        exact .inr (.inl rfl)
      · exact .inr (.inr ⟨fault, hlogs ▸ hrefused, hrun⟩)

theorem told_basic (h : Host) (ended : Outcome × State) : told h .basic ended = ended := by
  obtain ⟨⟨tokens, result⟩, t⟩ := ended
  cases result <;> rfl

theorem ok_of_told {ended : Outcome × State} (hok : (told h d ended).1.result = .ok ()) : ended.1.result = .ok () := by
  obtain ⟨⟨tokens, result⟩, t⟩ := ended
  cases result with
  | ok => rfl
  | error fault => cases hok

theorem runOn_eq (hcontained : Contained h d limits code s) :
    runOn h d limits code s = told h d (run d limits code s) := by
  rcases runOn_cases h d limits code s with hbeyond | heq | ⟨fault, ⟨hd, line, hline, hrefused⟩, _⟩
  · exact absurd hbeyond hcontained.within
  · exact heq
  · have hdisplayed := hcontained.displayed hd line hline
    rw [hrefused] at hdisplayed
    cases hdisplayed

theorem snd_runOn (hcontained : Contained h d limits code s) :
    (runOn h d limits code s).2 = (run d limits code s).2 := by
  rw [runOn_eq hcontained]
  rfl

theorem isOk_runOn (hcontained : Contained h d limits code s) :
    (runOn h d limits code s).1.result.isOk = (run d limits code s).1.result.isOk := by
  rw [runOn_eq hcontained, told]
  cases (run d limits code s).1.result <;> rfl

theorem Contained.standard (h : (run d limits code s).1.result ≠ .error .beyond) :
    Contained .standard d limits code s := ⟨h, fun _ _ _ => rfl⟩

end Program

/-! ### Expressions that reach for the standard host -/

namespace Reach

/-- What stands for such an expression in a program. Its first text ends only at the quote behind
the plus sign, and a comment hides the last quote. -/
def expression (use : String) : String := "\"\\\" + \"" ++ use ++ "#\""

def tokens (use : String) : List Token :=
  [⟨.string, "\"\\\"", 1⟩, ⟨.operator, "+", 1⟩, ⟨.string, "\"" ++ use ++ "#\"", 1⟩]

end Reach

end Bang
