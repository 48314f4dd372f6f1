import Bang.Host
import Bang.Statement.Function

/-! Programs: a list of statements between a start and an end mark, run one by one on a fresh table. -/

namespace Bang

open Machine

variable {m : Type → Type} [Machine m]

structure Limits where
  depth : Nat
  rounds : Nat

def Limits.standard : Limits := ⟨330, 10000000⟩

namespace Statement

def unmarked (d : Dialect) (inner : List Token → m Unit) (first : Token) (rest : List Token) : m Unit :=
  if d == .extended && first.text == "func" then declare (first :: rest)
  else if opensBlock first then block inner (first :: rest)
  else if d == .extended && rest.head?.any (·.text == "(") then call inner (first :: rest)
  else assign d (first :: rest)

theorem unmarked_basic (inner : List Token → m Unit) (first : Token) (rest : List Token) :
    unmarked .basic inner first rest =
      if opensBlock first then block inner (first :: rest) else assign .basic (first :: rest) := rfl

theorem unmarked_extended (inner : List Token → m Unit) {first : Token} (h : first.text ≠ "func")
    (rest : List Token) :
    unmarked .extended inner first rest =
      if opensBlock first then block inner (first :: rest)
      else if rest.head?.any (·.text == "(") then call inner (first :: rest)
      else assign .extended (first :: rest) := by
  simp [unmarked, h]

def statement (d : Dialect) (rounds : Nat) (inner : List Token → m Unit) (tokens : List Token) :
    m Unit :=
  match tokens with
  | [] => return
  | first :: rest =>
    if first.text == "if" then ifThen inner tokens
    else if first.text == "else" then otherwise inner tokens
    else if first.text == "while" then whileDo inner tokens
    else if first.text == "doFor" then doFor d rounds inner tokens
    else if first.text == "print" then print tokens
    else unmarked d inner first rest

theorem statement_of_unmarked {first : Token} (h : first.text ∉ ["if", "else", "while", "doFor", "print"])
    (d : Dialect) (rounds : Nat) (inner : List Token → m Unit) (rest : List Token) :
    statement d rounds inner (first :: rest) = unmarked d inner first rest := by
  simp only [List.mem_cons, not_or] at h
  simp [statement, h]

def exec (d : Dialect) (rounds : Nat) : (depth : Nat) → List Token → m Unit
  | 0, _ => fail .exhausted
  | depth + 1, tokens => statement d rounds (exec d rounds depth) tokens

/-- Runs the statements of a program up to its end mark. A statement ends at a `!` outside all
braces, or at the brace that closes its last block. `pending` holds its tokens so far, the last one
first. -/
def topLevel (inner : List Token → m Unit) (started : Bool) (braces : Nat) (pending : List Token) :
    List Token → m Unit
  | [] => if started then report .programUnclosed else return
  | t :: ts =>
    match t.kind with
    | .start => topLevel inner true braces pending ts
    | .finish =>
      match pending with
      | [] => return
      | last :: _ => report (.statementUnfinished last.line)
    | _ =>
      if !started then topLevel inner started braces pending ts
      else if endsStatement t then
        if braces == 0 then do
          inner pending.reverse
          topLevel inner started 0 [] ts
        else topLevel inner started braces (t :: pending) ts
      else if opensBlock t then topLevel inner started (braces + 1) (t :: pending) ts
      else if closesBlock t then
        match braces with
        | 0 => report (.braceUnopened t.line)
        | 1 => do
          inner (t :: pending).reverse
          topLevel inner started 0 [] ts
        | braces + 1 => topLevel inner started braces (t :: pending) ts
      else topLevel inner started braces (t :: pending) ts

end Statement

namespace Program

def initialTable : Dialect → Table
  | .basic => .empty
  | .extended => .ofList [(functionsName, .functions .empty), (logsName, .value (.record []))]

def isFramed (first last : Token) : Bool := first.kind == .start && last.kind == .finish

def statements (d : Dialect) (limits : Limits) (tokens : List Token) : m Unit :=
  match tokens.head?, tokens.getLast? with
  | some first, some last =>
    if isFramed first last then Statement.topLevel (Statement.exec d limits.rounds limits.depth) false 0 [] tokens
    else report .programFrame
  | _, _ => crash .noToken

def start (d : Dialect) (s : State) : State := { s with scope := { table := initialTable d } }

/-- What a program leaves to the session: its table stays if the program ended well. -/
def finish (s : State) : Except Fault Unit × State → Except Fault Unit × State
  | (.ok (), t) => (.ok (), t)
  | (.error fault, t) => (.error fault, { t with scope := s.scope })

theorem fst_finish (s : State) (ended : Except Fault Unit × State) : (finish s ended).1 = ended.1 := by
  obtain ⟨result, t⟩ := ended
  cases result <;> rfl

def runTokens (d : Dialect) (limits : Limits) (tokens : List Token) : Run Unit :=
  ExceptT.mk fun s => finish s ((statements d limits tokens : Run Unit).run (start d s))

def runTokensOn (h : Host) (d : Dialect) (limits : Limits) (tokens : List Token) : Hosted d h Unit :=
  .ofRun fun s => finish s ((statements d limits tokens : Hosted d h Unit).run (start d s))

structure Outcome where
  tokens : Option (List Token)
  result : Except Fault Unit

/-- Runs a program from its text, where `execute` runs its tokens. The printed lines of the run
before are forgotten. -/
def runBy (d : Dialect) (execute : List Token → State → Except Fault Unit × State) (code : String) (s : State) :
    Outcome × State :=
  let s := { s with logs := [] }
  match Token.tokenize d code with
  | .error stuck => (⟨none, .error (.diagnostic (.lexical stuck))⟩, s)
  | .ok tokens =>
    let (result, t) := execute tokens s
    (⟨some tokens, result⟩, t)

/-- Runs a program on the closed machine, which stops where the language ends. -/
def run (d : Dialect) (limits : Limits) : String → State → Outcome × State :=
  runBy d fun tokens => (runTokens d limits tokens).run

def runOn (h : Host) (d : Dialect) (limits : Limits) : String → State → Outcome × State :=
  runBy d fun tokens => (runTokensOn h d limits tokens).run

section

variable {d : Dialect} {limits : Limits} {code : String} {tokens : List Token} {s t : State}

theorem run_of_stuck {stuck : Token.Stuck} (h : Token.tokenize d code = .error stuck) :
    run d limits code s = (⟨none, .error (.diagnostic (.lexical stuck))⟩, { s with logs := [] }) := by
  simp only [run, runBy, h]

theorem run_of_tokens (h : Token.tokenize d code = .ok tokens) :
    run d limits code s =
      let ended := finish { s with logs := [] }
        ((statements d limits tokens : Run Unit).run (start d { s with logs := [] }))
      (⟨some tokens, ended.1⟩, ended.2) := by
  simp only [run, runBy, h]
  rfl

theorem run_of_ok (h : Token.tokenize d code = .ok tokens)
    (hrun : (statements d limits tokens : Run Unit).run (start d { s with logs := [] }) = (.ok (), t)) :
    run d limits code s = (⟨some tokens, .ok ()⟩, t) := by
  rw [run_of_tokens h, hrun]
  rfl

theorem run_of_error {fault : Fault} (h : Token.tokenize d code = .ok tokens)
    (hrun : (statements d limits tokens : Run Unit).run (start d { s with logs := [] }) = (.error fault, t)) :
    run d limits code s = (⟨some tokens, .error fault⟩, { t with scope := s.scope }) := by
  rw [run_of_tokens h, hrun]
  rfl

end

end Program

end Bang
