import Bang.Statement.Basic

/-! Statements that hold others. Each takes `inner`, which runs a statement one level further down. -/

namespace Bang.Statement

open Machine

variable {m : Type → Type} [Machine m]

def opensBlock (t : Token) : Bool := t.text == "\x7b"

def closesBlock (t : Token) : Bool := t.text == "\x7d"

def endsStatement (t : Token) : Bool := t.text == "!"

def braceStep (t : Token) : Int := if opensBlock t then 1 else if closesBlock t then -1 else 0

/-- Runs the statements between two braces. A statement ends at a `!` outside all inner braces;
`pending` holds its tokens so far, the last one first. -/
def sequence (inner : List Token → m Unit) (braces : Int) (pending : List Token) :
    List Token → m Unit
  | [] =>
    match pending with
    | [] => return
    | last :: _ => report (.blockUnfinished last.line)
  | t :: ts =>
    if endsStatement t && braces == 0 then do
      inner pending.reverse
      sequence inner braces [] ts
    else sequence inner (braces + braceStep t) (t :: pending) ts

def block (inner : List Token → m Unit) (tokens : List Token) : m Unit := do
  match tokens.head?, tokens.getLast? with
  | some first, some last =>
    if opensBlock first && closesBlock last then sequence inner 0 [] (tokens.drop 1).dropLast
    else report (.blockMalformed first.line)
  | _, _ => crash .noToken

def startsBlock (tokens : List Token) : Bool := tokens.head?.any opensBlock

def ifThen (inner : List Token → m Unit) (tokens : List Token) : m Unit := do
  let line ← firstLine tokens
  match bracketed? line tokens with
  | none => report (.ifBrackets line)
  | some (condition, body) =>
    match ← evaluate condition with
    | .bool true => if startsBlock body then block inner body else report (.ifBody line)
    | .bool false => return
    | _ => report (.ifCondition line)

def otherwise (inner : List Token → m Unit) (tokens : List Token) : m Unit := do
  let line ← firstLine tokens
  match tokens.drop 1 with
  | [] => report (.elseEmpty line)
  | rest => inner rest

def whileDo (inner : List Token → m Unit) (tokens : List Token) : m Unit := do
  let line ← firstLine tokens
  match bracketed? line tokens with
  | none => report (.whileBrackets line)
  | some (condition, body) =>
    match ← evaluate condition with
    -- the body runs once, whichever truth value it is
    | .bool _ => if startsBlock body then block inner body else report (.whileBody line)
    | _ => report (.whileCondition line)

def loop (body update : m Unit) (condition : m Value) : (rounds : Nat) → Value → m Unit
  | rounds, v =>
    if !v.isTrue then return
    else match rounds with
      | 0 => fail .exhausted
      | rounds + 1 => do
        body
        update
        loop body update condition rounds (← condition)

section Loop

variable {body update : m Unit} {condition : m Value} {rounds : Nat} {v : Value}

theorem loop_of_not_isTrue (hv : v.isTrue = false) : loop body update condition rounds v = pure () := by
  rw [loop.eq_def]
  simp [hv]

theorem loop_zero (hv : v.isTrue = true) : loop body update condition 0 v = fail .exhausted := by
  rw [loop.eq_def]
  simp [hv]

theorem loop_succ (hv : v.isTrue = true) :
    loop body update condition (rounds + 1) v =
      (do body; update; loop body update condition rounds (← condition)) := by
  rw [loop.eq_def]
  simp [hv]

end Loop

def loopBracketed? (line : Int) (tokens : List Token) : Option (List Token × List Token) := do
  let start ← (tokens.drop 1).idxOf? (bracket "(" line)
  let stop ← tokens.idxOf? (bracket ")" line)
  return ((tokens.take stop).drop (start + 2), tokens.drop (stop + 1))

/-- Only the first value of the condition has to be a truth value. -/
def doFor (d : Dialect) (rounds : Nat) (inner : List Token → m Unit) (tokens : List Token) :
    m Unit := do
  let line ← firstLine tokens
  if (tokens.drop 1).head?.all (·.text != "(") then report (.loopForm line)
  else match loopBracketed? line tokens with
    | none => report (.loopBrackets line)
    | some (header, body) =>
      match splitOn ";" header with
      | [start, condition, update] =>
        assign d start
        match ← evaluate condition with
        | .bool b =>
          if startsBlock body then
            loop (block inner body) (assign d update) (evaluate condition) rounds (.bool b)
          else report (.loopBody line)
        | _ => report (.loopCondition line)
      | _ => report (.loopParts line)

end Bang.Statement
