import Bang.Token.Rule

/-! Cutting a whole program into tokens, from left to right. -/

namespace Bang.Token

structure Stuck where
  line : Nat
  position : Nat
  char : Char
  deriving DecidableEq, Repr

structure Scan where
  tokens : List Token
  stuck : Option Stuck
  deriving DecidableEq, Repr

/-- Scans the rest of a program. `skip` counts the characters of the last text taken that are still
to be passed over; `found` holds the tokens before it, the last one first. -/
def scanFrom (d : Dialect) (found : List Token) (line position : Nat) :
    (skip : Nat) → List Char → Scan
  | _, [] => ⟨found.reverse, none⟩
  | skip + 1, _ :: cs => scanFrom d found line (position + 1) skip cs
  | 0, c :: cs =>
    match Rule.first? d (c :: cs) with
    | none => ⟨found.reverse, some ⟨line, position, c⟩⟩
    | some (rule, text) =>
      let found := if rule.isSilent then found else ⟨rule.kind, String.ofList text, line⟩ :: found
      let line := if rule = .newline then line + 1 else line
      scanFrom d found (line + text.count '!') (position + 1) (text.length - 1) cs

def scan (d : Dialect) (code : String) : Scan := scanFrom d [] 1 0 0 code.toList

def tokenize (d : Dialect) (code : String) : Except Stuck (List Token) :=
  match scan d code with
  | ⟨tokens, none⟩ => .ok tokens
  | ⟨_, some stuck⟩ => .error stuck

theorem tokenize_eq_getD {d : Dialect} {code : String} (h : (tokenize d code).toOption.isSome) :
    tokenize d code = .ok ((tokenize d code).toOption.getD []) := by
  cases htokens : tokenize d code with
  | error stuck =>
    rw [htokens] at h
    cases h
  | ok tokens => rfl

end Bang.Token
