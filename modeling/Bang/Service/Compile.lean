import Bang.Program
import Bang.Service.Json

/-! The compile service: a request brings a program, the answer says what it did. The session lives on
from request to request. -/

namespace Bang.Service

inductive Payload where
  | json (value : Json)
  | text (contentType : Option String) (text : String)

structure Request where
  method : String
  payload : Payload

inductive Failure where
  | bodyWithoutFields (body : Json)
  | codeNotText (code : Json)
  | fault (fault : Fault)

def Failure.message : Failure → Option String
  | .bodyWithoutFields body => s!"'{body.kindName}' object has no attribute 'get'"
  | .codeNotText code => s!"'{code.kindName}' object has no attribute 'strip'"
  | .fault (.diagnostic d) => d.message
  | .fault (.crash c) => c.message
  | .fault .exhausted | .fault .beyond => none

structure Report where
  table : Table
  tokens : List Token
  logs : List String
  warnings : List String
  functionWarnings : List String

inductive Response where
  | status (code : Nat)
  | compiled (report : Report)
  | rejected (message : String)
  | failed (failure : Failure)

def emptyMessage : String := "El código no puede estar vacío."

def lower (cs : List Char) : List Char := cs.map Char.toLower

def isJsonType (contentType : String) : Bool :=
  -- parameters and the case of letters do not count
  let type := Text.trim (lower (contentType.toList.takeWhile (· != ';')))
  type == "application/json".toList ||
    ("application/".toList.isPrefixOf type && "+json".toList.isSuffixOf type)

def Request.body (r : Request) : Except Nat Json :=
  match String.ofList (r.method.toList.map Char.toUpper) with
  | "POST" =>
    match r.payload with
    | .json value => .ok value
    | .text contentType text =>
      if contentType.any isJsonType then
        match Json.read? text with
        | some value => .ok value
        | none => .error 400
      else .error 415
  | "OPTIONS" => .error 200
  | _ => .error 405

def codeOf (body : Json) : Except Failure String :=
  match body with
  | .obj _ =>
    match (body.field? "code").getD (.str "") with
    | .str code => .ok (String.ofList (Text.trim code.toList))
    | .broken => .error (.fault .beyond)
    | code => .error (.codeNotText code)
  | body => .error (.bodyWithoutFields body)

def Request.code (r : Request) : Except Response String :=
  match r.body with
  | .error status => .error (.status status)
  | .ok body => (codeOf body).mapError .failed

def isWritable (table : Table) : Bool := table.entries.all fun (_, b) => b.toValue.literal.isSome

def Response.ofFault : Fault → Response
  | .diagnostic diagnostic => .rejected diagnostic.message
  | fault => .failed (.fault fault)

def respond (x : Program.Outcome × State) : Response :=
  match x.1.result with
  | .error fault => .ofFault fault
  | .ok () =>
    if isWritable x.2.scope.table then
      .compiled {
        table := x.2.scope.table
        tokens := x.1.tokens.getD []
        logs := x.2.logs
        warnings := x.2.journal.unusedVariables.map Journal.variableWarning
        functionWarnings := x.2.journal.unusedFunctions.map Journal.functionWarning }
    else .failed (.fault (.crash .longText))

def compileBy (run : String → State → Program.Outcome × State) (code : String) (s : State) : Response × State :=
  if code == "" then (.rejected emptyMessage, { s with logs := [] })
  else
    let x := run code s
    (respond x, x.2)

def handleBy (run : String → State → Program.Outcome × State) (r : Request) (s : State) : Response × State :=
  match r.code with
  | .error response => (response, s)
  | .ok code => compileBy run code s

def serveBy (run : String → State → Program.Outcome × State) : List Request → State → List Response × State
  | [], s => ([], s)
  | r :: rs, s =>
    let (response, t) := handleBy run r s
    let (responses, u) := serveBy run rs t
    (response :: responses, u)

def handle (d : Dialect) (limits : Limits) : Request → State → Response × State := handleBy (Program.run d limits)

def serve (d : Dialect) (limits : Limits) : List Request → State → List Response × State :=
  serveBy (Program.run d limits)

end Bang.Service
