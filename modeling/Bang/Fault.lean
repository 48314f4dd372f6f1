import Bang.Formula.Eval
import Bang.Journal
import Bang.Token.Scan

/-! Why a program stops. A diagnostic is the language's own report to its user; a crash is a failure
behind its back; a run that nests or repeats too often is exhausted; and a run that asks for something outside
the language goes beyond it. -/

namespace Bang

inductive Diagnostic where
  | lexical (stuck : Token.Stuck)
  | programFrame
  | programUnclosed
  | statementUnfinished (line : Int)
  | braceUnopened (line : Int)
  | blockMalformed (line : Int)
  | blockUnfinished (line : Int)
  | printForm (line : Int)
  | ifBrackets (line : Int)
  | ifCondition (line : Int)
  | ifBody (line : Int)
  | elseEmpty (line : Int)
  | whileBrackets (line : Int)
  | whileCondition (line : Int)
  | whileBody (line : Int)
  | loopForm (line : Int)
  | loopBrackets (line : Int)
  | loopParts (line : Int)
  | loopCondition (line : Int)
  | loopBody (line : Int)
  | assignmentForm (line : Option Int)
  | operandUndeclared (line : Int)
  | variableUndefined (line : Int) (name : String)
  | tokenMisplaced (line : Int) (text : String)
  | evaluation (text : String) (fault : Formula.Fault)
  | translated (text reason : String)
  | typeUnsupported (kind : Value.Kind)
  | typeChanged (line : Int) (name : String) (old new : ValueType)
  | functionIncomplete (line : Int)
  | functionName (line : Int)
  | functionBracket (line : Int)
  | functionBracketUnclosed (line : Int)
  | functionParameter (line : Int)
  | functionBody
  | functionUndefined (name : String)
  | argumentCount (name : String)
  deriving DecidableEq, Repr

inductive Crash where
  | noToken
  | untypedName (name : String)
  | undeclaredFunction (name : String)
  | missingEntry (name : String)
  | missingToken (token : Token)
  | malformedInteger (text : String)
  | longInteger (digits : Nat)
  | malformedReal (text : String)
  | longText
  /-- The name of the functions stands for a value that holds no names. -/
  | functionsUnsearchable (kind : Value.Kind)
  /-- The name of the functions stands for a sequence, which has no entry under a name. -/
  | functionsUnnamed (kind : Value.Kind)
  /-- The name of the functions stands for a value that takes no entries. -/
  | functionsFixed (kind : Value.Kind)
  /-- The reason why an expression has no value cannot be put into words. -/
  | unsaid (kind : Value.Kind)
  deriving DecidableEq, Repr

inductive Fault where
  | diagnostic (d : Diagnostic)
  | crash (c : Crash)
  | exhausted
  | beyond
  deriving DecidableEq, Repr

def Fault.ofFormula (text : List Char) : Formula.Fault → Fault
  | .beyond => .beyond
  | fault => .diagnostic (.evaluation (String.ofList text) fault)

namespace Diagnostic

def message : Diagnostic → String
  | lexical stuck => s!"Error léxico en la línea {stuck.line}, posición {stuck.position}: \"{stuck.char}\""
  | programFrame => "El programa debe comenzar con \"INICIO\" y terminar con \"FIN\"."
  | programUnclosed => "El programa no ha sido cerrado con \"FIN\"."
  | statementUnfinished line => s!"Error de sintaxis en la línea {line}: falta el símbolo \"!\" al final."
  | braceUnopened line => s!"Llave de cierre sin apertura en línea {line}"
  | blockMalformed line => s!"Error en línea {line}: bloque mal formado."
  | blockUnfinished line => s!"Error en línea {line}: falta \"!\" al final."
  | printForm line => s!"Error en línea {line}: print debe tener la forma print(expresión)."
  | ifBrackets line => s!"Error en línea {line}: paréntesis mal formados en \"if\"."
  | ifCondition line => s!"Condición no booleana en línea {line}"
  | ifBody line => s!"Error en línea {line}: cuerpo del \"if\" debe estar entre llaves."
  | elseEmpty line => s!"Error en línea {line}: \"else\" no puede estar vacío."
  | whileBrackets line => s!"Error en línea {line}: paréntesis mal formados en \"while\"."
  | whileCondition line => s!"Condición no booleana en línea {line} (se esperaba true/false)."
  | whileBody line => s!"Error en línea {line}: cuerpo del \"while\" debe estar entre llaves \x7b\x7d."
  | loopForm line =>
    s!"Error en línea {line}: estructura \"doFor\" debe ser: doFor (inicialización; condición; actualización) \x7b...\x7d"
  | loopBrackets line => s!"Error en línea {line}: paréntesis mal formados en \"doFor\"."
  | loopParts line => s!"Error en línea {line}: \"doFor\" necesita tres partes separadas por \";\"."
  | loopCondition line => s!"Condición no booleana en línea {line} en \"doFor\"."
  | loopBody line => s!"Error en línea {line}: cuerpo del \"doFor\" debe estar entre llaves \x7b\x7d."
  | assignmentForm (some line) => s!"Error de sintaxis en la línea {line}."
  | assignmentForm none => "Error de sintaxis en la línea ?."
  | operandUndeclared line =>
    s!"Error de sintaxis en la línea {line}: falta el símbolo \"!\" al final de la declaración."
  | variableUndefined line name => s!"Variable no definida en la línea {line}: {name}"
  | tokenMisplaced line text => s!"Error de sintaxis en la expresión en la línea {line}: {text}"
  | evaluation text fault => s!"Error evaluando la expresión: {text} ({fault.message})"
  | translated text reason => s!"Error evaluando la expresión: {text} ({reason})"
  | typeUnsupported kind => s!"Tipo no soportado: {kind.name}"
  | typeChanged line name old new =>
    s!"Error en línea {line}: Variable \"{name}\" es de tipo {old.name}, no se puede asignar {new.name}"
  | functionIncomplete line => s!"Error en línea {line}: Declaración de función incompleta"
  | functionName line => s!"Error en línea {line}: Nombre de función no válido"
  | functionBracket line => s!"Error en línea {line}: Se esperaba \"(\" después del nombre de la función"
  | functionBracketUnclosed line => s!"Error en línea {line}: Paréntesis de parámetros no cerrado"
  | functionParameter line => s!"Error en línea {line}: Carácter no válido en parámetros"
  | functionBody => "Error en línea \x7bline_num\x7d: Cuerpo de función debe comenzar con \x7b"
  | functionUndefined name => s!"Función no definida: {name}"
  | argumentCount name => s!"Número incorrecto de argumentos para {name}"

end Diagnostic

namespace Crash

def quoted (text : String) : String := String.ofList (Text.quoted text.toList)

def tokenText (t : Token) : String := s!"({quoted t.kind.name}, {quoted t.text}, {t.line})"

def message : Crash → String
  | noToken => "list index out of range"
  | untypedName name | undeclaredFunction name | missingEntry name => quoted name
  | missingToken token => s!"{tokenText token} is not in list"
  | malformedInteger text =>
    let shown := String.ofList ((quoted text).toList.take 200)
    s!"invalid literal for int() with base 10: {shown}"
  | longInteger digits =>
    s!"Exceeds the limit (4300 digits) for integer string conversion: value has {digits} digits; use sys.set_int_max_str_digits() to increase the limit"
  | malformedReal text => s!"could not convert string to float: {quoted text}"
  | longText => Value.digitLimitMessage
  | functionsUnsearchable kind => s!"argument of type '{kind.name}' is not iterable"
  | functionsUnnamed .str => "string indices must be integers, not 'str'"
  | functionsUnnamed kind => s!"{kind.name} indices must be integers or slices, not str"
  | functionsFixed .list => "list indices must be integers or slices, not str"
  | functionsFixed kind => s!"'{kind.name}' object does not support item assignment"
  | unsaid kind => s!"__repr__ returned non-string (type {kind.name})"

end Crash

end Bang
