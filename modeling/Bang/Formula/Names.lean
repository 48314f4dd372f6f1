import Bang.Dialect

/-! Names that an expression can reach besides the variables of its program: it is evaluated by the host, in the place
where the host runs the program. -/

namespace Bang.Formula

def builtinNames : List String :=
  ["ArithmeticError", "AssertionError", "AttributeError", "BaseException", "BaseExceptionGroup", "BlockingIOError",
   "BrokenPipeError", "BufferError", "BytesWarning", "ChildProcessError", "ConnectionAbortedError",
   "ConnectionError", "ConnectionRefusedError", "ConnectionResetError", "DeprecationWarning", "EOFError",
   "Ellipsis", "EncodingWarning", "EnvironmentError", "Exception", "ExceptionGroup", "FileExistsError",
   "FileNotFoundError", "FloatingPointError", "FutureWarning", "GeneratorExit", "IOError", "ImportError",
   "ImportWarning", "IndentationError", "IndexError", "InterruptedError", "IsADirectoryError", "KeyError",
   "KeyboardInterrupt", "LookupError", "MemoryError", "ModuleNotFoundError", "NameError", "NotADirectoryError",
   "NotImplemented", "NotImplementedError", "OSError", "OverflowError", "PendingDeprecationWarning",
   "PermissionError", "ProcessLookupError", "RecursionError", "ReferenceError", "ResourceWarning", "RuntimeError",
   "RuntimeWarning", "StopAsyncIteration", "StopIteration", "SyntaxError", "SyntaxWarning", "SystemError",
   "SystemExit", "TabError", "TimeoutError", "TypeError", "UnboundLocalError", "UnicodeDecodeError",
   "UnicodeEncodeError", "UnicodeError", "UnicodeTranslateError", "UnicodeWarning", "UserWarning", "ValueError",
   "Warning", "ZeroDivisionError", "__build_class__", "__debug__", "__import__", "abs", "aiter", "all", "anext",
   "any", "ascii", "bin", "bool", "breakpoint", "bytearray", "bytes", "callable", "chr", "classmethod", "compile",
   "complex", "copyright", "credits", "delattr", "dict", "dir", "divmod", "enumerate", "eval", "exec", "exit",
   "filter", "float", "format", "frozenset", "getattr", "globals", "hasattr", "hash", "help", "hex", "id", "input",
   "int", "isinstance", "issubclass", "iter", "len", "license", "list", "locals", "map", "max", "memoryview",
   "min", "next", "object", "oct", "open", "ord", "pow", "print", "property", "quit", "range", "repr", "reversed",
   "round", "set", "setattr", "slice", "sorted", "staticmethod", "str", "sum", "super", "tuple", "type", "vars",
   "zip"]

def placeNames : List String :=
  ["__name__", "__doc__", "__package__", "__loader__", "__spec__", "__file__", "__cached__", "__builtins__",
   "tokens", "symbol_table", "expr", "token_type", "token_value", "line_num", "evaluate_expression"]

def serviceNames : List String :=
  ["Flask", "request", "jsonify", "GoogleTranslator", "CORS", "re", "app", "logs", "unused_vars", "unused_fns",
   "types", "lexer", "parse_program", "parse_statement", "parse_function", "parse_function_call", "parse_print",
   "parse_doFor", "parse_while", "parse_block", "parse_if", "parse_else", "determine_type", "parse_assignment",
   "find_unused_variables", "get_usage_functions_warnings", "compile_code"]

def hostNames : Dialect → List String
  | .basic => builtinNames ++ placeNames
  | .extended => builtinNames ++ placeNames ++ serviceNames

/-- Whether a name may stand for something. The host reads letters of other alphabets in its own
way. -/
def isHostName (d : Dialect) (name : String) : Bool :=
  (hostNames d).contains name || name.toList.any (0x80 ≤ ·.toNat)

end Bang.Formula
