import Protobind.Message.Registry

/-!
# Names that need no definition

What every module finds without defining it, and what the modules that support all modules have. A
path names one of these, with the name of its module in front unless every module finds it.
-/

namespace Protobind.Builtin

def valueClasses : List String :=
  ["bool", "bytearray", "bytes", "classmethod", "complex", "dict", "enumerate", "filter", "float",
   "frozenset", "int", "list", "map", "memoryview", "object", "property", "range", "reversed",
   "set", "slice", "staticmethod", "str", "super", "tuple", "type", "zip"]

def errorClasses : List (String × String) :=
  [("BaseException", "object"), ("Exception", "BaseException"),
   ("BaseExceptionGroup", "BaseException"), ("GeneratorExit", "BaseException"),
   ("KeyboardInterrupt", "BaseException"), ("SystemExit", "BaseException"),
   ("ArithmeticError", "Exception"), ("AssertionError", "Exception"),
   ("AttributeError", "Exception"), ("BufferError", "Exception"), ("EOFError", "Exception"),
   ("ExceptionGroup", "Exception"), ("ImportError", "Exception"), ("LookupError", "Exception"),
   ("MemoryError", "Exception"), ("NameError", "Exception"), ("OSError", "Exception"),
   ("ReferenceError", "Exception"), ("RuntimeError", "Exception"),
   ("StopAsyncIteration", "Exception"), ("StopIteration", "Exception"),
   ("SyntaxError", "Exception"), ("SystemError", "Exception"), ("TypeError", "Exception"),
   ("ValueError", "Exception"), ("Warning", "Exception"),
   ("FloatingPointError", "ArithmeticError"), ("OverflowError", "ArithmeticError"),
   ("ZeroDivisionError", "ArithmeticError"), ("ModuleNotFoundError", "ImportError"),
   ("IndexError", "LookupError"), ("KeyError", "LookupError"), ("UnboundLocalError", "NameError"),
   ("BlockingIOError", "OSError"), ("ChildProcessError", "OSError"), ("ConnectionError", "OSError"),
   ("FileExistsError", "OSError"), ("FileNotFoundError", "OSError"),
   ("InterruptedError", "OSError"), ("IsADirectoryError", "OSError"),
   ("NotADirectoryError", "OSError"),
   ("PermissionError", "OSError"), ("ProcessLookupError", "OSError"), ("TimeoutError", "OSError"),
   ("BrokenPipeError", "ConnectionError"), ("ConnectionAbortedError", "ConnectionError"),
   ("ConnectionRefusedError", "ConnectionError"), ("ConnectionResetError", "ConnectionError"),
   ("NotImplementedError", "RuntimeError"), ("RecursionError", "RuntimeError"),
   ("IndentationError", "SyntaxError"), ("TabError", "IndentationError"),
   ("UnicodeError", "ValueError"), ("UnicodeDecodeError", "UnicodeError"),
   ("UnicodeEncodeError", "UnicodeError"), ("UnicodeTranslateError", "UnicodeError"),
   ("BytesWarning", "Warning"), ("DeprecationWarning", "Warning"), ("EncodingWarning", "Warning"),
   ("FutureWarning", "Warning"), ("ImportWarning", "Warning"),
   ("PendingDeprecationWarning", "Warning"), ("ResourceWarning", "Warning"),
   ("RuntimeWarning", "Warning"), ("SyntaxWarning", "Warning"), ("UnicodeWarning", "Warning"),
   ("UserWarning", "Warning"), ("proto.Error", "Exception"), ("proto.EncodeError", "proto.Error"),
   ("proto.DecodeError", "proto.Error"), ("proto.BadWireTypeError", "proto.DecodeError")]

def innerClasses : List String :=
  ["NoneType", "module", "function", "method", "builtin_function_or_method", "generator",
   "dict_keys", "dict_values", "dict_items", "NotImplementedType", "ellipsis"]

def otherClassNames : List (String × String) :=
  [("EnvironmentError", "OSError"), ("IOError", "OSError")]

def functions : List String :=
  ["abs", "aiter", "all", "anext", "any", "ascii", "bin", "breakpoint", "callable", "chr",
   "compile", "delattr", "dir", "divmod", "eval", "exec", "exit", "format", "getattr", "globals",
   "hasattr", "hash", "help", "hex", "id", "input", "isinstance", "issubclass", "iter", "len",
   "locals", "max", "min", "next", "oct", "open", "ord", "pow", "print", "quit",
   "repr", "round", "setattr", "sorted", "sum", "vars", "__build_class__", "__import__"]

def singleObjects : List String := ["Ellipsis", "NotImplemented"]

def mathFunctions : List String :=
  ["acos", "acosh", "asin", "asinh", "atan", "atan2", "atanh", "cbrt", "ceil", "comb", "copysign",
   "cos", "cosh", "degrees", "dist", "erf", "erfc", "exp", "exp2", "expm1", "fabs", "factorial",
   "floor", "fmod", "frexp", "fsum", "gamma", "gcd", "hypot", "isclose", "isfinite", "isinf",
   "isnan", "isqrt", "lcm", "ldexp", "lgamma", "log", "log10", "log1p", "log2", "modf", "nextafter",
   "perm", "pow", "prod", "radians", "remainder", "sin", "sinh", "sqrt", "tan", "tanh", "trunc",
   "ulp"]

def messageClasses : List String :=
  ["BadWireTypeError", "Buffer", "DecodeError", "EncodeError", "Enum", "Error", "ExtensionDesc",
   "ExtensionRange", "Field", "Message", "OneofVariant"]

def messageFunctions : List String :=
  ["clear_extension", "compact_text_string", "enum_name", "enum_value_map", "file_descriptor",
   "float32_bits", "float32_from_bits", "float64_bits", "float64_from_bits", "get_extension",
   "has_extension", "int32", "int64", "marshal", "marshal_message_set", "merge",
   "message_set_type", "message_type", "original_type", "register_enum", "register_extension",
   "register_file", "register_message_set_type", "register_type", "registered_extensions",
   "set_extension", "size", "size_varint", "uint32", "unmarshal", "unmarshal_message_set",
   "zigzag32", "zigzag64", "_tag", "_size_bytes", "_quote", "_in_ranges", "_text_value",
   "_message_set_text", "_zero_value", "_encode_double", "_encode_float", "_encode_bool",
   "_encode_single", "_encode_field", "_decode_single", "_decode_map_entry", "_decode_field",
   "_fields_by_number", "_extension_ranges", "_marshal_into", "_merge", "_merge_bytes",
   "_size_single", "_size_field", "_check_extendable"]

variable (path : String)

def lastName : String := String.ofList (Text.afterLast '.' path.toList)

def isError : Bool := (errorClasses.lookup path).isSome

def isClass : Bool :=
  valueClasses.contains path || innerClasses.contains path || isError path ||
    messageClasses.any fun name => path == "proto." ++ name

def baseOf? : Option String :=
  match path with
  | "object" => none
  | "bool" => some "int"
  | "proto.Enum" => some "int"
  | "proto.ExtensionRange" => some "tuple"
  | _ => some ((errorClasses.lookup path).getD "object")

/-- The classes that a class belongs to, itself first, in at most `fuel` steps. -/
def lineage : Nat → String → List String
  | 0, _ => []
  | fuel + 1, path =>
    path :: ((baseOf? path).map fun base => lineage fuel base).getD []

def belongsTo (path base : String) : Bool := (lineage 10 path).contains base

def shownPath : String :=
  if path.startsWith "proto." then "pybuf." ++ path else path

def source : String :=
  if isClass path then s!"<class {Text.singleQuote}{shownPath path}{Text.singleQuote}>"
  else if singleObjects.contains path then path
  else s!"<built-in function {lastName path}>"

def named? (name : String) : Option Binding :=
  if name == "__debug__" || name == "True" then some (.value (.bool true))
  else if name == "False" then some (.value (.bool false))
  else if name == "None" then some (.value .null)
  else if name == "NotImplemented" || name == "Ellipsis" || functions.contains name ||
      valueClasses.contains name || isError name then
    some (.builtin name)
  else (otherClassNames.lookup name).map .builtin

end Protobind.Builtin
