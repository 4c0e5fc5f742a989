/-!
# Names of members

The members that things have by their type. Those for signs and conversions mostly have names
between pairs of underscores.
-/

namespace Protobind.MemberName

def word? (name : String) : Option String :=
  let cs := name.toList
  if 4 < cs.length && cs.take 2 == ['_', '_'] && cs.reverse.take 2 == ['_', '_'] then
    some (String.ofList ((cs.drop 2).take (cs.length - 4)))
  else none

def common : List String :=
  ["class", "delattr", "dir", "doc", "eq", "format", "ge", "getattribute", "getstate", "gt",
   "hash", "init", "init_subclass", "le", "lt", "ne", "new", "reduce", "reduce_ex", "repr",
   "setattr", "sizeof", "str", "subclasshook"]

/-- The words of the special members of integers that floating-point numbers have too. -/
def numeric : List String :=
  ["abs", "add", "bool", "ceil", "divmod", "float", "floor", "floordiv", "getnewargs", "int",
   "mod", "mul", "neg", "pos", "pow", "radd", "rdivmod", "rfloordiv", "rmod", "rmul", "round",
   "rpow", "rsub", "rtruediv", "sub", "truediv", "trunc"]

def specials (type : String) : List String :=
  match type with
  | "int" | "bool" =>
    numeric ++ ["and", "index", "invert", "lshift", "or", "rand", "rlshift", "ror", "rrshift",
      "rshift", "rxor", "xor"]
  | "float" => numeric ++ ["getformat"]
  | "complex" =>
    ["abs", "add", "bool", "complex", "getnewargs", "mul", "neg", "pos", "pow", "radd", "rmul",
     "rpow", "rsub", "rtruediv", "sub", "truediv"]
  | "str" =>
    ["add", "contains", "getitem", "getnewargs", "iter", "len", "mod", "mul", "rmod", "rmul"]
  | "bytes" =>
    ["add", "bytes", "contains", "getitem", "getnewargs", "iter", "len", "mod", "mul", "rmod",
     "rmul"]
  | "list" =>
    ["add", "class_getitem", "contains", "delitem", "getitem", "iadd", "imul", "iter", "len",
     "mul", "reversed", "rmul", "setitem"]
  | "tuple" =>
    ["add", "class_getitem", "contains", "getitem", "getnewargs", "iter", "len", "mul", "rmul"]
  | "dict" =>
    ["class_getitem", "contains", "delitem", "getitem", "ior", "iter", "len", "or", "reversed",
     "ror", "setitem"]
  | "set" =>
    ["and", "class_getitem", "contains", "iand", "ior", "isub", "iter", "ixor", "len", "or",
     "rand", "ror", "rsub", "rxor", "sub", "xor"]
  | "frozenset" =>
    ["and", "class_getitem", "contains", "iter", "len", "or", "rand", "ror", "rsub", "rxor", "sub",
     "xor"]
  | "range" => ["bool", "contains", "getitem", "iter", "len", "reversed"]
  | "NoneType" => ["bool"]
  | "function" =>
    ["annotations", "builtins", "call", "closure", "code", "defaults", "dict", "get", "globals",
     "kwdefaults", "module", "name", "qualname"]
  | "builtin_function_or_method" =>
    ["call", "module", "name", "qualname", "self", "text_signature"]
  | "method" => ["call", "func", "self"]
  | "generator" => ["del", "iter", "name", "next", "qualname"]
  | "dict_keys" | "dict_items" =>
    ["and", "contains", "iter", "len", "or", "rand", "reversed", "ror", "rsub", "rxor", "sub",
     "xor"]
  | "dict_values" => ["iter", "len", "reversed"]
  | "module" => ["annotations", "dict"]
  | "type" =>
    ["abstractmethods", "annotations", "base", "bases", "basicsize", "call", "dict", "dictoffset",
     "flags", "instancecheck", "itemsize", "module", "mro", "name", "or", "prepare", "qualname",
     "ror", "subclasscheck", "subclasses", "text_signature", "weakrefoffset"]
  | "error" => ["cause", "context", "dict", "setstate", "suppress_context", "traceback"]
  | _ => []

def textual : List String :=
  ["capitalize", "center", "count", "endswith", "expandtabs", "find", "index", "isalnum", "isalpha",
   "isascii", "isdigit", "islower", "isspace", "istitle", "isupper", "join", "ljust", "lower",
   "lstrip", "maketrans", "partition", "removeprefix", "removesuffix", "replace", "rfind", "rindex",
   "rjust", "rpartition", "rsplit", "rstrip", "split", "splitlines", "startswith", "strip",
   "swapcase", "title", "translate", "upper", "zfill"]

def setQuestions : List String :=
  ["copy", "difference", "intersection", "isdisjoint", "issubset", "issuperset",
   "symmetric_difference", "union"]

def plain (type : String) : List String :=
  match type with
  | "int" | "bool" =>
    ["as_integer_ratio", "bit_count", "bit_length", "conjugate", "denominator", "from_bytes",
     "imag", "numerator", "real", "to_bytes"]
  | "float" =>
    ["as_integer_ratio", "conjugate", "fromhex", "hex", "imag", "is_integer", "real"]
  | "complex" => ["conjugate", "imag", "real"]
  | "str" =>
    textual ++ ["casefold", "encode", "format", "format_map", "isdecimal", "isidentifier",
      "isnumeric", "isprintable"]
  | "bytes" => textual ++ ["decode", "fromhex", "hex"]
  | "list" =>
    ["append", "clear", "copy", "count", "extend", "index", "insert", "pop", "remove", "reverse",
     "sort"]
  | "tuple" => ["count", "index"]
  | "dict" =>
    ["clear", "copy", "fromkeys", "get", "items", "keys", "pop", "popitem", "setdefault", "update",
     "values"]
  | "set" =>
    setQuestions ++ ["add", "clear", "difference_update", "discard", "intersection_update", "pop",
      "remove", "symmetric_difference_update", "update"]
  | "frozenset" => setQuestions
  | "range" => ["count", "index", "start", "step", "stop"]
  | "generator" =>
    ["close", "gi_code", "gi_frame", "gi_running", "gi_suspended", "gi_yieldfrom", "send", "throw"]
  | "dict_keys" | "dict_items" => ["isdisjoint", "mapping"]
  | "dict_values" => ["mapping"]
  | "type" => ["mro"]
  | "error" => ["add_note", "args", "with_traceback"]
  | _ => []

def isKnown (type name : String) : Bool :=
  (plain type).contains name ||
    match word? name with
    | some word => common.contains word || (specials type).contains word
    | none => false

end Protobind.MemberName
