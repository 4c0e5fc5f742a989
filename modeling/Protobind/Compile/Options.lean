import Protobind.Error
import Protobind.Log

/-!
# Options

A request carries its options in one text, as `key=value` arguments between commas. An argument that
starts with a quotation mark goes on to the next such mark, commas included, and keeps both.
-/

namespace Protobind

/-- The options of a request. -/
structure Options where
  importPrefix : String := ""
  importPath : String := ""
  importMap : Dictionary String String := []
  strictImports : Bool := false
  deriving DecidableEq

namespace Options

def isQuote (c : Char) : Bool := c == '\x22' || c == '\x27'

/-- Where in an argument the reader stands, and what it has read. -/
inductive Lexer where
  | start
  | plain (read : List Char)
  | quoted (read : List Char) (mark : Char)
  deriving DecidableEq

def split : Lexer → List Char → Except Fatal (List String)
  | .start, [] => .ok []
  | .plain read, [] => .ok [String.ofList read]
  | .quoted _ _, [] => .error .unclosedQuotation
  | .start, c :: cs =>
    if c == ',' then split .start cs
    else if isQuote c then split (.quoted [c] c) cs
    else split (.plain [c]) cs
  | .plain read, c :: cs =>
    if c == ',' then do pure (String.ofList read :: (← split .start cs))
    else split (.plain (read ++ [c])) cs
  | .quoted read mark, c :: cs =>
    if c == mark then do pure (String.ofList (read ++ [c]) :: (← split .start cs))
    else split (.quoted (read ++ [c]) mark) cs

def isOff (value : String) : Bool :=
  let lower := value.map Char.toLower
  lower == "false" || lower == "0"

def addArgument (o : Options) (argument : String) : Except CompileError (Options × List LogEntry) :=
  let cs := argument.toList
  let cut? := Text.cutAt? '=' cs
  let (keyChars, valueChars) := cut?.getD (cs, [])
  let key := String.ofList keyChars
  let value := String.ofList valueChars
  match keyChars, cut? with
  | 'M' :: c :: file, some _ =>
    .ok ({ o with importMap := o.importMap.set (String.ofList (c :: file)) value }, [])
  | _, _ =>
    if key == "import_prefix" then .ok ({ o with importPrefix := value }, [])
    else if key == "import_path" then .ok ({ o with importPath := value }, [])
    else if key == "strict_imports" then .ok ({ o with strictImports := !isOff value }, [])
    else if key == "plugins" then
      .ok (o, [.warning s!"Ignoring plugins={value}; service stubs are not generated"])
    else .error (.unknownParameter argument)

def addArguments (o : Options) : List String → Except CompileError Options × List LogEntry
  | [] => (.ok o, [])
  | argument :: rest =>
    match o.addArgument argument with
    | .error e => (.error e, [])
    | .ok (o, entries) =>
      let (result, more) := o.addArguments rest
      (result, entries ++ more)

def parse (parameter : String) : Except GenerateError Options × List LogEntry :=
  match split .start parameter.toList with
  | .error e => (.error (.fatal e), [])
  | .ok arguments =>
    let (result, entries) := addArguments {} arguments
    (result.mapError .reported, entries)

end Options

end Protobind
