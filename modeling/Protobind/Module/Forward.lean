import Protobind.Module.Source
import Protobind.Text.Quoted

/-!
# Forwarded symbols

A module that imports another one publicly defines the names of that module again, each forwarding
to it. What a module offers for this is recorded as symbols.
-/

namespace Protobind

/-- A getter that can be forwarded. -/
structure GetterSymbol where
  name : String
  typeHint : String
  typeName : String := ""
  isLocalType : Bool := false
  deriving DecidableEq

/-- A message class that can be forwarded. -/
structure MessageSymbol where
  name : String
  hasExtensions : Bool := false
  isMessageSet : Bool := false
  hasOneof : Bool := false
  getters : List GetterSymbol := []
  deriving DecidableEq

/-- What a module offers to others. -/
inductive Symbol where
  | const (name : String)
  | enum (name : String)
  | message (symbol : MessageSymbol)
  deriving DecidableEq

/-! ## Qualifiers -/

def isWordChar (c : Char) : Bool := Text.isAlphanumeric c || c == '_'

def startsQualifier (c : Char) : Bool := ('a' ≤ c && c ≤ 'z') || ('A' ≤ c && c ≤ 'Z') || c == '_'

def continuesQualifier (c : Char) : Bool := startsQualifier c || ('0' ≤ c && c ≤ '9')

def behindQualifier? (cs : List Char) : Option (List Char) :=
  match cs with
  | [] => none
  | c :: rest =>
    if startsQualifier c then
      match rest.dropWhile continuesQualifier with
      | '.' :: rest => some rest
      | _ => none
    else none

/-- Drops all qualifiers; `inWord` tells whether the character in front belongs to a word. At most
`fuel` characters are read. -/
def dropQualifiers : Nat → Bool → List Char → List Char
  | 0, _, cs => cs
  | _, _, [] => []
  | fuel + 1, inWord, c :: cs =>
    match if inWord then none else behindQualifier? (c :: cs) with
    | some rest => dropQualifiers fuel false rest
    | none => c :: dropQualifiers fuel (isWordChar c) cs

/-- A type hint without the modules of its names. The types that a forwarded getter returns are
defined next to it. -/
def unqualified (typeHint : String) : String :=
  String.ofList (dropQualifiers typeHint.length false typeHint.toList)

/-! ## Definitions -/

open Source

def forwardMethod (head call : String) : List Line := lines ["", head] ++ block (lines [call])

def GetterSymbol.forwardedHint (g : GetterSymbol) : String :=
  if g.isLocalType then unqualified g.typeHint else g.typeHint

def MessageSymbol.forwardLines (module : String) (s : MessageSymbol) : List Line :=
  let remote := module ++ "." ++ s.name
  lines [s!"class {s.name}(proto.Message):"] ++
    block (
      lines
        [s!"\"\"\"Forwarding alias for {remote}.\"\"\"", "",
         s!"_original = proto.original_type({remote})",
         s!"_fields = {remote}._fields",
         s!"_oneofs = {remote}._oneofs"] ++
      forwardMethod "def __init__(self, *args, **kwargs):"
        s!"{remote}.__init__(self, *args, **kwargs)" ++
      forwardMethod "def reset(self):" s!"{remote}.reset(self)" ++
      forwardMethod "def string(self) -> str:" s!"return {remote}.string(self)" ++
      forwardMethod "def proto_message(self):" "pass" ++
      (if s.hasExtensions then
        forwardMethod "def extension_range_array(self):"
          s!"return {remote}.extension_range_array(self)" ++
        (if s.isMessageSet then
          forwardMethod "def marshal(self, *args):" s!"return {remote}.marshal(self, *args)" ++
          forwardMethod "def unmarshal(self, *args):" s!"return {remote}.unmarshal(self, *args)"
        else [])
      else []) ++
      (if s.hasOneof then
        forwardMethod "def oneof_funcs(self):" s!"return {remote}.oneof_funcs(self)"
      else []) ++
      s.getters.flatMap fun g =>
        forwardMethod s!"def {g.name}(self) -> {Text.quote g.forwardedHint}:"
          s!"return {remote}.{g.name}(self)") ++
    lines [""]

def forwardName (module name : String) : String := s!"{name} = {module}.{name}"

namespace Symbol

def enumNames (name : String) : List String := [name, name ++ "_name", name ++ "_value"]

def forwardLines (module : String) : Symbol → List Line
  | .const name => lines [forwardName module name]
  | .enum name => lines ((enumNames name).map (forwardName module))
  | .message s => s.forwardLines module

def typeUses : Symbol → List String
  | .message s => (s.getters.map (·.typeName)).filter fun name => !name.isEmpty
  | _ => []

def names : Symbol → List String
  | .const name => [name]
  | .enum name => enumNames name
  | .message s => [s.name]

end Symbol

end Protobind
