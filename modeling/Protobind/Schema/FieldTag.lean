import Protobind.Schema.Default
import Protobind.Schema.Tag

/-!
# Writing field tags

The tag of a declared field. `Tag.parse` reads it back.
-/

namespace Protobind

def Label.tagName : Label → String
  | .optional => "opt"
  | .required => "req"
  | .repeated => "rep"

namespace FieldDecl

/-- The name of a field in its tag. A group is named by its type, whose capitals the name of the
field has lost. -/
def tagName (f : FieldDecl) : String :=
  if f.kind = .group then String.ofList (Text.afterLast '.' f.typeName.toList) else f.name

def tagPart (condition : Bool) (part : String) : List String := if condition then [part] else []

/-- The parts in front of the name in JSON. -/
def leadParts (f : FieldDecl) (proto3 : Bool) : List String :=
  tagPart (f.isPacked proto3) "packed" ++ ["name=" ++ f.tagName]

/-- Whether the tag of a field shows its name in JSON. -/
def showsJson (f : FieldDecl) : Bool :=
  f.extendee?.isNone && !f.jsonName.isEmpty && f.jsonName != f.tagName

/-- The parts between the name in JSON and the default. -/
def tailParts (f : FieldDecl) (proto3 : Bool) (enumName? : Option String) : List String :=
  tagPart (proto3 && !f.proto3Optional) "proto3" ++
    tagPart (f.kind == .enum && !(enumName?.getD "").isEmpty) ("enum=" ++ enumName?.getD "") ++
    tagPart f.inOneof "oneof"

/-- The parts between the label and the default. -/
def fixedParts (f : FieldDecl) (proto3 : Bool) (enumName? : Option String) : List String :=
  f.leadParts proto3 ++ tagPart f.showsJson ("json=" ++ f.jsonName) ++ f.tailParts proto3 enumName?

/-- The parts behind the label. -/
def optionParts (f : FieldDecl) (proto3 : Bool) (enumName? : Option String)
    (default? : Option String) : List String :=
  f.fixedParts proto3 enumName? ++ default?.toList.map ("def=" ++ ·)

/-- The default that the tag of a field shows. -/
def shownDefault? (f : FieldDecl) (enumValues? : Option (List (String × Int))) :
    Except GenerateError (Option String) :=
  if f.default?.isSome then do pure (some (← f.tagDefault enumValues?)) else pure none

/-- The tag of a field. `enumName?` is the full name of its enum type, `enumValues?` the values of
that enum. -/
def tag (f : FieldDecl) (proto3 : Bool) (enumName? : Option String)
    (enumValues? : Option (List (String × Int))) : Except GenerateError String := do
  let default? ← f.shownDefault? enumValues?
  pure (String.intercalate "," (f.kind.encoding.name :: toString f.number :: f.label.tagName ::
    f.optionParts proto3 enumName? default?))

end FieldDecl

end Protobind
