import Protobind.Number.Reading
import Protobind.Schema.Kind
import Protobind.Text.Quoted

/-!
# Field tags

A tag describes how one field is encoded, in one line of text:

    encoding,number,label[,packed],name=X[,json=Y][,proto3][,enum=E][,oneof][,def=D]

The default stands last, since it may contain commas.
-/

namespace Protobind

/-- What a tag says. -/
structure Tag where
  text : String
  wireType : WireType
  number : Int
  repeated : Bool
  required : Bool
  packed : Bool := false
  proto3 : Bool := false
  oneof : Bool := false
  name : String
  jsonName : String := ""
  enumName : String := ""
  default? : Option String := none
  deriving DecidableEq

/-- Why a text is no tag. -/
inductive TagError where
  | unknownEncoding
  | missingPart
  | badNumber (text : String) (error : IntegerError)
  deriving DecidableEq

def TagError.message? : TagError → Option String
  | .badNumber text e => some (e.message (Text.quote text))
  | _ => none

namespace Tag

/-- The option that a part of a tag sets. -/
def optionOf (part : List Char) : String :=
  String.ofList ((Text.cutAt? '=' part).getD (part, [])).1

/-- The value that a part of a tag gives its option. -/
def valueOf (part : List Char) : String :=
  String.ofList ((Text.cutAt? '=' part).getD (part, [])).2

/-- Gives an option other than the default its value. -/
def assign (tag : Tag) (option value : String) : Tag :=
  match option with
  | "packed" => { tag with packed := true }
  | "proto3" => { tag with proto3 := true }
  | "oneof" => { tag with oneof := true }
  | "name" => { tag with name := value }
  | "json" => { tag with jsonName := value }
  | "enum" => { tag with enumName := value }
  | _ => tag

/-- Reads a part that is no default. -/
def set (tag : Tag) (part : List Char) : Tag := tag.assign (optionOf part) (valueOf part)

def addParts (tag : Tag) : List (List Char) → Tag
  | [] => tag
  | part :: parts =>
    if optionOf part = "def" then
      -- The default goes on to the end, commas included.
      let rest := List.intercalate [','] (part :: parts)
      { tag with default? := some (String.ofList (rest.drop 4)) }
    else addParts (tag.set part) parts

/-- Reads a tag; a field whose tag gives no name is called `attr`. -/
def parse (attr text : String) : Except TagError Tag :=
  match Text.splitOn ',' text.toList with
  | [] => .error .unknownEncoding
  | encodingPart :: parts =>
    match Encoding.ofName? (String.ofList encodingPart) with
    | none => .error .unknownEncoding
    | some encoding =>
      match parts with
      | [] => .error .missingPart
      | numberPart :: parts =>
        match readInteger (String.ofList numberPart) with
        | .error e => .error (.badNumber (String.ofList numberPart) e)
        | .ok number =>
          match parts with
          | [] => .error .missingPart
          | label :: parts =>
            .ok <| addParts
              { text, wireType := encoding.wireType, number
                repeated := String.ofList label == "rep"
                required := String.ofList label == "req"
                name := attr } parts

end Tag

end Protobind
