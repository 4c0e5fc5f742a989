import Protobind.Schema.Declaration

/-!
# Serialised declarations

The bytes of a file declaration, as the module embeds them: every property that is present, in the
order of the numbers. Comments are not part of them.
-/

namespace Protobind

namespace Serialize

def text (number : Nat) (value : String) : Bytes := writeKey number .bytes ++ writeText value

def integer (number : Nat) (value : Int) : Bytes := writeKey number .varint ++ Varint.write value

def flag (number : Nat) (value : Bool) : Bytes := integer number (if value then 1 else 0)

def record (number : Nat) (value : Bytes) : Bytes := writeKey number .bytes ++ writeRun value

def optional {α : Type} (write : α → Bytes) : Option α → Bytes
  | none => []
  | some a => write a

def many {α : Type} (write : α → Bytes) (values : List α) : Bytes := values.flatMap write

end Serialize

open Serialize

def Label.number : Label → Nat
  | .optional => 1
  | .required => 2
  | .repeated => 3

def FieldOptions.serialize (o : FieldOptions) : Bytes :=
  optional (flag 2) o.packed? ++ optional (flag 3) o.deprecated?

def FieldDecl.serialize (f : FieldDecl) : Bytes :=
  optional (text 1) f.name? ++ optional (text 2) f.extendee? ++ optional (integer 3) f.number? ++
    optional (fun l => integer 4 l.number) f.label? ++
    optional (fun k => integer 5 k.number) f.kind? ++ optional (text 6) f.typeName? ++
    optional (text 7) f.default? ++ optional (fun o => record 8 o.serialize) f.options? ++
    optional (integer 9) f.oneofIndex? ++ optional (text 10) f.jsonName? ++
    optional (flag 17) f.proto3Optional?

def RangeDecl.serialize (r : RangeDecl) : Bytes :=
  optional (integer 1) r.start? ++ optional (integer 2) r.stop?

def EnumValueDecl.serialize (v : EnumValueDecl) : Bytes :=
  optional (text 1) v.name? ++ optional (integer 2) v.number?

def EnumOptions.serialize (o : EnumOptions) : Bytes :=
  optional (flag 2) o.allowAlias? ++ optional (flag 3) o.deprecated?

def EnumDecl.serialize (e : EnumDecl) : Bytes :=
  optional (text 1) e.name? ++ many (fun v => record 2 v.serialize) e.values ++
    optional (fun o => record 3 o.serialize) e.options? ++
    many (fun r => record 4 r.serialize) e.reservedRanges ++ many (text 5) e.reservedNames

def OneofDecl.serialize (o : OneofDecl) : Bytes := optional (text 1) o.name?

def MessageOptions.serialize (o : MessageOptions) : Bytes :=
  optional (flag 1) o.messageSet? ++ optional (flag 2) o.noStandardAccessor? ++
    optional (flag 3) o.deprecated? ++ optional (flag 7) o.mapMark?

mutual

def MessageDecl.serialize : MessageDecl → Bytes
  | ⟨name?, fields, nested, enums, extensionRanges, extensions, options?, oneofs, reservedRanges,
      reservedNames⟩ =>
    optional (text 1) name? ++ many (fun f => record 2 f.serialize) fields ++
      serializeNested nested ++ many (fun e => record 4 e.serialize) enums ++
      many (fun r => record 5 r.serialize) extensionRanges ++
      many (fun f => record 6 f.serialize) extensions ++
      optional (fun o => record 7 o.serialize) options? ++
      many (fun o => record 8 o.serialize) oneofs ++
      many (fun r => record 9 r.serialize) reservedRanges ++ many (text 10) reservedNames

def MessageDecl.serializeNested : List MessageDecl → Bytes
  | [] => []
  | m :: ms => record 3 m.serialize ++ serializeNested ms

end

def MethodDecl.serialize (m : MethodDecl) : Bytes :=
  optional (text 1) m.name? ++ optional (text 2) m.inputType? ++ optional (text 3) m.outputType? ++
    optional (flag 5) m.clientStreaming? ++ optional (flag 6) m.serverStreaming?

def ServiceDecl.serialize (s : ServiceDecl) : Bytes :=
  optional (text 1) s.name? ++ many (fun m => record 2 m.serialize) s.methods

def FileOptions.serialize (o : FileOptions) : Bytes :=
  optional (text 1) o.javaPackage? ++ optional (flag 10) o.javaMultipleFiles? ++
    optional (text 11) o.goPackage? ++ optional (flag 23) o.deprecated?

def FileDecl.serialize (f : FileDecl) : Bytes :=
  optional (text 1) f.name? ++ optional (text 2) f.package? ++ many (text 3) f.dependencies ++
    many (fun m => record 4 m.serialize) f.messages ++
    many (fun e => record 5 e.serialize) f.enums ++
    many (fun s => record 6 s.serialize) f.services ++
    many (fun e => record 7 e.serialize) f.extensions ++
    optional (fun o => record 8 o.serialize) f.options? ++
    many (integer 10) f.publicDependencies ++ many (integer 11) f.weakDependencies ++
    optional (text 12) f.edition?

end Protobind
