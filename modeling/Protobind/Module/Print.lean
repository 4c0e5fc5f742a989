import Protobind.Module.Plan
import Protobind.Name.Path

/-!
# Printing modules

The source text of a planned module.
-/

namespace Protobind

open Source

def commentLines : Option String → List Line
  | none => []
  | some text => if text.isEmpty then [] else comment text

def Comments.linesAt (comments : Comments) (path : String) : List Line :=
  commentLines (comments.get? path)

def indexesSource (indexes : List Nat) : String :=
  "[" ++ String.intercalate ", " (indexes.map toString) ++ "]"

def method (head : String) (body : List Line) : List Line := lines ["", head] ++ block body

def wellKnownLines : Option String → List Line
  | none => []
  | some name =>
    method "def xxx_well_known_type(self) -> str:" (lines ["return " ++ Text.quote name])

namespace EnumPlan

/-- The entries of the dictionary from numbers to names; an entry for a number that has one is
written as a comment. -/
def nameEntries : List Int → List EnumConstant → List String
  | _, [] => []
  | seen, c :: rest =>
    let entry := s!"{c.number}: {Text.quote c.label},"
    (if seen.contains c.number then "# Duplicate value: " ++ entry else entry) ::
      nameEntries (c.number :: seen) rest

def printed (comments : Comments) (holder : String) (e : EnumPlan) : List Line :=
  comments.linesAt e.path ++
    lines [s!"class {e.name}(proto.Enum):"] ++
    block (
      lines ["def string(self) -> str:"] ++
      block (lines [s!"return proto.enum_name({e.labelsName}, self)"]) ++
      method "def enum_descriptor(self):"
        (lines [s!"return {holder}, {indexesSource e.indexes}"]) ++
      wellKnownLines e.wellKnown?) ++
    lines ["", ""] ++
    e.constants.flatMap (fun c =>
      comments.linesAt c.path ++ lines [s!"{c.name} = {e.name}({c.number})"]) ++
    lines ["", e.labelsName ++ " = \x7b"] ++ block (lines (nameEntries [] e.constants)) ++
    lines ["\x7d", e.numbersName ++ " = \x7b"] ++
    block (lines (e.constants.map fun c => s!"{Text.quote c.label}: {c.number},")) ++
    lines ["\x7d", "", ""]

end EnumPlan

def FieldEntry.source : FieldEntry → String
  | .plain attr kind tag typeName? =>
    let args := [attr, kind.name, tag] ++ typeName?.toList
    "proto.Field(" ++ String.intercalate ", " (args.map Text.quote) ++ ")"
  | .map attr tag key value =>
    let args := [Text.quote attr, Text.quote SlotKind.mapName, Text.quote tag,
      "key=" ++ key.source, "value=" ++ value.source]
    "proto.Field(" ++ String.intercalate ", " args ++ ")"

namespace ParamPlan

def head (p : ParamPlan) : String :=
  match p.default with
  | .zero kind => s!"{p.attr}: {Text.quote p.typeHint} = {kind.zeroSource},"
  | _ =>
    let typeHint := Text.quote (p.typeHint ++ " | None")
    s!"{p.attr}: {typeHint} = None,"

def assignment (p : ParamPlan) : String :=
  match p.default with
  | .emptyList => s!"self.{p.attr} = [] if {p.attr} is None else {p.attr}"
  | .emptyMap => s!"self.{p.attr} = \x7b\x7d if {p.attr} is None else {p.attr}"
  | _ => s!"self.{p.attr} = {p.attr}"

end ParamPlan

def Fallback.source : Fallback → String
  | .nothing => "None"
  | .zero kind => kind.zeroSource
  | .enum reference => reference.source
  | .default name => name

def GetterTest.printed : GetterTest → List Line
  | .stored attr => lines ["if self is not None:"] ++ block (lines [s!"return self.{attr}"])
  | .unlessNull attr =>
    lines [s!"if self is not None and self.{attr} is not None:"] ++
      block (lines [s!"return self.{attr}"])
  | .member group variant attr =>
    lines [s!"if self is not None and isinstance(self.{group}, {variant}):"] ++
      block (lines [s!"return self.{group}.{attr}"])

def GetterPlan.printed (g : GetterPlan) : List Line :=
  method s!"def {g.name}(self) -> {Text.quote g.typeHint}:"
    (g.test.printed ++ lines ["return " ++ g.fallback.source])

namespace MessagePlan

variable (comments : Comments) (m : MessagePlan)

def tableLines : List Line :=
  let attrs := String.intercalate " " (m.oneofs.map fun g => Text.quote g.attr ++ ",")
  lines ["_fields = ("] ++
    block (m.fields.flatMap fun f =>
      comments.linesAt f.path ++ lines [f.entry.source ++ ","]) ++
    lines [")", s!"_oneofs = ({attrs})"]

def assignments : List String :=
  let all := m.params.map ParamPlan.assignment ++
    (if m.hasExtensions then ["self._extensions = \x7b\x7d"] else []) ++
    (if m.keepsUnknown then ["self._unrecognized = b''"] else [])
  if all.isEmpty then ["pass"] else all

def constructorLines : List Line :=
  let head :=
    if m.params.isEmpty then lines ["", "def __init__(self):"]
    else
      lines ["", "def __init__("] ++
        block (lines ("self," :: m.params.map ParamPlan.head)) ++ lines ["):"]
  head ++ block (lines m.assignments)

def oneofLines : List Line :=
  if m.groups.isEmpty then []
  else
    method "def oneof_funcs(self):" (
      lines ["return ("] ++
      block (
        lines [Oneof.writerName m.name ++ ",", Oneof.readerName m.name ++ ",",
          Oneof.sizerName m.name ++ ",", "["] ++
        block (lines ((m.oneofs.flatMap (·.members)).map fun x => x.variant ++ ",")) ++
        lines ["],"]) ++
      lines [")"])

def classLines (holder : String) (m : MessagePlan) : List Line :=
  comments.linesAt m.path ++
    lines [s!"class {m.name}(proto.Message):"] ++
    block (
      m.tableLines comments ++ m.constructorLines ++
      method "def reset(self):" (lines ["self.__init__()"]) ++
      method "def string(self) -> str:" (lines ["return proto.compact_text_string(self)"]) ++
      method "def proto_message(self):" (lines ["pass"]) ++
      method "def descriptor(self):"
        (lines [s!"return {holder}, {indexesSource m.indexes}"]) ++
      wellKnownLines m.wellKnown? ++
      (if m.isMessageSet then
        method "def marshal(self) -> bytes:"
          (lines ["return proto.marshal_message_set(self._extensions)"]) ++
        method "def unmarshal(self, data: bytes) -> None:"
          (lines ["proto.unmarshal_message_set(data, self._extensions)"])
      else []) ++
      (if m.hasExtensions then
        method "def extension_range_array(self):" (lines ["return " ++ m.rangesName])
      else []) ++
      m.getters.flatMap GetterPlan.printed ++ m.oneofLines) ++
    lines ["", ""]

def rangeLines : List Line :=
  if m.hasExtensions then
    lines [m.rangesName ++ " = ["] ++
      block (lines (m.ranges.map fun r => s!"proto.ExtensionRange({r.first}, {r.last}),")) ++
      lines ["]", ""]
  else []

def defaultLines : List Line :=
  if m.defaults.isEmpty then []
  else lines (m.defaults.map fun (name, e) => s!"{name} = {e.source}") ++ lines ["", ""]

def oneofCode : List Line :=
  if m.groups.isEmpty then []
  else
    m.groups.flatMap (fun g => comments.linesAt g.path ++ g.group.classLines m.name) ++
      Oneof.functionLines m.name m.oneofs

def printed (holder : String) (m : MessagePlan) : List Line :=
  m.classLines comments holder ++ m.rangeLines ++ m.defaultLines ++ m.oneofCode comments

end MessagePlan

def ExtensionPlan.printed (file : String) (e : ExtensionPlan) : List Line :=
  lines [e.variableName ++ " = proto.ExtensionDesc("] ++
    block (lines (
      [s!"extended_type={e.extended.source},", s!"extension_type={Text.quote e.kind.name},",
       s!"field={e.number},", s!"name={Text.quote e.name},", s!"tag={Text.quote e.tag},",
       s!"filename={Text.quote file},"] ++
      (e.typeName?.map fun name => s!"type_name={Text.quote name},").toList)) ++
    lines [")", ""]

def Registration.source : Registration → String
  | .message className name => s!"proto.register_type({className}, {Text.quote name})"
  | .messageSet type? number name =>
    let type := (type?.map Reference.source).getD ""
    s!"proto.register_message_set_type({type}, {number}, {Text.quote name})"
  | .enum name className =>
    s!"proto.register_enum({Text.quote name}, {className}_name, {className}_value, {className})"
  | .extension variableName => s!"proto.register_extension({variableName})"

def ForwardPlan.printed (f : ForwardPlan) : List Line :=
  lines [s!"# {f.name} from public import {f.via}"] ++
    f.symbols.flatMap (Symbol.forwardLines f.module) ++ lines ["", ""]

def ImportPlan.source (importPrefix : String) : ImportPlan → String
  | .weak path => s!"# skipping weak import {importPrefix}{path}"
  | .unused path _ => s!"import {importPrefix}{path} as _  # pylint: disable=unused-import"
  | .used path localName _ => s!"import {importPrefix}{path} as {localName}"

/-! ## Documentation -/

def docChars : List Char → List Char
  | [] => []
  | '\\' :: cs => '\\' :: '\\' :: docChars cs
  | '\x22' :: '\x22' :: '\x22' :: cs =>
    '\\' :: '\x22' :: '\\' :: '\x22' :: '\\' :: '\x22' :: docChars cs
  | c :: cs => c :: docChars cs

def PackageDoc.commentLines (d : PackageDoc) : List Line :=
  match d.comment? with
  | none => []
  | some text =>
    if text.isEmpty then []
    else
      lines ((textLines text).map fun cs =>
        String.ofList (Text.trimEnd (docChars (dropBlank cs)))) ++ lines [""]

def PackageDoc.printed (packageName : String) (d : PackageDoc) : List Line :=
  lines ["\"\"\"", s!"Package {packageName} is a generated protocol buffer package.", ""] ++
    d.commentLines ++
    lines ["It is generated from these files:"] ++
    block (lines (d.files.map fun file => String.ofList (docChars file.toList))) ++
    lines ["", "It has these top-level messages:"] ++
    block (lines d.messages) ++
    lines ["\"\"\"", ""]

namespace ModulePlan

def toolName : String := "protoc-gen-pybuf"

def headLines (p : ModulePlan) : List Line :=
  lines [s!"# Code generated by {toolName}. DO NOT EDIT.", s!"# source: {p.file}"] ++
    (match p.doc? with
    | none => lines [""]
    | some doc => doc.printed p.packageName) ++
    lines [s!"from {p.importPrefix}{supportPackage} import proto",
      "import math  # pylint: disable=unused-import"] ++
    lines (p.imports.map (·.source p.importPrefix)) ++
    lines ["", "_PACKAGE = " ++ Text.quote p.packageName, ""]

def bytesPerLine : Nat := 16

def byteLines : Nat → Bytes → List String
  | 0, _ => []
  | _, [] => []
  | fuel + 1, bs =>
    String.intercalate " " ((bs.take bytesPerLine).map fun b => s!"0x{Text.hex 2 b.toNat},") ::
      byteLines fuel (bs.drop bytesPerLine)

/-- The assignment of the serialised declaration, which is written in compressed form. Without that
form the assignment holds no bytes. -/
def descriptorLines (compressed? : Option Bytes) (p : ModulePlan) : List Line :=
  match compressed? with
  | none => lines [s!"{p.variableName} = bytes([])"]
  | some blob =>
    lines [s!"{p.variableName} = bytes(["] ++
      block (lines (s!"# {blob.length} bytes of a gzipped FileDescriptorProto" ::
        byteLines blob.length blob)) ++
      lines ["])"]

def bodyLines (compressed? : Option Bytes) (p : ModulePlan) : List Line :=
  p.forwards.flatMap ForwardPlan.printed ++
    p.enums.flatMap (·.printed p.comments p.variableName) ++
    p.messages.flatMap (·.printed p.comments p.variableName) ++
    p.extensions.flatMap (·.printed p.file) ++
    (if p.registrations.isEmpty then []
    else lines ("" :: p.registrations.map Registration.source)) ++
    lines [""] ++ p.descriptorLines compressed? ++
    lines ["", s!"proto.register_file({Text.quote p.file}, {p.variableName})"]

def relines (cs : List Char) : List Line := lines ((Text.splitLines cs).map String.ofList)

def resplit (text : String) : List Line := relines text.toList

def render (compressed? : Option Bytes) (p : ModulePlan) : String :=
  Source.render (p.headLines ++ resplit (Source.render (p.bodyLines compressed?)))

def chars (compressed? : Option Bytes) (p : ModulePlan) : List Char :=
  Source.chars (p.headLines ++ relines (Source.chars (p.bodyLines compressed?)))

theorem toList_render (compressed? : Option Bytes) (p : ModulePlan) :
    (p.render compressed?).toList = p.chars compressed? := by
  rw [render, resplit, Source.toList_render, Source.toList_render, chars]

def outputName (p : ModulePlan) : String := Name.outputFile p.file

end ModulePlan

end Protobind
