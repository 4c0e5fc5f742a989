import Protobind.Error
import Protobind.Module.OneofCase
import Protobind.Module.Source
import Protobind.Name.Reference

/-!
# Oneofs of a generated module

One attribute of a message holds nothing or an instance of a variant class. The variant classes of a
oneof are derived from one discriminator class; three functions write, read and measure them.
-/

namespace Protobind

/-- A member of a oneof. -/
structure OneofMember where
  name : String
  number : Int
  kind : Kind
  attr : String
  variant : String
  type? : Option Reference := none
  typeHint : String := ""
  deriving DecidableEq

/-- A oneof of a message class. -/
structure OneofGroup where
  name : String
  attr : String
  getter : String
  discriminator : String
  members : List OneofMember := []
  deriving DecidableEq

def Kind.ofOneofMember (kind field : String) : Except CompileError Kind :=
  match Kind.ofName? kind with
  | some kind => .ok kind
  | none => .error (.oneofKind kind field)

open Source

namespace OneofMember

def typeSource (m : OneofMember) : String := (m.type?.map Reference.source).getD ""

def code (m : OneofMember) : OneofCase := OneofCase.ofKind m.kind

def held (m : OneofMember) : String := "x." ++ m.attr

def classLines (discriminator : String) (m : OneofMember) : List Line :=
  lines [s!"class {m.variant}({discriminator}):"] ++
    block (
      lines
        [s!"__slots__ = ({Text.quote m.attr},)", "",
         s!"def __init__(self, {m.attr}: {Text.quote m.typeHint} = {m.kind.zeroSource}):"] ++
      block (lines [s!"self.{m.attr} = {m.attr}"]) ++
      lines ["", s!"def {discriminator}(self):"] ++ block (lines ["pass"])) ++
    lines ["", ""]

end OneofMember

namespace OneofGroup

def classLines (owner : String) (g : OneofGroup) : List Line :=
  lines [s!"class {g.discriminator}(proto.OneofVariant):"] ++
    block (
      lines
        [s!"\"\"\"Types that are valid to be assigned to {owner}.{g.attr}.\"\"\"", "",
         "__slots__ = ()", "", s!"def {g.discriminator}(self):"] ++
      block (lines ["pass"])) ++
    lines ["", ""] ++ g.members.flatMap (·.classLines g.discriminator)

/-- A chain of cases over the variants of a oneof, with `failure` for any other object. -/
def cases (g : OneofGroup) (body : OneofMember → List String) (failure : String) : List Line :=
  lines [s!"# {g.name}", s!"x = m.{g.attr}", "if x is None:"] ++ block (lines ["pass"]) ++
    g.members.flatMap (fun m =>
      lines [s!"elif isinstance(x, {m.variant}):"] ++ block (lines (body m))) ++
    lines ["else:"] ++ block (lines [failure])

def readTests (g : OneofGroup) : List Line :=
  g.members.flatMap fun m =>
    lines [s!"if tag == {m.number}:  # {g.name}.{m.name}"] ++
      block (lines (m.code.readSource m.number m.typeSource g.attr m.variant))

end OneofGroup

namespace Oneof

def writerName (owner : String) : String := s!"_{owner}_oneof_marshaler"

def readerName (owner : String) : String := s!"_{owner}_oneof_unmarshaler"

def sizerName (owner : String) : String := s!"_{owner}_oneof_sizer"

def functionLines (owner : String) (groups : List OneofGroup) : List Line :=
  lines [s!"def {writerName owner}(m, b):"] ++
    block (groups.flatMap fun g =>
      g.cases (fun m => m.code.writeSource m.number m.held)
        (s!"raise proto.EncodeError('{owner}.{g.attr} has unexpected type %s' " ++
          "% type(x).__name__)")) ++
    lines ["", "", s!"def {readerName owner}(m, tag, wire, b):"] ++
    block (groups.flatMap OneofGroup.readTests ++ lines ["return False"]) ++
    lines ["", "", s!"def {sizerName owner}(m):"] ++
    block (
      lines ["n = 0"] ++
      groups.flatMap (fun g =>
        g.cases (fun m => m.code.sizeSource m.number m.held)
          "raise proto.EncodeError('proto: unexpected type %s in oneof' % type(x).__name__)") ++
      lines ["return n"]) ++
    lines ["", ""]

end Oneof

end Protobind
