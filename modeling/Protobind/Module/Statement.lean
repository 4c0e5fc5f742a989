import Protobind.Module.Plan

/-!
# Statements of modules

A module is a sequence of statements, each of which binds names or makes an entry in a registry.
-/

namespace Protobind

/-- A statement of a module. -/
inductive Statement where
  | support (name : String)
  | importModule (localName path : String)
  | package (name : String)
  | forward (module name : String)
  | forwardClass (module : String) (symbol : MessageSymbol)
  | enumClass (e : EnumPlan)
  | enumConstant (className : String) (c : EnumConstant)
  | labels (e : EnumPlan)
  | numbers (e : EnumPlan)
  | messageClass (m : MessagePlan)
  | ranges (name : String) (ranges : List FieldRange)
  | default (name : String) (value : DefaultExpr)
  | discriminator (name : String)
  | variant (discriminator : String) (member : OneofMember)
  | functions (owner : String) (groups : List OneofGroup)
  | extension (e : ExtensionPlan)
  | register (entry : Registration)
  | descriptor (name : String) (data : Bytes)

def EnumPlan.statements (e : EnumPlan) : List Statement :=
  .enumClass e :: e.constants.map (.enumConstant e.name) ++ [.labels e, .numbers e]

def OneofGroup.statements (g : OneofGroup) : List Statement :=
  .discriminator g.discriminator :: g.members.map (.variant g.discriminator)

def MessagePlan.statements (m : MessagePlan) : List Statement :=
  .messageClass m ::
    (if m.hasExtensions then [.ranges m.rangesName m.ranges] else []) ++
    m.defaults.map (fun (name, e) => .default name e) ++
    m.oneofs.flatMap OneofGroup.statements ++
    (if m.groups.isEmpty then [] else [.functions m.name m.oneofs])

def Symbol.statements (module : String) : Symbol → List Statement
  | .message s => [.forwardClass module s]
  | symbol => symbol.names.map (.forward module)

def ImportPlan.statements : ImportPlan → List Statement
  | .weak _ => []
  | .unused path _ => [.importModule "_" path]
  | .used path localName _ => [.importModule localName path]

def Statement.bound : Statement → List String
  | .support name => [name]
  | .importModule localName _ => [localName]
  | .package _ => ["_PACKAGE"]
  | .forward _ name => [name]
  | .forwardClass _ symbol => [symbol.name]
  | .enumClass e => [e.name]
  | .enumConstant _ c => [c.name]
  | .labels e => [e.labelsName]
  | .numbers e => [e.numbersName]
  | .messageClass m => [m.name]
  | .ranges name _ => [name]
  | .default name _ => [name]
  | .discriminator name => [name]
  | .variant _ member => [member.variant]
  | .functions owner _ => [Oneof.writerName owner, Oneof.readerName owner, Oneof.sizerName owner]
  | .extension e => [e.variableName]
  | .register _ => []
  | .descriptor name _ => [name]

namespace ModulePlan

def supportModules : List String := ["proto", "math"]

def statements (p : ModulePlan) : List Statement :=
  supportModules.map .support ++ p.imports.flatMap ImportPlan.statements ++
    [.package p.packageName] ++
    p.forwards.flatMap (fun f => f.symbols.flatMap (Symbol.statements f.module)) ++
    p.enums.flatMap EnumPlan.statements ++ p.messages.flatMap MessagePlan.statements ++
    p.extensions.map .extension ++ p.registrations.map .register ++
    [.descriptor p.variableName p.descriptor]

end ModulePlan

end Protobind
