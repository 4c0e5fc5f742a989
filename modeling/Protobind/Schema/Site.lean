import Protobind.Schema.Node

/-!
# Places of declarations

What a file declares has a place behind it: first the messages, outer ones first, then the enums of
the file, the enums and extensions of each message, and the extensions of the file.
-/

namespace Protobind

/-- A message with its place: the message around it and the fields of that one, and the positions and
names that lead to it from the outermost message on. -/
structure Site where
  id : Nat
  parent? : Option Nat := none
  siblings : List FieldDecl := []
  path : List Nat := []
  names : List String := []
  decl : MessageDecl

/-- What becomes a node: what it stands for, and the number of what is around it. -/
structure Entry where
  parent? : Option NodeId
  kind : NodeKind

def NodeKind.withExtensions (extensions : List NodeId) : NodeKind → NodeKind
  | .message m => .message { m with extensions }
  | kind => kind

def Entry.isIn (parent : NodeId) (sort : NodeSort) (e : Entry) : Bool :=
  e.kind.sort == sort && e.parent? == some parent

namespace Site

/-- The message at a position inside another one. -/
def inner (outer : Site) (index id : Nat) (decl : MessageDecl) : Site where
  id
  parent? := some outer.id
  siblings := outer.decl.fields
  path := outer.path ++ [index]
  names := outer.names ++ [decl.name]
  decl

mutual

/-- A message inside another one and those inside it, outer ones first, with the numbers from `id` on. -/
def nest (outer : Site) (index id : Nat) : MessageDecl → List Site
  | ⟨name?, fields, nested, enums, ranges, extensions, options?, oneofs, reservedRanges,
      reservedNames⟩ =>
    let site := outer.inner index id
      ⟨name?, fields, nested, enums, ranges, extensions, options?, oneofs, reservedRanges,
        reservedNames⟩
    site :: site.below 0 (id + 1) nested

/-- Messages inside another one and those inside them; the first has the position `index`. -/
def below (outer : Site) (index id : Nat) : List MessageDecl → List Site
  | [] => []
  | decl :: decls =>
    let sites := outer.nest index id decl
    sites ++ outer.below (index + 1) (id + sites.length) decls

end

/-- The entry of a message. It is a group when a field beside it says so. -/
def entry (package : String) (e : Site) : Entry where
  parent? := e.parent?
  kind := .message
    { decl := e.decl
      index := e.path.getLastD 0
      isGroup := e.siblings.any fun f =>
        f.kind == .group && f.typeName == Arena.qualified package e.names
      settledPath? := if e.decl.nested.isEmpty then none else some e.names }

def enums (e : Site) : List Entry := e.decl.enums.zipIdx.map fun d => ⟨some e.id, .enum d.1 d.2⟩

def extensions (e : Site) : List Entry := e.decl.extensions.map fun d => ⟨some e.id, .extension d⟩

end Site

namespace FileDecl

variable (f : FileDecl) (id : NodeId)

/-- The file, as the place of a message with everything that the file declares. -/
def root : Site where
  id
  decl := { nested := f.messages, enums := f.enums, extensions := f.extensions }

def sites : List Site := (f.root id).below 0 (id + 1) f.messages

/-- What is declared in the file besides messages. -/
def members : List Entry :=
  (f.root id).enums ++ (f.sites id).flatMap (fun e => e.enums ++ e.extensions) ++ (f.root id).extensions

def entries : List Entry := (f.sites id).map (·.entry f.package) ++ f.members id

/-- The entries with the numbers of their nodes, which follow that of the file. -/
def places : List (Entry × NodeId) := (f.entries id).zipIdx (id + 1)

/-- The numbers of the entries with a property. -/
def numbers (p : Entry → Bool) : List NodeId := ((f.places id).filter fun e => p e.1).map (·.2)

def fileNode : FileNode where
  decl := f
  messages := f.numbers id (·.kind.sort == .message)
  enums := f.numbers id (·.kind.sort == .enum)
  extensions := f.numbers id (·.isIn id .extension)

/-- The nodes of a file: the file itself and its entries. A message knows its extensions. -/
def nodes : List Node :=
  { id, file := id, parent? := none, kind := .file (f.fileNode id) } ::
    (f.places id).map fun e =>
      { id := e.2, file := id, parent? := e.1.parent?
        kind := e.1.kind.withExtensions (f.numbers id (·.isIn e.2 .extension)) }

end FileDecl

end Protobind
