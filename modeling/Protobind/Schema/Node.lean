import Protobind.Error
import Protobind.Name.Camel
import Protobind.Schema.Comments

/-!
# Nodes

The declarations of all files of a run become nodes of one arena. A node knows its parent and its
file; a message and a file know what they declare.
-/

namespace Protobind

/-- The number of a node. -/
abbrev NodeId := Nat

/-- A file, and what it declares. -/
structure FileNode where
  decl : FileDecl
  messages : List NodeId := []
  enums : List NodeId := []
  extensions : List NodeId := []
  imported : List NodeId := []
  index : Nat := 0
  packageName : String := ""
  modulePath : String := ""
  generate : Bool := false

/-- A message, and what it declares. -/
structure MessageNode where
  decl : MessageDecl
  index : Nat
  isGroup : Bool := false
  nested : List NodeId := []
  enums : List NodeId := []
  extensions : List NodeId := []
  /-- The names from the outermost message to this one, where they were settled when the tree was
  built: messages inside this one needed them. -/
  settledPath? : Option (List String) := none

/-- What a node is. -/
inductive NodeKind where
  | file (node : FileNode)
  | message (node : MessageNode)
  | enum (decl : EnumDecl) (index : Nat)
  | extension (decl : FieldDecl)
  /-- What a public import makes visible: `target` is what was declared, `via` the imported file
  whose module provides it. -/
  | imported (target via : NodeId)

/-- What a node is, without what is known of it. -/
inductive NodeSort where
  | file
  | message
  | enum
  | extension
  | imported
  deriving DecidableEq

def NodeKind.sort : NodeKind → NodeSort
  | .file _ => .file
  | .message _ => .message
  | .enum .. => .enum
  | .extension _ => .extension
  | .imported .. => .imported

/-- A node. -/
structure Node where
  id : NodeId
  file : NodeId
  parent? : Option NodeId
  attached : Bool := true
  kind : NodeKind

/-- The nodes of a run. -/
structure Arena where
  nodes : Array Node := #[]

namespace Arena

variable (a : Arena)

variable (id : NodeId)

def get? : Option Node := a.nodes[id]?

def kind? : Option NodeKind :=
  match a.get? id with
  | some n => some n.kind
  | none => none

def size : Nat := a.nodes.size

def add (file? parent? : Option NodeId) (kind : NodeKind) : NodeId × Arena :=
  let id := a.size
  (id, ⟨a.nodes.push { id, file := file?.getD id, parent?, kind }⟩)

def modify (id : NodeId) (f : Node → Node) : Arena := ⟨a.nodes.modify id f⟩

def modifyFile (f : FileNode → FileNode) : Arena :=
  a.modify id fun n =>
    match n.kind with
    | .file node => { n with kind := .file (f node) }
    | _ => n

def modifyMessage (f : MessageNode → MessageNode) : Arena :=
  a.modify id fun n =>
    match n.kind with
    | .message node => { n with kind := .message (f node) }
    | _ => n

def file? : Option FileNode :=
  match a.kind? id with
  | some (.file node) => some node
  | _ => none

def message? : Option MessageNode :=
  match a.kind? id with
  | some (.message node) => some node
  | _ => none

def enum? : Option EnumDecl :=
  match a.kind? id with
  | some (.enum decl _) => some decl
  | _ => none

def extension? : Option FieldDecl :=
  match a.kind? id with
  | some (.extension decl) => some decl
  | _ => none

def target (id : NodeId) : NodeId :=
  match a.kind? id with
  | some (.imported target _) => target
  | _ => id

def parent? (id : NodeId) : Option NodeId := (a.get? id).bind (·.parent?)

def hasParent : Bool :=
  ((a.parent? id).map fun parent => decide (parent < a.size)).getD true

/-- Whether every node from a node outwards has its parent in the arena, over at most `depth`
levels. -/
def isRooted : Nat → NodeId → Bool
  | 0, _ => true
  | depth + 1, id =>
    (a.file? id).isSome || a.hasParent id && ((a.parent? id).map (isRooted depth)).getD true

def fileOf : NodeId := ((a.get? id).map (·.file)).getD id

def fileDecl : FileDecl := ((a.file? (a.fileOf id)).map (·.decl)).getD {}

def name (id : NodeId) : String :=
  match a.kind? (a.target id) with
  | some (.file node) => node.decl.name
  | some (.message node) => node.decl.name
  | some (.enum decl _) => decl.name
  | some (.extension decl) => decl.name
  | _ => ""

def namesAbove : Nat → NodeId → List String
  | 0, _ => []
  | depth + 1, id =>
    if (a.file? id).isSome then []
    else
      match a.parent? id with
      | some parent => namesAbove depth parent ++ [a.name id]
      | none => [a.name id]

def typeName : List String :=
  let id := a.target id
  match (a.message? id).bind (·.settledPath?) with
  | some names => names
  | none => a.namesAbove (a.size + 1) id

def camelName : String := Name.camelPath (a.typeName id)

def qualified (package : String) (names : List String) : String :=
  "." ++ String.intercalate "." (if package.isEmpty then names else package :: names)

def fullName : String :=
  qualified (a.fileDecl (a.target id)).package (a.typeName id)

def registeredName : String :=
  String.ofList ((a.fullName id).toList.dropWhile (· == '.'))

def messageIndexes : Nat → NodeId → List Nat
  | 0, _ => []
  | depth + 1, id =>
    match a.message? id with
    | none => []
    | some m => (((a.parent? id).map (messageIndexes depth)).getD []) ++ [m.index]

def indexes : List Nat :=
  match a.kind? id with
  | some (.enum _ index) =>
    (((a.parent? id).map (a.messageIndexes (a.size + 1))).getD []) ++ [index]
  | _ => a.messageIndexes (a.size + 1) id

def messagePath : Nat := 4
def enumPath : Nat := 5
def nestedMessagePath : Nat := 3
def nestedEnumPath : Nat := 4
def fieldPath : Nat := 2
def oneofPath : Nat := 8
def valuePath : Nat := 2

def pathOfIndexes : List Nat → String
  | [] => ""
  | first :: rest =>
    rest.foldl (fun path i => s!"{path},{nestedMessagePath},{i}") s!"{messagePath},{first}"

def path : String :=
  match a.kind? id with
  | some (.enum _ index) =>
    match (a.parent? id).bind fun parent => (a.message? parent).map fun _ => parent with
    | some parent =>
      s!"{pathOfIndexes (a.messageIndexes (a.size + 1) parent)},{nestedEnumPath},{index}"
    | none => s!"{enumPath},{index}"
  | _ => pathOfIndexes (a.indexes id)

/-- What the names of the constants of an enum start with: the name of the enum for an enum of a
file, the name of the message around it otherwise. -/
def constantPrefix : String :=
  if ((a.parent? id).bind a.message?).isSome then Name.camelPath (a.typeName id).dropLast ++ "_"
  else Name.camel (a.name id) ++ "_"

def extensionVariable : String := "E_" ++ Name.camelPath (a.typeName id)

def topLevelMessages (fileId : NodeId) (file : FileNode) : List NodeId :=
  file.messages.filter fun id => a.parent? id == some fileId

end Arena

namespace FileNode

def variableName (f : FileNode) : String := s!"fileDescriptor{f.index}"

def packageComment? (f : FileNode) : Option String := f.decl.comments.package?

def sortedComments (f : FileNode) : List (String × String) := f.decl.comments.sorted

end FileNode

/-- The position that a number names among `count` things: it counts from the end when it is
negative. -/
def position? (count : Nat) (i : Int) : Option Nat :=
  let i := if 0 ≤ i then i else i + count
  if 0 ≤ i ∧ i < count then some i.toNat else none

def indexed? {α : Type} (items : List α) (i : Int) : Option α :=
  (position? items.length i).bind fun i => items[i]?

def indexedAll {α : Type} (items : List α) : List Int → Except GenerateError (List α)
  | [] => .ok []
  | i :: rest =>
    match indexed? items i with
    | none => .error (.fatal .indexOutOfRange)
    | some item => do pure (item :: (← indexedAll items rest))

def FileDecl.publicNames (f : FileDecl) : Except GenerateError (List String) :=
  indexedAll f.dependencies f.publicDependencies

end Protobind
