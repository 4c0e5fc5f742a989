import Protobind.Schema.Site

/-!
# The tree of a file

The nodes of a file are added to an arena. Then every message is told what lies inside it.
-/

namespace Protobind.Arena

def isChild (a : Arena) (parent id : NodeId) : Bool :=
  match a.get? id with
  | some n => n.attached && n.parent? == some parent
  | none => false

def childrenAmong (a : Arena) (parent : NodeId) (ids : List NodeId) : List NodeId :=
  ids.filter (a.isChild parent)

/-- The message where linking failed, and why. -/
structure LinkFault where
  message : NodeId
  error : CompileError
  deriving DecidableEq

/-- Tells messages what lies inside them, and checks the counts against their declarations. -/
def linkMessages (file : FileNode) : List NodeId → Arena → Except LinkFault Arena
  | [], a => .ok a
  | id :: ids, a =>
    match a.message? id with
    | none => linkMessages file ids a
    | some m =>
      let nested := a.childrenAmong id file.messages
      let enums := a.childrenAmong id file.enums
      if nested.length ≠ m.decl.nested.length then
        .error ⟨id, .nestedMessages m.decl.name m.decl.nested.length nested.length (a.fullName id)⟩
      else if enums.length ≠ m.decl.enums.length then
        .error ⟨id, .nestedEnums m.decl.name (a.fullName id)⟩
      else linkMessages file ids (a.modifyMessage id fun m => { m with nested, enums })

def link (fileId : NodeId) (a : Arena) : Except LinkFault Arena :=
  match a.file? fileId with
  | none => .ok a
  | some file => linkMessages file file.messages a

def addNodes (decl : FileDecl) (a : Arena) : NodeId × Arena :=
  (a.size, ⟨(a.nodes.toList ++ decl.nodes a.size).toArray⟩)

def addFile (decl : FileDecl) (a : Arena) : Except CompileError (NodeId × Arena) := do
  let (fileId, a) := addNodes decl a
  pure (fileId, ← (link fileId a).mapError (·.error))

def addFiles : List FileDecl → Arena → Except CompileError (List NodeId × Arena)
  | [], a => .ok ([], a)
  | decl :: decls, a => do
    let (id, a) ← addFile decl a
    let (ids, a) ← addFiles decls a
    pure (id :: ids, a)

/-- Gives a node another parent, or none. Numbers below zero count from the end; a parent that is
named so does not count the node among its own. A number that names no node stays as it is. -/
def setParent (a : Arena) (id : Int) (parent? : Option Int) : Except GenerateError Arena :=
  match position? a.size id with
  | none => .error (.fatal .indexOutOfRange)
  | some id =>
    .ok (a.modify id fun n =>
      { n with
        parent? := parent?.map fun parent => (position? a.size parent).getD a.size
        attached := (parent?.map fun parent => decide (0 ≤ parent)).getD true })

/-- The report of a message that does not hold what it declares. It names the message in full, so
everything around it has to be there. -/
def LinkFault.report (a : Arena) (fault : LinkFault) : GenerateError :=
  if ((a.message? fault.message).bind (·.settledPath?)).isSome
      || a.isRooted (a.size + 1) fault.message then
    .reported fault.error
  else .fatal .indexOutOfRange

/-- Gives nodes other parents and links the messages of the given files anew. In the end every
parent has to be there. -/
def reparent (changes : List (Int × Option Int)) (files : List NodeId) (a : Arena) :
    Except GenerateError Arena := do
  let a ← changes.foldlM (fun a (id, parent?) => a.setParent id parent?) a
  let linked ← files.foldlM (fun b file => (link file b).mapError (LinkFault.report a)) a
  if (List.range linked.size).all linked.hasParent then pure linked
  else throw (.fatal .indexOutOfRange)

end Protobind.Arena
