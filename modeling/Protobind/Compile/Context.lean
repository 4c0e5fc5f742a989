import Protobind.Compile.Options
import Protobind.Name.Allocator
import Protobind.Name.Path
import Protobind.Schema.Tree

/-!
# The context of a run

A file sees the types of the files that it imports, and of those that these import publicly, step by
step. What it imports publicly is made visible in it by nodes of its own.
-/

namespace Protobind

/-- What is known of all files of a run. -/
structure Context where
  options : Options := {}
  arena : Arena := {}
  files : List NodeId := []
  packageNames : List String := []
  types : Dictionary String NodeId := []

namespace Context

def supportPackages : List String := ["proto", "math"]

def generatedNames : List String :=
  ["_", "m", "b", "x", "n", "s", "tag", "wire", "data", "self"]

/-- An identifier for a package that is not in use: the cleaned candidate, with the least number
behind it that makes it free. -/
def registerPackage (used : List String) (candidate : String) : String × List String :=
  let name := Name.uniqueNumbered (Name.clean candidate) used
  (name, used ++ [name])

def reservedPackages : List String :=
  (supportPackages ++ generatedNames).foldl (fun used name => (registerPackage used name).2) []

def fileIn? (a : Arena) (files : List NodeId) (name : String) : Option NodeId :=
  files.reverse.find? fun id => a.name id == name

def fileIn (a : Arena) (files : List NodeId) (name : String) : Except CompileError NodeId :=
  match fileIn? a files name with
  | some id => .ok id
  | none => .error (.missingFile name)

/-! ## Public imports -/

/-- Makes a node visible in a file; the second of the pair provides it. -/
def addImport (file : NodeId) (a : Arena) (p : NodeId × NodeId) : Arena :=
  let (id, a) := a.add (some file) (some file) (.imported p.1 p.2)
  a.modifyFile file fun f => { f with imported := f.imported ++ [id] }

def addImports (file : NodeId) (pairs : List (NodeId × NodeId)) (a : Arena) : Arena :=
  pairs.foldl (addImport file) a

def declared (f : FileNode) : List NodeId := f.messages ++ f.enums ++ f.extensions

/-- What the file with a number declares. -/
def declaredBy (a : Arena) (id : NodeId) : List NodeId := ((a.file? id).map declared).getD []

/-- What visited files make visible, each credited to the file beside it. -/
def tourPairs (a : Arena) (tour : List (NodeId × NodeId)) : List (NodeId × NodeId) :=
  tour.flatMap fun p => (declaredBy a p.1).map fun t => (t, p.2)

def publicFile (a : Arena) (files : List NodeId) (name : String) :
    Except GenerateError (NodeId × FileDecl) := do
  let id ← (fileIn a files name).mapError .reported
  pure (id, ((a.file? id).map (·.decl)).getD {})

/-- The names of the files that a search visited, and the files in this order, each with the file that
it is credited to. -/
abbrev Search := List String × List (NodeId × NodeId)

section

variable (find : String → Except GenerateError (NodeId × FileDecl))

/-- Visits a file and what it imports publicly itself, skipping files that were visited. Each visit
marks a new file, so the number of files bounds the depth. -/
def visit (via : NodeId) : Nat → NodeId × FileDecl → Search → Except GenerateError Search
  | 0, _, state => .ok state
  | fuel + 1, (x, decl), (visited, tour) =>
    if visited.contains decl.name then .ok (visited, tour)
    else do
      let names ← decl.publicNames
      names.foldlM (fun state name => do visit via fuel (← find name) state)
        (decl.name :: visited, tour ++ [(x, via)])

def publicTour (fuel : Nat) (decl : FileDecl) : Except GenerateError (List (NodeId × NodeId)) := do
  let names ← decl.publicNames
  let (_, tour) ← names.foldlM
    (fun state name => do
      let p ← find name
      visit find p.1 fuel p state)
    ([], [])
  pure tour

end

def hoistInto (files : List NodeId) (a : Arena) (file : NodeId) : Except GenerateError Arena := do
  match a.file? file with
  | none => pure a
  | some f => do
    let tour ← publicTour (publicFile a files) (files.length + 1) f.decl
    pure (addImports file (tourPairs a tour) a)

/-! ## Building a context -/

def select (files : List NodeId) : Nat → List String → Arena → Except GenerateError Arena
  | _, [], a => .ok a
  | index, name :: names, a => do
    let id ← (fileIn a files name).mapError .reported
    select files (index + 1) names
      (a.modifyFile id fun f => { f with generate := true, index })

def packageCandidate (options : Options) (f : FileNode) : String :=
  if f.generate && !options.importPath.isEmpty then
    let parts := options.importPath.toList.map fun c => if c = '.' then '/' else c
    String.ofList (Text.afterLast '/' (Text.dropEndWhile (· == '/') parts))
  else if !f.decl.package.isEmpty then f.decl.package
  else Name.base f.decl.name

def namePackages (options : Options) : List NodeId → List String × Arena → List String × Arena
  | [], state => state
  | id :: ids, (used, a) =>
    match a.file? id with
    | none => namePackages options ids (used, a)
    | some f =>
      let (packageName, used) := registerPackage used (packageCandidate options f)
      let modulePath :=
        (options.importMap.get? f.decl.name).getD (Name.modulePath f.decl.name)
      namePackages options ids
        (used, a.modifyFile id fun f => { f with packageName, modulePath })

def typesOf (a : Arena) (files : List NodeId) : Dictionary String NodeId :=
  let ids := files.flatMap fun file =>
    match a.file? file with
    | some f => f.messages ++ f.enums
    | none => []
  Dictionary.ofPairs (ids.map fun id => (a.fullName id, id))

def build (options : Options) (decls : List FileDecl) (generate : List String) :
    Except GenerateError Context := do
  let (files, a) ← (Arena.addFiles decls {}).mapError .reported
  let a ← files.foldlM (hoistInto files) a
  let a ← select files 0 generate a
  let (packageNames, a) := namePackages options files (reservedPackages, a)
  pure { options, arena := a, files, packageNames, types := typesOf a files }

variable (ctx : Context)

def fileNamed (name : String) : Except CompileError NodeId := fileIn ctx.arena ctx.files name

def filesToGenerate : List NodeId :=
  let wanted := ctx.files.filterMap fun id =>
    match ctx.arena.file? id with
    | some f => if f.generate then some ((f.index : Int), id) else none
    | none => none
  (sortByNumber wanted).map (·.2)

def lookup (typeName : String) : Except CompileError NodeId :=
  match ctx.types.get? typeName with
  | some id => .ok id
  | none => .error (.missingType typeName)

def isDirect (node file : NodeId) : Bool :=
  let decl := ctx.arena.fileDecl file
  let defining := (ctx.arena.fileDecl node).name
  defining == decl.name || decl.dependencies.contains defining

def visibleIn? (node : NodeId) : List String → Except CompileError (Option NodeId)
  | [] => .ok none
  | name :: names => do
    let id ← ctx.fileNamed name
    let imported := ((ctx.arena.file? id).map (·.imported)).getD []
    match imported.find? fun i => ctx.arena.target i == node with
    | some i => pure (some i)
    | none => visibleIn? node names

/-- What a type name means to a file. -/
inductive Resolution where
  | visible (node : NodeId)
  /-- The type exists, but no import of the file provides it. -/
  | hidden (node : NodeId)
  deriving DecidableEq

/-- Finds the node that a type name means to a file: the definition, when it lies in the file or in
one it imports, or else a node by which an imported file makes it visible. -/
def find (typeName : String) (file : NodeId) : Except CompileError Resolution := do
  let node ← ctx.lookup typeName
  if ctx.isDirect node file then pure (.visible node)
  else
    match ← ctx.visibleIn? node (ctx.arena.fileDecl file).dependencies with
    | some i => pure (.visible i)
    | none => pure (.hidden node)

/-- The node that a type name means to a file. A type that no import provides is an error when
imports are strict; otherwise it is found all the same, with a warning. -/
def resolve (typeName : String) (file : NodeId) : Except CompileError (NodeId × List LogEntry) := do
  match ← ctx.find typeName file with
  | .visible node => pure (node, [])
  | .hidden node =>
    let e := CompileError.missingImport typeName (ctx.arena.fileDecl file).name
    if ctx.options.strictImports then .error e else pure (node, [.warning e.summary])

end Context

end Protobind
