import Protobind.Compile.MessagePlanner

/-!
# Planning modules of files
-/

namespace Protobind.Planner

variable (ctx : Context) (file : NodeId)

/-! ## Public imports -/

def useTypes : List String → Planner Unit
  | [] => pure ()
  | name :: names => do
    let _ ← typeReference ctx file name
    useTypes names

def forwardSymbols (target : NodeId) : List Symbol → Planner Unit
  | [] => pure ()
  | symbol :: symbols => do
    useTypes ctx file symbol.typeUses
    if let .const name := symbol then addConstant name
    offer file target symbol
    forwardSymbols target symbols

def planForward (node : NodeId) : Planner (Option ForwardPlan) := do
  match ctx.arena.kind? node with
  | some (.imported target via) => do
    match ((← get).exports.get? (via, target)).getD [] with
    | [] => pure none
    | symbols => do
      useFile (ctx.arena.name via)
      forwardSymbols ctx file target symbols
      pure (some
        { name := ctx.arena.name target, via := ctx.arena.name via
          module := ((ctx.arena.file? via).map (·.packageName)).getD "", symbols })
  | _ => pure none

/-! ## Extensions -/

def messageSetType : String := ".proto2_bridge.MessageSet"

def messageSetExtension : String := "message_set_extension"

def planExtension (node : NodeId) (decl : FieldDecl) :
    Planner (ExtensionPlan × List Registration) := do
  let extendee ← typeReference ctx file decl.extendee
  if !extendee.isMessage then
    throw (.reported (.extendsNoMessage decl.name decl.extendee (ctx.arena.fullName node)))
  let type? ←
    if decl.typeName.isEmpty then pure none
    else do pure (some (← typeReference ctx file decl.typeName))
  let tag ← ofExcept (tagOf extendee.isProto3 decl type?)
  let names := ctx.arena.typeName node
  let isMember :=
    extendee.fullName == messageSetType && names.getLast? == some messageSetExtension
  let ownName := String.intercalate "." (if isMember then names.dropLast else names)
  let package := (ctx.arena.fileDecl file).package
  let name := if package.isEmpty then ownName else package ++ "." ++ ownName
  let variableName := ctx.arena.extensionVariable node
  offer file node (.const variableName)
  pure
    ({ variableName, extended := extendee.reference, kind := decl.kind, number := decl.number
       name, tag
       typeName? :=
         if decl.typeName.isEmpty then none
         else some (String.ofList (decl.typeName.toList.dropWhile (· == '.'))) },
     if isMember then [.messageSet (type?.map (·.reference)) decl.number name] else [])

def planExtensions : List NodeId → Planner (List ExtensionPlan × List Registration)
  | [] => pure ([], [])
  | node :: nodes => do
    match ctx.arena.extension? node with
    | none => planExtensions nodes
    | some decl => do
      let (e, registrations) ← planExtension ctx file node decl
      let (es, more) ← planExtensions nodes
      pure (e :: es, registrations ++ more)

/-! ## Modules -/

def planImports (decl : FileDecl) : List (Nat × String) → Planner (List ImportPlan)
  | [] => pure []
  | (i, name) :: rest => do
    let dependency ← ofReported (ctx.fileNamed name)
    let f := (ctx.arena.file? dependency).getD { decl := {} }
    if decl.isWeak i then
      write [⟨.debug, s!"{decl.name}: skipping weak import {name}"⟩]
      pure (.weak f.modulePath :: (← planImports decl rest))
    else
      let used := (← get).usedFiles.contains name
      let plan := if used then .used f.modulePath f.packageName name else .unused f.modulePath name
      pure (plan :: (← planImports decl rest))

def packageDoc? (f : FileNode) : Option PackageDoc :=
  if f.generate && f.index == 0 then
    let files := ctx.filesToGenerate
    some
      { files := files.map ctx.arena.name
        messages := files.flatMap fun id =>
          match ctx.arena.file? id with
          | some g => (ctx.arena.topLevelMessages id g).map ctx.arena.camelName
          | none => [] }
  else none

def planMessages : List NodeId → Planner (List (NodeId × MessagePlan))
  | [] => pure []
  | node :: nodes => do
    match ctx.arena.message? node with
    | none => planMessages nodes
    | some m =>
      if m.decl.isMapEntry then planMessages nodes
      else do
        let plan ← planMessage ctx file node m
        let plans ← planMessages nodes
        pure ((node, plan) :: plans)

def allExtensions (f : FileNode) : List NodeId :=
  f.messages.flatMap (fun id => ((ctx.arena.message? id).map (·.extensions)).getD []) ++
    f.extensions

def planModule (f : FileNode) : Planner ModulePlan := do
  modify fun s => { s with usedFiles := [], constants := [] }
  let forwards ← f.imported.mapM (planForward ctx file)
  let enums ← f.enums.mapM (planEnum ctx file)
  let messages ← planMessages ctx file f.messages
  let extensionNodes := allExtensions ctx f
  let (extensions, members) ← planExtensions ctx file extensionNodes
  let registrations :=
    messages.map (fun (node, m) => .message m.name (ctx.arena.registeredName node)) ++ members ++
      f.enums.map (fun node =>
        .enum (ctx.arena.registeredName node) (ctx.arena.camelName node)) ++
      extensionNodes.map fun node => .extension (ctx.arena.extensionVariable node)
  let imports ← planImports ctx f.decl (withPositions f.decl.dependencies)
  pure
    { file := f.decl.name
      packageName := f.packageName
      importPrefix := ctx.options.importPrefix
      doc? := packageDoc? ctx f
      imports
      forwards := forwards.filterMap id
      enums := enums.filterMap id
      messages := messages.map (·.2)
      extensions
      registrations
      variableName := f.variableName
      descriptor := f.decl.serialize }

end Protobind.Planner
