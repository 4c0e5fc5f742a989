import Protobind.Compile.ModulePlanner
import Protobind.Module.WellFormed

/-!
# Requests

A request is answered as a whole: by the modules of all files to generate, or by a report and no
module at all.
-/

namespace Protobind

/-- A request to generate the modules of files. -/
structure Request where
  parameter : String := ""
  files : List FileDecl := []
  generate : List String := []

namespace Planner

def checked (plan : ModulePlan) : Planner Unit :=
  match plan.check with
  | .ok () => pure ()
  | .error e => throw e

/-- Plans the modules of files in their order. The plan of a file to generate has to be well
formed. -/
def planFiles (ctx : Context) (comments : String → Comments) :
    List NodeId → Planner (Dictionary String ModulePlan)
  | [] => pure []
  | id :: ids => do
    match ctx.arena.file? id with
    | none => planFiles ctx comments ids
    | some f => do
      write [⟨.debug, s!"Generating {f.decl.name}"⟩]
      let plan := (← planModule ctx id f).annotated comments
      if f.generate then checked plan
      let plans ← planFiles ctx comments ids
      pure (if f.generate then (f.decl.name, plan) :: plans else plans)

end Planner

def Context.plans (ctx : Context) (comments : String → Comments) :
    Except GenerateError (List ModulePlan) × List LogEntry :=
  match (Planner.planFiles ctx comments ctx.files).run {} with
  | .ok plans state =>
    let plans := Dictionary.ofPairs plans
    (.ok (ctx.filesToGenerate.filterMap fun id => plans.get? (ctx.arena.name id)),
     state.log)
  | .error e state => (.error e, state.log)

namespace Request

def context (r : Request) : Except GenerateError Context × List LogEntry :=
  let (options, log) := Options.parse r.parameter
  (options.bind fun options => Context.build options r.files r.generate, log)

/-- A request without comments. Its context is the one to plan in. -/
def bare (r : Request) : Request := { r with files := r.files.map FileDecl.bare }

/-- The comments of the file of a name. Of several files only the last can be generated. -/
def comments (r : Request) (name : String) : Comments :=
  ((r.files.reverse.find? (·.name == name)).map FileDecl.comments).getD []

def plans (r : Request) : Except GenerateError (List ModulePlan) × List LogEntry :=
  match r.bare.context with
  | (.ok ctx, log) => ((ctx.plans r.comments).1, log ++ (ctx.plans r.comments).2)
  | (.error e, log) => (.error e, log)

def process (r : Request) : Except Fatal (Option (List ModulePlan)) × List LogEntry :=
  match r.plans with
  | (.ok plans, log) => (.ok (some plans), log)
  | (.error (.reported e), log) => (.ok none, log ++ [⟨.error, e.message⟩])
  | (.error (.fatal e), log) => (.error e, log)

def failure : LogEntry := ⟨.error, "pybuf failed to generate protobuf code"⟩

def run (r : Request) : Except Fatal (Option (List ModulePlan)) × List LogEntry :=
  match r.process with
  | (.ok none, log) => (.ok none, log ++ [failure])
  | other => other

end Request

end Protobind
