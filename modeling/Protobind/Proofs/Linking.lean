import Mathlib.Data.List.Pairwise
import Protobind.Proofs.BuiltContext
import Protobind.Proofs.ModulePlans

/-!
# Linking modules

An expression for a type in a module is a name that the module defines, or a name behind the alias
of the module of a dependency; there it is bound to the definition of the type, or taken over from a
public import, and so on (`Leads`). Files are planned behind those they depend on, so the induction
goes along the order of the files, and `Tour.complete` finds the public import to go on with.
-/

namespace Protobind

open List ModulePlan Arena

variable {node file via : NodeId} {typeName name : String} {a : Arena} {aspect : Aspect}
  {ctx : Context} {entries : List LogEntry} {f g : FileNode} {p : ModulePlan} {st : Statement}

/-! ## Names of a module -/

/-- Whether a statement imports a module without a name to refer to it by. -/
def Statement.isUnused : Statement → Bool
  | .importModule localName _ => localName == "_"
  | _ => false

/-- What a statement takes over from another module: the alias of the module and a name. -/
def Statement.forwarded? : Statement → Option (String × String)
  | .forward module name => some (module, name)
  | .forwardClass module symbol => some (module, symbol.name)
  | _ => none

/-- Whether two statements bind different names. The imports of modules that are not referred to are
all bound to the same name. -/
def Statement.Apart (st st' : Statement) : Prop :=
  (st.isUnused = true ∧ st'.isUnused = true) ∨ st.bound.Disjoint st'.bound

instance : Std.Symm Statement.Apart where
  symm _ _ h := h.imp And.symm disjoint_symm

instance (st st' : Statement) : Decidable (st.Apart st') :=
  decidable_of_iff
    ((st.isUnused = true ∧ st'.isUnused = true) ∨ ∀ name ∈ st.bound, name ∉ st'.bound) Iff.rfl

namespace ModulePlan

/-- Whether a module binds no name twice. -/
def BindsOnce (p : ModulePlan) : Prop := p.statements.Pairwise Statement.Apart

instance (p : ModulePlan) : Decidable p.BindsOnce :=
  inferInstanceAs (Decidable (p.statements.Pairwise Statement.Apart))

/-- The statement that a name of a module is bound by in the end. -/
def binding? (p : ModulePlan) (name : String) : Option Statement :=
  p.statements.reverse.find? fun st => st.bound.contains name

theorem binding?_of_mem (h : p.BindsOnce) (hst : st ∈ p.statements) (hused : st.isUnused = false)
    (hname : name ∈ st.bound) : p.binding? name = some st := by
  unfold binding?
  cases hfind : p.statements.reverse.find? fun st => st.bound.contains name with
  | none =>
    have hnot := find?_eq_none.mp hfind st (mem_reverse.mpr hst)
    exact absurd (contains_iff_mem.mpr hname) hnot
  | some other =>
    have hother := mem_reverse.mp (mem_of_find?_eq_some hfind)
    have hbound := find?_some (p := fun st : Statement => st.bound.contains name) hfind
    by_contra hne
    rcases h.forall hother hst (fun he => hne (congrArg some he)) with ⟨_, hunused⟩ | hdisjoint
    · cases hused.symm.trans hunused
    · exact hdisjoint (contains_iff_mem.mp hbound) hname

end ModulePlan

namespace Planner

/-! ## The modules of all files -/

/-- Plans the modules of files in their order, whether they are to be generated or not. -/
def planEach (ctx : Context) : List NodeId → Planner (List (NodeId × ModulePlan))
  | [] => pure []
  | id :: ids => do
    match ctx.arena.file? id with
    | none => planEach ctx ids
    | some f => do
      write [⟨.debug, s!"Generating {f.decl.name}"⟩]
      let plan ← planModule ctx id f
      let plans ← planEach ctx ids
      pure ((id, plan) :: plans)

theorem planEach_of_planFiles {comments : String → Comments} : ∀ {ids : List NodeId}
    {s s' : PlanState} {plans : Dictionary String ModulePlan},
    planFiles ctx comments ids s = .ok plans s' →
      ∃ modules, planEach ctx ids s = .ok modules s' ∧
        ∀ q ∈ plans, ∃ id p, (id, p) ∈ modules ∧ q.2 = p.annotated comments
  | [], s, s', plans, h => by
    obtain ⟨rfl, rfl⟩ := pure_ok.mp h
    exact ⟨[], rfl, forall_mem_nil _⟩
  | id :: ids, s, s', plans, h => by
    unfold planEach
    cases hf : ctx.arena.file? id with
    | none =>
      simp only [planFiles, hf] at h
      exact planEach_of_planFiles h
    | some f =>
      obtain ⟨t, plan, t', rest, hwrite, hplan, hrest, rfl⟩ := planFiles_cons hf h
      obtain ⟨modules, hmodules, hall⟩ := planEach_of_planFiles hrest
      refine ⟨(id, plan) :: modules, bind_ok.mpr ⟨_, t, hwrite, bind_ok.mpr ⟨plan, t', hplan,
        bind_ok.mpr ⟨modules, s', hmodules, rfl⟩⟩⟩, fun q hq => ?_⟩
      have hcases : q = (f.decl.name, plan.annotated comments) ∨ q ∈ rest := by
        split at hq
        · exact mem_cons.mp hq
        · exact .inr hq
      rcases hcases with rfl | hq
      · exact ⟨id, plan, mem_cons_self, rfl⟩
      · obtain ⟨other, p, hp, heq⟩ := hall q hq
        exact ⟨other, p, mem_cons_of_mem _ hp, heq⟩

theorem planEach_cons {id : NodeId} {ids : List NodeId} {s s' : PlanState}
    {modules : List (NodeId × ModulePlan)} (hf : ctx.arena.file? id = some f)
    (h : planEach ctx (id :: ids) s = .ok modules s') : ∃ t plan t' rest,
      (∀ other node, t.offered other node = s.offered other node) ∧
      planModule ctx id f t = .ok plan t' ∧ planEach ctx ids t' = .ok rest s' ∧
      modules = (id, plan) :: rest := by
  simp only [planEach, hf] at h
  obtain ⟨_, t, hwrite, h⟩ := bind_ok.mp h
  obtain ⟨plan, t', hplan, h⟩ := bind_ok.mp h
  obtain ⟨rest, _, hrest, h⟩ := bind_ok.mp h
  obtain ⟨rfl, rfl⟩ := pure_ok.mp h
  refine ⟨t, plan, t', rest, fun _ _ => ?_, hplan, hrest, rfl⟩
  cases hwrite
  rfl

/-- Whether the module of a file is planned among those of others: what these offered then is what they
offer in the end, unless they are planned later. -/
def PlannedAmong (ctx : Context) (modules : List (NodeId × ModulePlan)) (s : PlanState) (id : NodeId)
    (after : List NodeId) (f : FileNode) : Prop :=
  ∃ t t' used p, Planned ctx id f t t' used p ∧ (id, p) ∈ modules ∧
    (∀ other node, other ∉ id :: after → t.offered other node = s.offered other node) ∧
    ∀ node, t'.offered id node = s.offered id node

theorem planned_planEach : ∀ {ids : List NodeId} {s s' : PlanState}
    {modules : List (NodeId × ModulePlan)}, ids.Nodup →
      (∀ id ∈ ids, ∃ f, ctx.arena.file? id = some f) → planEach ctx ids s = .ok modules s' →
      modules.map (·.1) = ids ∧
      (∀ other node, other ∉ ids → s'.offered other node = s.offered other node) ∧
      ∀ before id after f, ids = before ++ id :: after → ctx.arena.file? id = some f →
        PlannedAmong ctx modules s' id after f
  | [], s, s', modules, _, _, h => by
    obtain ⟨rfl, rfl⟩ := pure_ok.mp h
    exact ⟨rfl, fun _ _ _ => rfl, fun _ _ _ _ hsplit => by simp at hsplit⟩
  | first :: ids, s, s', modules, honce, hfiles, h => by
    obtain ⟨hlast, honce⟩ := nodup_cons.mp honce
    obtain ⟨⟨g, hg⟩, hfiles⟩ := forall_mem_cons.mp hfiles
    obtain ⟨t, plan, t', rest, hsame, hplan, hrest, rfl⟩ := planEach_cons hg h
    obtain ⟨used, hplanned⟩ := planned_planModule hplan
    obtain ⟨hnames, hothers, hall⟩ := planned_planEach honce hfiles hrest
    have hstays (other node : NodeId) (hother : other ∉ first :: ids) :
        s'.offered other node = t.offered other node := by
      rw [mem_cons, not_or] at hother
      exact (hothers other node hother.2).trans (hplanned.others other node hother.1)
    refine ⟨by rw [map_cons, hnames], fun other node hother => (hstays other node hother).trans
      (hsame other node), fun before id after f hsplit hf => ?_⟩
    cases before with
    | nil =>
      cases hsplit
      cases hf.symm.trans hg
      exact ⟨t, t', used, plan, hplanned, mem_cons_self, fun other node hother =>
        (hstays other node hother).symm, fun node => (hothers _ node hlast).symm⟩
    | cons _ before =>
      obtain ⟨u, u', used, p, hplanned, hp, hrest⟩ := hall before id after f (cons.inj hsplit).2 hf
      exact ⟨u, u', used, p, hplanned, mem_cons_of_mem _ hp, hrest⟩

end Planner

/-- The plans of the modules of all files, whether they are to be generated or not. -/
def Context.modules (ctx : Context) : Except GenerateError (List (NodeId × ModulePlan)) :=
  match (Planner.planEach ctx ctx.files).run {} with
  | .ok modules _ => .ok modules
  | .error e _ => .error e

theorem planEach_of_modules {modules : List (NodeId × ModulePlan)} (h : ctx.modules = .ok modules) :
    ∃ s, Planner.planEach ctx ctx.files {} = .ok modules s := by
  unfold Context.modules at h
  split at h
  · rename_i s hrun
    cases h
    exact ⟨s, hrun⟩
  · cases h

theorem plans_subset_modules {modules : List (NodeId × ModulePlan)} {s : PlanState}
    (h : Planner.planEach ctx ctx.files {} = .ok modules s) {comments : String → Comments}
    {plans : List ModulePlan} (hplans : (ctx.plans comments).1 = .ok plans) :
    ∀ p ∈ plans, ∃ file q, (file, q) ∈ modules ∧ p = q.annotated comments := by
  intro p hp
  unfold Context.plans at hplans
  split at hplans
  · rename_i found _ hrun
    cases hplans
    obtain ⟨modules', hmodules, hall⟩ := Planner.planEach_of_planFiles hrun
    cases h.symm.trans hmodules
    obtain ⟨_, _, hget⟩ := mem_filterMap.mp hp
    exact hall _ (Dictionary.mem_of_get?_ofPairs hget)
  · cases hplans

/-! ## Definitions -/

open Planner

/-- Whether a file has a dependency of a name that is not weak. -/
def FileDecl.Loads (f : FileDecl) (name : String) : Prop :=
  ∃ i, f.dependencies[i]? = some name ∧ f.isWeak i = false

namespace Context

variable (ctx : Context)

/-- Whether a statement defines a type or a constant of it. The positions tell apart what a file
declares. -/
def Defines (node : NodeId) : Aspect → Statement → Prop
  | .class, .messageClass m => (ctx.arena.message? node).isSome = true ∧
      m.name = ctx.arena.camelName node ∧ m.indexes = ctx.arena.indexes node
  | .class, .enumClass e => (ctx.arena.enum? node).isSome = true ∧
      e.name = ctx.arena.camelName node ∧ e.indexes = ctx.arena.indexes node
  | .constant label, .enumConstant className c => (ctx.arena.enum? node).isSome = true ∧
      className = ctx.arena.camelName node ∧ c.label = label
  | _, _ => False

variable (modules : List (NodeId × ModulePlan))

/-- Whether a module imports the module of a file under its alias, and refers to nothing else by
this alias. -/
def Imported (p : ModulePlan) (g : FileNode) : Prop :=
  p.binding? g.packageName = some (.importModule g.packageName g.modulePath)

/-- Whether the module of a file binds the name of a type, or of a constant of it, to its definition:
directly, or by taking the name over from a public import again and again. -/
inductive Leads (node : NodeId) (aspect : Aspect) : NodeId → Prop where
  | own {p : ModulePlan} {st : Statement} (hp : (ctx.arena.fileOf node, p) ∈ modules)
      (hst : p.binding? (nameOf ctx.arena node aspect) = some st)
      (hdefines : ctx.Defines node aspect st) : Leads node aspect (ctx.arena.fileOf node)
  | forward {file via : NodeId} {p : ModulePlan} {f g : FileNode} {st : Statement}
      (hp : (file, p) ∈ modules) (hf : ctx.arena.file? file = some f)
      (hg : ctx.arena.file? via = some g) (hpublic : PublicStep ctx.arena ctx.files file via)
      (hst : p.binding? (nameOf ctx.arena node aspect) = some st)
      (hforward : st.forwarded? = some (g.packageName, nameOf ctx.arena node aspect))
      (himported : f.decl.Loads g.decl.name → Imported p g)
      (hnext : Leads node aspect via) : Leads node aspect file

/-- Whether the module of a file gets a symbol from that of another one: the two are the same, or the
module takes over all that the symbol stands for from a public import that gets it. -/
inductive PassedOn (symbol : Symbol) (home : NodeId) : NodeId → Prop where
  | own : PassedOn symbol home home
  | forward {file via : NodeId} {p : ModulePlan} {f g : FileNode} (hp : (file, p) ∈ modules)
      (hf : ctx.arena.file? file = some f) (hg : ctx.arena.file? via = some g)
      (hpublic : PublicStep ctx.arena ctx.files file via)
      (hsymbol : symbol.statements g.packageName ⊆ p.statements)
      (himported : p.BindsOnce → f.decl.Loads g.decl.name → Imported p g)
      (hnext : PassedOn symbol home via) : PassedOn symbol home file

/-- Whether an expression in the module of a file means a type or a constant of it: it is a name that
the module defines, or a name of the module of a file that the file depends on. -/
inductive Links (file : NodeId) (f : FileNode) (p : ModulePlan) (node : NodeId) (aspect : Aspect) :
    Reference → Prop where
  | own {st : Statement} (hfile : ctx.arena.fileOf node = file)
      (hst : p.binding? (nameOf ctx.arena node aspect) = some st)
      (hdefines : ctx.Defines node aspect st) :
      Links file f p node aspect { module? := none, name := nameOf ctx.arena node aspect }
  | other {d : NodeId} {g : FileNode} (hg : ctx.arena.file? d = some g)
      (hdepends : g.decl.name ∈ f.decl.dependencies) (himported : Imported p g)
      (hleads : ctx.Leads modules node aspect d) :
      Links file f p node aspect
        { module? := some g.packageName, name := nameOf ctx.arena node aspect }

/-- Whether a type name means a node to a file without a warning, through a dependency that is not
weak, and whether the type has a class that other modules may use. -/
structure Resolves (file : NodeId) (f : FileNode) (typeName : String) (node : NodeId) : Prop where
  found : ctx.resolve typeName file = .ok (node, [])
  loads : ctx.arena.fileOf node ≠ file → f.decl.Loads (ctx.arena.name (ctx.arena.fileOf node))
  hasClass : ∀ m, ctx.arena.message? (ctx.arena.target node) = some m →
    m.isGroup = false ∧ m.decl.isMapEntry = false

end Context

/-! ## Statements of a planned module -/

theorem ModulePlan.mem_statements : st ∈ p.statements ↔
    (∃ name ∈ supportModules, st = .support name) ∨
    (∃ i ∈ p.imports, st ∈ i.statements) ∨ st = .package p.packageName ∨
    (∃ q ∈ p.forwards, ∃ symbol ∈ q.symbols, st ∈ symbol.statements q.module) ∨
    (∃ e ∈ p.enums, st ∈ e.statements) ∨ (∃ m ∈ p.messages, st ∈ m.statements) ∨
    (∃ e ∈ p.extensions, st = .extension e) ∨ (∃ entry ∈ p.registrations, st = .register entry) ∨
    st = .descriptor p.variableName p.descriptor := by
  simp only [statements, mem_append, mem_map, mem_flatMap, mem_singleton, eq_comm, or_assoc]

theorem Symbol.forwarded_of_mem {symbol : Symbol} (h : name ∈ symbol.names) (module : String) :
    ∃ st ∈ symbol.statements module, st.forwarded? = some (module, name) ∧
      name ∈ st.bound ∧ st.isUnused = false := by
  cases symbol with
  | message symbol =>
    cases mem_singleton.mp h
    exact ⟨_, mem_singleton.mpr rfl, rfl, mem_singleton.mpr rfl, rfl⟩
  | const other | enum other =>
    exact ⟨_, mem_map.mpr ⟨name, h, rfl⟩, rfl, mem_singleton.mpr rfl, rfl⟩

namespace Planner

variable {s s' : PlanState} {used : List String}

/-- Whether symbols make a name visible. -/
def Shows (symbols : List Symbol) (name : String) : Prop := ∃ symbol ∈ symbols, name ∈ symbol.names

/-- A module defines the types of its file with their constants, and offers them. -/
theorem Planned.define (h : Planned ctx file f s s' used p) (hhouses : ctx.arena.Houses file f)
    (hnode : node ∈ f.messages ++ f.enums) (haspect : HasAspect ctx.arena node aspect)
    (hclass : ∀ m, ctx.arena.message? node = some m → m.isGroup = false ∧ m.decl.isMapEntry = false) :
    Shows (s'.offered file node) (nameOf ctx.arena node aspect) ∧
      ∃ st ∈ p.statements, ctx.Defines node aspect st ∧ nameOf ctx.arena node aspect ∈ st.bound ∧
        st.isUnused = false := by
  rcases mem_append.mp hnode with hnode | hnode
  · obtain ⟨m, hm⟩ := (hhouses.messages node hnode).message
    obtain ⟨hgroup, hentry⟩ := hclass m hm
    obtain ⟨c, hc, hname, hindexes, hoffered⟩ := h.messages node hnode m hm hentry
    obtain ⟨symbol, hsymbol, hsame⟩ := hoffered hgroup
    cases aspect with
    | «class» =>
      refine ⟨⟨_, hsymbol, mem_singleton.mpr (hsame.trans hname).symm⟩, .messageClass c, ?_,
        ⟨by rw [hm]; rfl, hname, hindexes⟩, mem_singleton.mpr hname.symm, rfl⟩
      exact mem_statements.mpr <| .inr <| .inr <| .inr <| .inr <| .inr <| .inl
        ⟨c, hc, by simp [MessagePlan.statements]⟩
    | constant label =>
      obtain ⟨decl, hdecl, _⟩ := haspect
      rw [target_of_message hm] at hdecl
      obtain ⟨index, hkind⟩ := enum?_eq_some.mp hdecl
      cases (message?_eq_some.mp hm).symm.trans hkind
  · obtain ⟨decl, hdecl⟩ := (hhouses.enums node hnode).enum
    obtain ⟨e, he, hplanned⟩ := h.enums node hnode decl hdecl
    have hmem {st : Statement} (hst : st ∈ e.statements) : st ∈ p.statements :=
      mem_statements.mpr <| .inr <| .inr <| .inr <| .inr <| .inl ⟨e, he, hst⟩
    have hsome : (ctx.arena.enum? node).isSome = true := by
      rw [hdecl]
      rfl
    cases aspect with
    | «class» =>
      refine ⟨⟨_, hplanned.classOffered, mem_cons_self⟩, .enumClass e, hmem ?_,
        ⟨hsome, hplanned.name, hplanned.indexes⟩, mem_singleton.mpr hplanned.name.symm, rfl⟩
      simp [EnumPlan.statements]
    | constant label =>
      obtain ⟨decl', hdecl', v, hv, rfl⟩ := haspect
      rw [target_of_enum hdecl] at hdecl'
      cases hdecl.symm.trans hdecl'
      obtain ⟨c, hc, hname, hlabel⟩ := hplanned.constants v hv
      rw [nameOf, target_of_enum hdecl]
      refine ⟨⟨_, hplanned.constantsOffered v hv, mem_singleton.mpr rfl⟩,
        .enumConstant e.name c, hmem ?_, ⟨hsome, hplanned.name, hlabel⟩,
        mem_singleton.mpr hname.symm, rfl⟩
      simp [EnumPlan.statements, hc]

/-- A module takes over what its public imports offer, and offers it itself. -/
theorem Planned.forward (h : Planned ctx file f s s' used p) {target : NodeId} {symbol : Symbol}
    (hnode : node ∈ f.imported) (hkind : ctx.arena.kind? node = some (.imported target via))
    (hvia : via ≠ file) (hsymbol : symbol ∈ s.offered via target) :
    symbol ∈ s'.offered file target ∧ ctx.arena.name via ∈ used ∧
      symbol.statements (ctx.packageOf via) ⊆ p.statements := by
  obtain ⟨hoffered, ⟨q, hq, hmodule, hmem⟩, hused⟩ :=
    h.forwards node hnode target via hkind hvia symbol hsymbol
  refine ⟨hoffered, hused, fun st hst => ?_⟩
  exact mem_statements.mpr <| .inr <| .inr <| .inr <| .inl ⟨q, hq, symbol, hmem, hmodule ▸ hst⟩

/-- A module imports the modules of the files that it refers to, under their aliases. -/
theorem Planned.imported (h : Planned ctx file f s s' used p) (honce : p.BindsOnce)
    (hcoherent : ctx.Coherent) {d : NodeId} (hd : d ∈ ctx.files) (hg : ctx.arena.file? d = some g)
    (hused : g.decl.name ∈ used) (hloads : f.decl.Loads g.decl.name) : Context.Imported p g := by
  obtain ⟨i, hi, hweak⟩ := hloads
  have hfile : ctx.fileNamed g.decl.name = .ok d := by
    refine mapError_eq_ok.mp (Context.fileIn_eq_ok.mpr ?_)
    rw [← name_of_file hg]
    exact Context.fileIn?_of_mem hcoherent.names hd
  have himport := h.imports i _ d g hi hweak hfile hg hused
  refine binding?_of_mem honce ?_ ?_ (mem_singleton.mpr rfl)
  · exact mem_statements.mpr <| .inr <| .inl ⟨_, himport, mem_singleton.mpr rfl⟩
  · have hne : g.packageName ≠ "_" := fun he =>
      hcoherent.packages d g hd hg (he ▸ by decide +kernel)
    simpa [Statement.isUnused] using hne

end Planner

/-! ## Chains of public imports -/

theorem mem_of_indexedAll {α : Type} {items : List α} : ∀ {is : List Int} {found : List α},
    indexedAll items is = .ok found → found ⊆ items
  | [], found, h => by
    cases h
    exact nil_subset _
  | i :: is, found, h => by
    unfold indexedAll at h
    cases hi : indexed? items i with
    | none =>
      rw [hi] at h
      cases h
    | some item =>
      rw [hi] at h
      obtain ⟨rest, hrest, h⟩ := bind_eq_ok.mp h
      cases h
      refine cons_subset.mpr ⟨?_, mem_of_indexedAll hrest⟩
      obtain ⟨_, _, hget⟩ := Option.bind_eq_some_iff.mp hi
      exact mem_of_getElem? hget

namespace Context

theorem Ordered.publicStep (h : ctx.Ordered) {before after : List NodeId}
    (hfiles : ctx.files = before ++ file :: after)
    (hstep : PublicStep ctx.arena ctx.files file via) : via ∈ before := by
  obtain ⟨f, names, name, hf, hnames, hname, hvia⟩ := hstep
  obtain ⟨d, hd, hfile⟩ := h before file after hfiles f hf name (mem_of_indexedAll hnames hname)
  cases hvia.symm.trans hfile
  exact hd

/-- The files that a file reaches by public imports, itself included. -/
abbrev Reaches (ctx : Context) : NodeId → NodeId → Prop :=
  Relation.ReflTransGen (PublicStep ctx.arena ctx.files)

section

variable {modules : List (NodeId × ModulePlan)} {s : PlanState} (hcoherent : ctx.Coherent)
  (hordered : ctx.Ordered) (hplan : planEach ctx ctx.files {} = .ok modules s)
include hcoherent hplan

theorem planned_files : modules.map (·.1) = ctx.files ∧
    ∀ before id after f, ctx.files = before ++ id :: after → ctx.arena.file? id = some f →
      PlannedAmong ctx modules s id after f :=
  (planned_planEach hcoherent.nodup (fun id hid => (hcoherent.houses id hid).imp fun _ h => h.1)
    hplan).imp id And.right

/-- The module of a file as it is planned among those of all files. -/
theorem planned_of_mem (hfile : file ∈ ctx.files) (hf : ctx.arena.file? file = some f) :
    ∃ t t' used p, Planned ctx file f t t' used p ∧ (file, p) ∈ modules ∧
      ∀ node, t'.offered file node = s.offered file node := by
  obtain ⟨before, after, hfiles⟩ := append_of_mem hfile
  obtain ⟨t, t', used, p, hplanned, hp, _, hown⟩ :=
    (planned_files hcoherent hplan).2 before file after f hfiles hf
  exact ⟨t, t', used, p, hplanned, hp, hown⟩

include hordered

/-- What the module of a file offers for a type that the file declares is passed on to the modules of
all files that reach it by public imports. -/
theorem passedOn_of_reaches {x : NodeId} {symbol : Symbol} (hg : ctx.arena.file? x = some g)
    (hnode : node ∈ g.messages ++ g.enums) (hsymbol : symbol ∈ s.offered x node) :
    ∀ (before : List NodeId) (file : NodeId) (after : List NodeId),
      ctx.files = before ++ file :: after → ctx.Reaches file x →
      symbol ∈ s.offered file node ∧ ctx.PassedOn modules symbol x file := by
  -- The induction is on the number of files in front of the file.
  intro before
  induction hlength : before.length using Nat.strongRecOn generalizing before with
  | _ n ih =>
    intro file after hfiles hreaches
    rcases hreaches.cases_head with rfl | ⟨_, hstep, hreaches⟩
    · exact ⟨hsymbol, .own⟩
    · have hfile : file ∈ ctx.files := by
        rw [hfiles]
        exact mem_append_right _ mem_cons_self
      obtain ⟨tour, htour, f, hf, hnodes⟩ := hcoherent.tours file hfile
      obtain ⟨t, t', used, p, hplanned, hp, hothers, hown⟩ :=
        (planned_files hcoherent hplan).2 before file after f hfiles hf
      obtain ⟨via, hvisit⟩ := htour.complete _ x hstep hreaches
      obtain ⟨hstep, hreaches⟩ := htour.sound _ hvisit
      have hbefore := hordered.publicStep hfiles hstep
      obtain ⟨b, b', rfl⟩ := append_of_mem hbefore
      have hfiles' : ctx.files = b ++ via :: (b' ++ file :: after) := by
        rw [hfiles, append_assoc, cons_append]
      obtain ⟨hoffered, hpassed⟩ :=
        ih b.length (by rw [← hlength]; simp) b rfl via _ hfiles' hreaches
      have hvia : via ∉ file :: after := fun hmem =>
        (nodup_append.mp (hfiles ▸ hcoherent.nodup)).2.2 via hbefore via hmem rfl
      rw [← hothers via node hvia] at hoffered
      have hpair : (node, via) ∈ tourPairs ctx.arena tour := by
        refine mem_flatMap.mpr ⟨_, hvisit, mem_map.mpr ⟨node, ?_, rfl⟩⟩
        simp only [declaredBy, hg, Option.map_some, Option.getD_some]
        exact mem_append_left _ hnode
      obtain ⟨i, hi, _, hkind⟩ := exists_of_forall₂ hnodes.flip hpair
      obtain ⟨hoffered, hused, hstatements⟩ := hplanned.forward hi hkind
        (fun he => hvia (he ▸ mem_cons_self)) hoffered
      obtain ⟨g', hg', _⟩ := hcoherent.houses via hstep.mem
      rw [packageOf, hg'] at hstatements
      refine ⟨hown node ▸ hoffered, .forward hp hf hg' hstep hstatements
        (fun honce hloads => ?_) hpassed⟩
      rw [name_of_file hg'] at hused
      exact hplanned.imported honce hcoherent hstep.mem hg' hused hloads

/-- The module of a file leads to the types that the file declares or makes visible. -/
theorem leads_of_reaches (honce : ∀ q ∈ modules, q.2.BindsOnce) {x : NodeId}
    (hg : ctx.arena.file? x = some g)
    (hnode : node ∈ g.messages ++ g.enums) (haspect : HasAspect ctx.arena node aspect)
    (hclass : ∀ m, ctx.arena.message? node = some m → m.isGroup = false ∧ m.decl.isMapEntry = false)
    (hfile : file ∈ ctx.files) (hreaches : ctx.Reaches file x) :
    ctx.Leads modules node aspect file := by
  have hx : x ∈ ctx.files := by
    rcases hreaches.cases_tail with rfl | ⟨_, _, hstep⟩
    · exact hfile
    · exact hstep.mem
  obtain ⟨t, t', used, p, hplanned, hp, hown⟩ := planned_of_mem hcoherent hplan hx hg
  obtain ⟨_, hg', hhouses⟩ := hcoherent.houses x hx
  cases hg.symm.trans hg'
  obtain ⟨⟨symbol, hsymbol, hshows⟩, st, hst, hdefines, hname, hused⟩ :=
    hplanned.define hhouses hnode haspect hclass
  obtain ⟨b, b', hfiles'⟩ := append_of_mem hfile
  have hpassed := (passedOn_of_reaches hcoherent hordered hplan hg hnode (hown node ▸ hsymbol)
    b file b' hfiles' hreaches).2
  obtain rfl := hhouses.fileOf (mem_append_left _ hnode)
  clear hfile hreaches hfiles'
  induction hpassed with
  | own => exact .own hp (binding?_of_mem (honce (_, p) hp) hst hused hname) hdefines
  | @forward file _ q _ g hq hf hg hpublic hsymbol himported _ ih =>
    obtain ⟨st, hst, hforwarded, hname, hproper⟩ := Symbol.forwarded_of_mem hshows g.packageName
    have hbinding := binding?_of_mem (honce (file, q) hq) (hsymbol hst) hproper hname
    exact .forward hq hf hg hpublic hbinding hforwarded (himported (honce (file, q) hq)) ih

end

/-! ## Type names -/

theorem target_of_lookup (hcoherent : ctx.Coherent) (h : ctx.lookup typeName = .ok node) :
    ∃ x ∈ ctx.files, ∃ g, ctx.arena.file? x = some g ∧
      node ∈ g.messages ++ g.enums ∧ ctx.arena.fileOf node = x ∧ ctx.arena.target node = node := by
  obtain ⟨x, hx, g, hg, hnode⟩ := hcoherent.types typeName node h
  obtain ⟨g', hg', hhouses⟩ := hcoherent.houses x hx
  cases hg.symm.trans hg'
  refine ⟨x, hx, g, hg, hnode, hhouses.fileOf (mem_append_left _ hnode), ?_⟩
  rcases mem_append.mp hnode with hnode | hnode
  · obtain ⟨m, hm⟩ := (hhouses.messages node hnode).message
    exact target_of_message hm
  · obtain ⟨decl, hdecl⟩ := (hhouses.enums node hnode).enum
    exact target_of_enum hdecl

theorem visibleIn?_eq_some {definition : NodeId} : ∀ {names : List String},
    ctx.visibleIn? definition names = .ok (some node) → ∃ name ∈ names, ∃ d f,
      fileIn? ctx.arena ctx.files name = some d ∧ ctx.arena.file? d = some f ∧
        node ∈ f.imported ∧ ctx.arena.target node = definition
  | [], h => by cases h
  | name :: names, h => by
    obtain ⟨d, hd, h⟩ := bind_eq_ok.mp h
    have hd := fileIn_eq_ok.mp (mapError_eq_ok.mpr hd)
    dsimp only at h
    split at h
    · rename_i i hfind
      cases h
      have hmem := mem_of_find?_eq_some hfind
      cases hf : ctx.arena.file? d with
      | none => simp [hf] at hmem
      | some f =>
        rw [hf] at hmem
        exact ⟨name, mem_cons_self, d, f, hd, hf, hmem, by simpa using find?_some hfind⟩
    · obtain ⟨other, hother, hrest⟩ := visibleIn?_eq_some h
      exact ⟨other, mem_cons_of_mem _ hother, hrest⟩

theorem resolve_cases (h : ctx.resolve typeName file = .ok (node, entries)) : ∃ definition,
      ctx.lookup typeName = .ok definition ∧
      ((node = definition ∧ (entries = [] → ctx.isDirect node file = true)) ∨
        ctx.visibleIn? definition (ctx.arena.fileDecl file).dependencies = .ok (some node)) := by
  obtain ⟨resolution, hfind, h⟩ := bind_eq_ok.mp h
  obtain ⟨definition, hlookup, hfind⟩ := bind_eq_ok.mp hfind
  refine ⟨definition, hlookup, ?_⟩
  split at hfind
  · rename_i hdirect
    cases hfind
    cases h
    exact .inl ⟨rfl, fun _ => hdirect⟩
  · obtain ⟨found?, hvisible, hfind⟩ := bind_eq_ok.mp hfind
    cases found? with
    | some i =>
      cases hfind
      cases h
      exact .inr hvisible
    | none =>
      cases hfind
      dsimp only at h
      split at h
      · cases h
      · cases h
        exact .inl ⟨rfl, fun hnone => by cases hnone⟩

theorem nameOf_target (h : a.target (a.target node) = a.target node) (aspect : Aspect) :
    nameOf a (a.target node) aspect = nameOf a node aspect := by
  cases aspect <;> simp only [nameOf, camelName, typeName, h]

theorem fileDecl_eq (hf : a.file? file = some f) (hnode : a.fileOf node = file) :
    a.fileDecl node = f.decl := by
  rw [fileDecl, hnode, hf]
  rfl

/-- The file whose module provides what a type name means: it is the file at hand or one that the
file depends on, and it declares the type or makes it visible. -/
theorem provider_of_resolve (hcoherent : ctx.Coherent) (hordered : ctx.Ordered)
    (hfile : file ∈ ctx.files) (hf : ctx.arena.file? file = some f)
    (h : ctx.resolve typeName file = .ok (node, entries)) :
    ctx.lookup typeName = .ok (ctx.arena.target node) ∧ (entries = [] → ∃ x g,
      ctx.arena.file? x = some g ∧ ctx.arena.target node ∈ g.messages ++ g.enums ∧
      ctx.Reaches (ctx.arena.fileOf node) x ∧ ctx.arena.fileOf node ∈ ctx.files ∧
      ((ctx.arena.fileOf node = file ∧ x = file) ∨ ctx.arena.fileOf node ≠ file ∧
        ctx.arena.name (ctx.arena.fileOf node) ∈ f.decl.dependencies)) := by
  obtain ⟨f', hf', hhouses⟩ := hcoherent.houses file hfile
  cases hf.symm.trans hf'
  obtain ⟨definition, hlookup, hcases⟩ := resolve_cases h
  obtain ⟨x, hx, g, hg, hnode, hfileOf, htarget⟩ := target_of_lookup hcoherent hlookup
  rcases hcases with ⟨rfl, hdirect⟩ | hvisible
  · rw [htarget]
    refine ⟨hlookup, fun hnone => ⟨x, g, hg, hnode, ?_, ?_, ?_⟩⟩
    · rw [hfileOf]
    · rwa [hfileOf]
    · have hdirect := hdirect hnone
      rw [isDirect, fileDecl_eq hg hfileOf, fileDecl_eq hf hhouses.self] at hdirect
      rw [hfileOf, name_of_file hg]
      by_cases hsame : x = file
      · exact .inl ⟨hsame, hsame⟩
      · refine .inr ⟨hsame, ?_⟩
        rcases Bool.or_eq_true _ _ ▸ hdirect with hname | hdepends
        · refine absurd (inj_on_of_nodup_map hcoherent.names hx hfile ?_) hsame
          rw [name_of_file hg, name_of_file hf]
          exact eq_of_beq hname
        · exact contains_iff_mem.mp hdepends
  · rw [fileDecl_eq hf hhouses.self] at hvisible
    obtain ⟨name, hname, d, f', hd, hf', himported, rfl⟩ := visibleIn?_eq_some hvisible
    obtain ⟨hmem, hdname⟩ := mem_of_fileIn? hd
    obtain ⟨tour, htour, f'', hf'', hnodes⟩ := hcoherent.tours d hmem
    cases hf'.symm.trans hf''
    obtain ⟨⟨target, via⟩, hpair, hfileOf', hkind⟩ := exists_of_forall₂ hnodes himported
    obtain ⟨⟨y, _⟩, hvisit, hcredited⟩ := mem_flatMap.mp hpair
    obtain ⟨_, hdeclared, hsame⟩ := mem_map.mp hcredited
    cases hsame
    obtain ⟨hstep, hreaches⟩ := htour.sound _ hvisit
    rw [target_of_imported hkind] at hlookup hnode hfileOf ⊢
    have hy : y = x := by
      obtain ⟨g', hg', hhouses'⟩ := hcoherent.houses y (htour.mem hvisit)
      rw [declaredBy, hg'] at hdeclared
      exact (hhouses'.fileOf hdeclared).symm.trans hfileOf
    refine ⟨hlookup, fun _ => ⟨x, g, hg, hnode, ?_, ?_, .inr ⟨?_, ?_⟩⟩⟩
    · rw [hfileOf', ← hy]
      exact .head hstep hreaches
    · rwa [hfileOf']
    · rw [hfileOf']
      obtain ⟨before, after, hfiles⟩ := append_of_mem hfile
      obtain ⟨d', hd', hsame⟩ := hordered before file after hfiles f hf name hname
      cases hd.symm.trans hsame
      exact (nodup_append.mp (hfiles ▸ hcoherent.nodup)).2.2 d hd' file mem_cons_self
    · rw [hfileOf', hdname]
      exact hname

/-- What is promised of an expression in the module of a file. -/
def Linked (ctx : Context) (modules : List (NodeId × ModulePlan)) (file : NodeId) (f : FileNode)
    (p : ModulePlan) : Knowledge := fun typeName node aspect r =>
  (∃ entries, ctx.resolve typeName file = .ok (node, entries)) ∧
    ctx.lookup typeName = .ok (ctx.arena.target node) ∧
    (ctx.Resolves file f typeName node → ctx.Links modules file f p (ctx.arena.target node) aspect r)

section

variable {modules : List (NodeId × ModulePlan)} {s : PlanState} (hcoherent : ctx.Coherent)
  (hordered : ctx.Ordered) (hplan : planEach ctx ctx.files {} = .ok modules s)
  (honce : ∀ q ∈ modules, q.2.BindsOnce)
include hcoherent hordered hplan honce

theorem linked_of_refers {t t' : PlanState} {used : List String} (hfile : file ∈ ctx.files)
    (hf : ctx.arena.file? file = some f) (hp : (file, p) ∈ modules)
    (hplanned : Planned ctx file f t t' used p) {r : Reference}
    (hr : Refers ctx file used typeName node aspect r) :
    ctx.Linked modules file f p typeName node aspect r := by
  obtain ⟨⟨⟨entries, hresolve⟩, hused⟩, haspect, rfl⟩ := hr
  obtain ⟨hlookup, hprovider⟩ := provider_of_resolve hcoherent hordered hfile hf hresolve
  refine ⟨⟨entries, hresolve⟩, hlookup, fun hclear => ?_⟩
  cases hresolve.symm.trans hclear.found
  have hbinds : p.BindsOnce := honce (file, p) hp
  obtain ⟨x, g, hg, hnode, hreaches, hmem, hcases⟩ := hprovider rfl
  obtain ⟨_, _, _, _, _, _, htarget⟩ := target_of_lookup hcoherent hlookup
  have haspect : HasAspect ctx.arena (ctx.arena.target node) aspect := by
    cases aspect with
    | «class» => trivial
    | constant label =>
      rw [HasAspect, htarget]
      exact haspect
  rw [expression, moduleOf?, ← nameOf_target htarget]
  rcases hcases with ⟨hown, rfl⟩ | ⟨hother, hdepends⟩
  · rw [if_pos hown]
    cases hf.symm.trans hg
    obtain ⟨f', hf', hhouses⟩ := hcoherent.houses x hfile
    cases hf.symm.trans hf'
    obtain ⟨_, st, hst, hdefines, hname, hproper⟩ :=
      hplanned.define hhouses hnode haspect hclear.hasClass
    exact .own (hhouses.fileOf (mem_append_left _ hnode))
      (binding?_of_mem hbinds hst hproper hname) hdefines
  · obtain ⟨d, hd, _⟩ := hcoherent.houses _ hmem
    have hname := name_of_file hd
    rw [if_neg hother, hd, Option.map_some]
    have hleads := leads_of_reaches hcoherent hordered hplan honce hg hnode haspect
      hclear.hasClass hmem hreaches
    refine .other hd (hname ▸ hdepends) ?_ hleads
    exact hplanned.imported hbinds hcoherent hmem hd (hname ▸ hused hother)
      (hname ▸ hclear.loads hother)

end

/-- A file with an enum, a file that imports it publicly, and a file that refers to the enum through
the other one. -/
def relayedEnum : List FileDecl :=
  [{ name? := some "a.proto", package? := some "a",
     enums := [{ name? := some "Kind", values := [{ name? := some "ON", number? := some 0 }] }] },
   { name? := some "b.proto", package? := some "b", dependencies := ["a.proto"],
     publicDependencies := [0] },
   { name? := some "c.proto", package? := some "c", dependencies := ["b.proto"],
     messages := [{ name? := some "M", fields := [
       { name? := some "kind", number? := some 1, kind? := some .enum,
         typeName? := some ".a.Kind" }] }] }]

theorem dependencyOrder_relayedEnum : DependencyOrder relayedEnum := by
  intro before decl after h
  rcases before with _ | ⟨a, _ | ⟨b, _ | ⟨c, _⟩⟩⟩
  · cases h
    exact forall_mem_nil _
  · cases h
    decide
  · cases h
    decide
  · cases (append_eq_nil_iff.mp (List.cons.inj (List.cons.inj (List.cons.inj h).2).2).2.symm).2

end Context

end Protobind
