import Protobind.Proofs.Outcomes

/-!
# Aliases of modules

A module imports others under aliases. An alias is the name of a package made an identifier, with
the least number behind it that makes it differ from the names that are set aside and from earlier
aliases. Set aside are the names of the support modules and of the variables of generated functions.
An alias captures another name if the two have the same normal form.
-/

namespace Protobind

open List Planner Name Statement

open Context

variable {a : String} {ctx : Context} {p : ModulePlan} {r : Request} {st : Statement}

/-! ## Names in statements -/

def OneofGroup.holdAny (kinds : List Kind) (groups : List OneofGroup) : Bool :=
  groups.any fun g => g.members.any fun x => kinds.contains x.kind

def GetterTest.isMember : GetterTest → Bool
  | .member _ _ _ => true
  | _ => false

namespace Statement

/-- The variables of functions whose names are the same in all modules. -/
def locals : Statement → List String
  | .enumClass _ | .forwardClass _ _ | .discriminator _ | .variant _ _ => ["self"]
  | .messageClass m => "self" :: if m.isMessageSet then ["data"] else []
  | .functions _ groups =>
    ["m", "b", "x", "n", "tag", "wire"] ++
      if OneofGroup.holdAny [.string, .message] groups then ["s"] else []
  | _ => []

/-- The parameters of constructors. -/
def params : Statement → List String
  | .messageClass m => m.params.map (·.attr)
  | .variant _ member => [member.attr]
  | .forwardClass _ _ => ["args", "kwargs"]
  | _ => []

/-- The built-in names in the code of a statement. -/
def builtins : Statement → List String
  | .enumClass _ | .forwardClass _ _ => ["str"]
  | .messageClass m =>
    "str" :: (if m.isMessageSet then ["bytes"] else []) ++
      if m.getters.any (·.test.isMember) then ["isinstance"] else []
  | .functions _ groups =>
    ["isinstance", "type"] ++ if OneofGroup.holdAny [.string, .bytes] groups then ["len"] else []
  | .descriptor _ _ => ["bytes"]
  | _ => []

def names (st : Statement) : List String := st.bound ++ st.locals ++ st.params ++ st.builtins

def isImport : Statement → Bool
  | .support _ | .importModule _ _ => true
  | _ => false

/-- The names in a statement that nothing keeps an alias from. -/
def exposed (st : Statement) : List String :=
  (if st.isImport then [] else st.bound) ++ st.params ++ st.builtins

theorem locals_subset (st : Statement) : st.locals ⊆ generatedNames := by
  fun_cases locals st
  case case5 m => split <;> decide
  case case6 groups => split <;> decide
  case case7 => exact nil_subset _
  all_goals decide

theorem mem_names {name : String} : name ∈ st.names ↔
    (st.isImport = true ∧ name ∈ st.bound) ∨ name ∈ st.locals ∨ name ∈ st.exposed := by
  unfold names exposed
  cases st.isImport
  · simp
    tauto
  · simp

end Statement

/-- Whether an alias of a module is another name in it, too: one that the module binds otherwise, a variable
or a parameter of its functions, or a built-in name that its code refers to. -/
def ModulePlan.Captures (p : ModulePlan) (a : String) : Prop :=
  ∃ st ∈ p.statements, (∀ path, st ≠ .importModule a path) ∧
    ∃ name ∈ st.names, normal name = normal a

/-! ## Names of packages -/

def setAside : List String := supportPackages ++ generatedNames

theorem reservedPackages_eq : reservedPackages = setAside := by decide +kernel

theorem normal_of_setAside : ∀ name ∈ setAside, normal name = name := by decide +kernel

theorem Context.PackagesNamed.inj {options : Options} {a : Arena} : ∀ {files : List NodeId}
    {taken : List String}, PackagesNamed options a taken files → ∀ id ∈ files, ∀ id' ∈ files, ∀ f f',
      a.file? id = some f → a.file? id' = some f' → f.packageName = f'.packageName → id = id'
  | file :: files, taken, ⟨g, hg, _, hrest⟩, id, hid, id', hid', f, f', hf, hf', heq => by
    have hnew {x : NodeId} (hx : x ∈ files) {k : FileNode} (hk : a.file? x = some k) :
        g.packageName ≠ k.packageName := by
      intro hsame
      obtain ⟨k', hk', hfresh⟩ := hrest.exists_file x hx
      cases hk.symm.trans hk'
      exact hfresh (hsame ▸ mem_append_right _ mem_cons_self)
    rcases mem_cons.mp hid with rfl | hold
    · rcases mem_cons.mp hid' with rfl | hold'
      · rfl
      · cases hg.symm.trans hf
        exact absurd heq (hnew hold' hf')
    · rcases mem_cons.mp hid' with rfl | hold'
      · cases hg.symm.trans hf'
        exact absurd heq.symm (hnew hold hf)
      · exact hrest.inj id hold id' hold' f f' hf hf' heq

theorem packagesNamed_build (h : r.context.1 = .ok ctx) :
    PackagesNamed ctx.options ctx.arena setAside ctx.files := by
  obtain ⟨options, _, hbuild⟩ := bind_eq_ok.mp h
  obtain ⟨a₀, a₁, a₂, hadd, hhoist, hselect, harena, _, hoptions⟩ := build_steps hbuild
  obtain ⟨_, hascend, _, hdecls, _⟩ := Arena.houses_addFiles r.files hadd
  have hfiles : ∀ id ∈ ctx.files, ∃ f, a₀.file? id = some f ∧ f.decl ∈ r.files := fun id hid => by
    obtain ⟨decl, hdecl, f, hf, rfl⟩ := exists_of_forall₂ hdecls hid
    exact ⟨f, hf, hdecl⟩
  have hkeep := ends_hoists fun id hid =>
    (hfiles id hid).imp fun _ h => ⟨h.1, publicEnds_explains h.2 a₀ ctx.files⟩
  rw [harena, hoptions, ← reservedPackages_eq]
  refine (namePackages_spec options ctx.files _ a₂ (hascend.imp Nat.ne_of_lt) fun id hid => ?_).1
  obtain ⟨f, hf, _⟩ := hfiles id hid
  obtain ⟨_, hf⟩ := (hkeep.of_ok hhoist).bare_file? hf
  obtain ⟨g, hg, _⟩ := (settled_of_unnamed (keeps_select r.generate 0 hselect)).settled_file? hf
  exact ⟨g, hg⟩

/-! ## Imports -/

theorem used_planModule {taken : List String}
    (hnamed : PackagesNamed ctx.options ctx.arena taken ctx.files) {id : NodeId} {f : FileNode}
    {s s' : PlanState} (h : planModule ctx id f s = .ok p s') {path file : String}
    (hused : .used path a file ∈ p.imports) : ∃ d g,
      ctx.fileNamed file = .ok d ∧ d ∈ ctx.files ∧ ctx.arena.name d = file ∧
      ctx.arena.file? d = some g ∧ path = g.modulePath ∧ a = g.packageName ∧ a ∉ taken := by
  obtain ⟨_, _, himports⟩ := file_planModule h
  obtain ⟨⟨i, name⟩, _, d, hd, hplan⟩ := exists_of_forall₂ (planImports_ok himports).flip hused
  obtain ⟨hin, hname⟩ := mem_of_fileIn? (fileIn_eq_ok.mp (mapError_eq_ok.mpr hd))
  obtain ⟨g, hg, hfresh⟩ := hnamed.exists_file d hin
  simp only [hg, Option.getD_some] at hplan
  split at hplan
  · cases hplan
  split at hplan
  · cases hplan
    exact ⟨d, g, hd, hin, hname, hg, rfl, rfl, hfresh⟩
  · cases hplan

theorem ModulePlan.import_cases (hst : st ∈ p.statements) (himport : st.isImport = true) :
    (∃ name ∈ supportPackages, st = .support name) ∨
      (∃ path, st = .importModule "_" path) ∨
      ∃ path b file, .used path b file ∈ p.imports ∧ st = .importModule b path := by
  rcases ModulePlan.mem_statements.mp hst with hst | ⟨i, hi, hst⟩ | rfl | ⟨q, _, symbol, _, hst⟩ |
    ⟨e, _, hst⟩ | ⟨m, _, hst⟩ | ⟨e, _, rfl⟩ | ⟨entry, _, rfl⟩ | rfl
  · exact .inl hst
  · cases i with
    | weak path => cases hst
    | unused path file => exact .inr (.inl ⟨path, mem_singleton.mp hst⟩)
    | used path b file => exact .inr (.inr ⟨path, b, file, hi, mem_singleton.mp hst⟩)
  · cases himport
  · exfalso
    cases symbol <;> grind [Symbol.statements, isImport]
  · grind [EnumPlan.statements, isImport]
  · grind [MessagePlan.statements, OneofGroup.statements, isImport]
  · cases himport
  · cases himport
  · cases himport

theorem ModulePlan.captures_iff (ha : a ∉ setAside) : p.Captures a ↔
      (∃ st ∈ p.statements, ∃ name ∈ st.exposed, normal name = normal a) ∨
      (∃ path b file, .used path b file ∈ p.imports ∧ b ≠ a ∧ normal b = normal a) ∨
      (normal a ∈ setAside ∧ ∃ st ∈ p.statements, normal a ∈ st.names) := by
  have hkept {st : Statement} {name : String} (hst : st ∈ p.statements) (hname : name ∈ st.names)
      (hset : name ∈ setAside) (heq : normal name = normal a) :
      normal a ∈ setAside ∧ ∃ st ∈ p.statements, normal a ∈ st.names := by
    rw [← heq, normal_of_setAside name hset]
    exact ⟨hset, st, hst, hname⟩
  constructor
  · rintro ⟨st, hst, hother, name, hname, heq⟩
    rcases mem_names.mp hname with ⟨himport, hbound⟩ | hlocal | hexposed
    · rcases ModulePlan.import_cases hst himport with
        ⟨support, hsupport, rfl⟩ | ⟨path, rfl⟩ | ⟨path, b, file, hused, rfl⟩
      · cases mem_singleton.mp hbound
        exact .inr (.inr (hkept hst hname (mem_append_left _ hsupport) heq))
      · cases mem_singleton.mp hbound
        exact .inr (.inr (hkept hst hname (by decide) heq))
      · cases mem_singleton.mp hbound
        refine .inr (.inl ⟨path, name, file, hused, ?_, heq⟩)
        rintro rfl
        exact hother path rfl
    · exact .inr (.inr (hkept hst hname (mem_append_right _ (st.locals_subset hlocal)) heq))
    · exact .inl ⟨st, hst, name, hexposed, heq⟩
  · rintro (⟨st, hst, name, hname, heq⟩ | ⟨path, b, file, hused, hne, heq⟩ | ⟨hset, st, hst, hname⟩)
    · refine ⟨st, hst, ?_, name, mem_names.mpr (.inr (.inr hname)), heq⟩
      rintro path rfl
      cases hname
    · refine ⟨.importModule b path, ModulePlan.mem_statements.mpr (.inr (.inl ⟨_, hused, ?_⟩)), ?_, b,
        mem_names.mpr (.inl ⟨rfl, mem_singleton.mpr rfl⟩), heq⟩
      · exact mem_singleton.mpr rfl
      · rintro path' ⟨⟩
        exact hne rfl
    · refine ⟨st, hst, ?_, _, hname, normal_of_setAside _ hset⟩
      rintro path rfl
      have hsame : normal a = a := mem_singleton.mp hname
      exact ha (hsame ▸ hset)

namespace Request

theorem planModule_of_plans {plans : List ModulePlan} (h : r.plans.1 = .ok plans) :
    ∃ ctx, r.bare.context.1 = .ok ctx ∧ ∀ p ∈ plans, ∃ id f s q s',
      planModule ctx id f s = .ok q s' ∧ p = q.annotated r.comments := by
  unfold Request.plans at h
  split at h
  · rename_i ctx _ hctx
    refine ⟨ctx, by rw [hctx], fun p hp => ?_⟩
    unfold Context.plans at h
    split at h
    · rename_i hrun
      cases h
      obtain ⟨_, _, hget⟩ := mem_filterMap.mp hp
      obtain ⟨id, f, s, q, s', hplan, heq⟩ :=
        (planFiles_names hrun).1 _ (Dictionary.mem_of_get?_ofPairs hget)
      exact ⟨id, f, s, q, s', hplan, congrArg Prod.snd heq⟩
    · cases h
  · cases h

/-- Aliases and the other names of modules. The files of a run get identifiers one after another, from their
packages. A module imports the modules of files that it refers to under these identifiers, so no alias is a
name that was set aside, and it stands for one module only. It captures another name exactly in these
cases: the name is bound behind the imports, is a parameter of a constructor or a built-in name; it is an
alias of the same normal form; or it was set aside, and is the normal form of the alias. -/
theorem alias_captures {r : Request} {plans : List ModulePlan} (h : r.plans.1 = .ok plans) :
    ∃ ctx, r.bare.context.1 = .ok ctx ∧ PackagesNamed ctx.options ctx.arena setAside ctx.files ∧
      ∀ p ∈ plans, ∀ path a file, .used path a file ∈ p.imports →
        (∃ d, ctx.fileNamed file = .ok d ∧ a = ctx.packageOf d) ∧ a ∉ setAside ∧
        (∀ path' file', .used path' a file' ∈ p.imports → path' = path ∧ file' = file) ∧
        (p.Captures a ↔
          (∃ st ∈ p.statements, ∃ name ∈ st.exposed, Name.normal name = Name.normal a) ∨
          (∃ path b file, .used path b file ∈ p.imports ∧ b ≠ a ∧ Name.normal b = Name.normal a) ∨
          (Name.normal a ∈ setAside ∧ ∃ st ∈ p.statements, Name.normal a ∈ st.names)) := by
  obtain ⟨ctx, hctx, hplans⟩ := planModule_of_plans h
  have hnamed := packagesNamed_build hctx
  refine ⟨ctx, hctx, hnamed, fun p hp path a file hused => ?_⟩
  obtain ⟨id, f, s, q, s', hplan, rfl⟩ := hplans p hp
  obtain ⟨d, g, hd, hin, hname, hg, hpath, ha, hnot⟩ := used_planModule hnamed hplan hused
  refine ⟨⟨d, hd, by rw [Context.packageOf, hg]; exact ha⟩, hnot, fun path' file' hused' => ?_,
    ModulePlan.captures_iff hnot⟩
  obtain ⟨d', g', _, hin', hname', hg', hpath', ha', _⟩ := used_planModule hnamed hplan hused'
  obtain rfl := hnamed.inj d hin d' hin' g g' hg hg' (ha.symm.trans ha')
  cases hg.symm.trans hg'
  exact ⟨hpath'.trans hpath.symm, hname'.symm.trans hname⟩

/-- The package of a file has a built-in name. -/
def builtinPackage : Request where
  files := [
    { name? := some "d.proto", package? := some "bytes",
      enums := [{ name? := some "D", values := [{ name? := some "A", number? := some 0 }] }] },
    { name? := some "u.proto", dependencies := ["d.proto"], publicDependencies := [0] }]
  generate := ["u.proto"]

theorem alias_captures_bytes : ∃ plans, builtinPackage.plans.1 = .ok plans ∧ ∃ p ∈ plans,
    .used "d_pb" "bytes" "d.proto" ∈ p.imports ∧ p.Captures "bytes" := by
  have hrun : ∃ plans, builtinPackage.plans.1 = .ok plans ∧ ∃ p ∈ plans,
      .used "d_pb" "bytes" "d.proto" ∈ p.imports := by decide +kernel
  obtain ⟨plans, hplans, p, hp, hused⟩ := hrun
  obtain ⟨_, _, _, hall⟩ := alias_captures hplans
  obtain ⟨_, _, _, hcaptures⟩ := hall p hp _ _ _ hused
  refine ⟨plans, hplans, p, hp, hused, hcaptures.mpr (.inl ?_)⟩
  have hlast : .descriptor p.variableName p.descriptor ∈ p.statements := by
    simp [ModulePlan.mem_statements]
  exact ⟨_, hlast, "bytes", mem_append_right _ (mem_singleton.mpr rfl), rfl⟩

end Request

end Protobind
