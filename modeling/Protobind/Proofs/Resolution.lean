import Protobind.Proofs.Linking

/-!
# Resolving type names

A file sees its own types and what its dependencies declare or reach by public imports. The search
for a node walks over lists filled when the context was built; `imported_iff_reaches` says that they
are what the graph of public imports reaches, and `resolve_of_indirect` that the search gives up
only where the graph has no way.
-/

namespace Protobind

open List Dictionary

variable {d definer file node : NodeId} {f : FileNode} {typeName : String}

namespace Context

variable (ctx : Context)

/-! ## What a file sees -/

/-- The messages and enums of all files. -/
def typeNodes : List NodeId :=
  ctx.files.flatMap fun file =>
    match ctx.arena.file? file with
    | some f => f.messages ++ f.enums
    | none => []

/-- Whether a file declares a message or an enum. -/
def Declares (file node : NodeId) : Prop :=
  file ∈ ctx.files ∧ ∃ f, ctx.arena.file? file = some f ∧ node ∈ f.messages ++ f.enums

/-- Whether a file has another one among its dependencies. -/
def DependsOn (file d : NodeId) : Prop :=
  ∃ f, ctx.arena.file? file = some f ∧
    ∃ name ∈ f.decl.dependencies, fileIn? ctx.arena ctx.files name = some d

/-- Whether a file sees the types of another one as they are. -/
def SeesDirectly (file definer : NodeId) : Prop := definer = file ∨ ctx.DependsOn file definer

/-- Whether a file sees the types of another one through a dependency: it is reached from there by
one or more public imports. -/
def SeesRelayed (file definer : NodeId) : Prop :=
  ∃ d, ctx.DependsOn file d ∧ Relation.TransGen (PublicStep ctx.arena ctx.files) d definer

instance (file node : NodeId) : Decidable (ctx.Declares file node) :=
  inferInstanceAs (Decidable (file ∈ ctx.files ∧
    ∃ f ∈ ctx.arena.file? file, node ∈ f.messages ++ f.enums))

instance (file d : NodeId) : Decidable (ctx.DependsOn file d) :=
  inferInstanceAs (Decidable (∃ f ∈ ctx.arena.file? file,
    ∃ name ∈ f.decl.dependencies, fileIn? ctx.arena ctx.files name = some d))

/-- The answer for a type that a file cannot see: an error when imports are strict, and otherwise
the definition with a warning. -/
def unseenAnswer (typeName : String) (file node : NodeId) :
    Except CompileError (NodeId × List LogEntry) :=
  let e := CompileError.missingImport typeName (ctx.arena.name file)
  if ctx.options.strictImports then .error e else .ok (node, [.warning e.summary])

/-- Whether every dependency is one of the files. -/
def DependenciesPresent (decls : List FileDecl) : Prop :=
  ∀ decl ∈ decls, ∀ name ∈ decl.dependencies, name ∈ decls.map (·.name)

instance (decls : List FileDecl) : Decidable (DependenciesPresent decls) :=
  inferInstanceAs (Decidable (∀ decl ∈ decls, ∀ name ∈ decl.dependencies, _))

variable {ctx}

theorem mem_typeNodes : node ∈ ctx.typeNodes ↔ ∃ file, ctx.Declares file node := by
  constructor
  · exact mem_types
  · rintro ⟨file, hfile, f, hf, hnode⟩
    refine mem_flatMap.mpr ⟨file, hfile, ?_⟩
    rw [hf]
    exact hnode

/-! ## Type names -/

theorem lookup_fullName (htypes : ctx.types = typesOf ctx.arena ctx.files)
    (hdistinct : (ctx.typeNodes.map ctx.arena.fullName).Nodup) (h : ctx.Declares file node) :
    ctx.lookup (ctx.arena.fullName node) = .ok node := by
  have hpair : (ctx.arena.fullName node, node) ∈
      ctx.typeNodes.map fun id => (ctx.arena.fullName id, id) :=
    mem_map.mpr ⟨node, mem_typeNodes.mpr ⟨file, h⟩, rfl⟩
  have hkeys : ((ctx.typeNodes.map fun id => (ctx.arena.fullName id, id)).map (·.1)).Nodup := by
    rw [map_map]
    exact hdistinct
  rw [lookup_eq_ok, htypes]
  exact get?_ofPairs_of_mem hkeys hpair

theorem lookup_of_undeclared (htypes : ctx.types = typesOf ctx.arena ctx.files)
    (h : ∀ file node, ctx.Declares file node → ctx.arena.fullName node ≠ typeName) :
    ctx.lookup typeName = .error (.missingType typeName) := by
  have hget : ctx.types.get? typeName = none := by
    rw [htypes]
    cases hget : (typesOf ctx.arena ctx.files).get? typeName with
    | none => rfl
    | some found =>
      have hpair : (typeName, found) ∈ ctx.typeNodes.map fun id => (ctx.arena.fullName id, id) :=
        mem_of_get?_ofPairs hget
      obtain ⟨node, hnode, heq⟩ := mem_map.mp hpair
      cases heq
      obtain ⟨file, hdeclares⟩ := mem_typeNodes.mp hnode
      exact absurd rfl (h file _ hdeclares)
  unfold lookup
  rw [hget]

theorem find_eq (h : ctx.lookup typeName = .ok node) : ctx.find typeName file =
      if ctx.isDirect node file then .ok (.visible node)
      else (ctx.visibleIn? node (ctx.arena.fileDecl file).dependencies).map fun found? =>
        match found? with
        | some i => .visible i
        | none => .hidden node := by
  rw [find, h]
  show (if ctx.isDirect node file then _ else _) = _
  cases ctx.visibleIn? node (ctx.arena.fileDecl file).dependencies with
  | error e => rfl
  | ok found? => cases found? <;> rfl

/-! ## Dependencies -/

section

variable (hcoherent : ctx.Coherent)
include hcoherent

theorem fileOf_of_declares (h : ctx.Declares definer node) : ctx.arena.fileOf node = definer := by
  obtain ⟨hmem, f, hf, hnode⟩ := h
  obtain ⟨f', hf', hhouses⟩ := hcoherent.houses definer hmem
  cases hf.symm.trans hf'
  exact hhouses.fileOf (mem_append_left _ hnode)

theorem fileDecl_of_mem (hfile : file ∈ ctx.files) :
    ∃ f, ctx.arena.file? file = some f ∧ ctx.arena.fileDecl file = f.decl := by
  obtain ⟨f, hf, hhouses⟩ := hcoherent.houses file hfile
  exact ⟨f, hf, fileDecl_eq hf hhouses.self⟩

theorem dependsOn_iff (hf : ctx.arena.file? file = some f) (hd : d ∈ ctx.files) :
    ctx.DependsOn file d ↔ ctx.arena.name d ∈ f.decl.dependencies := by
  constructor
  · rintro ⟨f', hf', name, hname, hfile⟩
    cases hf.symm.trans hf'
    rw [(mem_of_fileIn? hfile).2]
    exact hname
  · exact fun hname => ⟨f, hf, _, hname, fileIn?_of_mem hcoherent.names hd⟩

theorem isDirect_iff (hfile : file ∈ ctx.files) (h : ctx.Declares definer node) :
    ctx.isDirect node file = true ↔ ctx.SeesDirectly file definer := by
  obtain ⟨f, hf, hdecl⟩ := fileDecl_of_mem hcoherent hfile
  obtain ⟨g, hg, _⟩ := hcoherent.houses definer h.1
  have hdefiner : ctx.arena.fileDecl node = g.decl :=
    fileDecl_eq hg (fileOf_of_declares hcoherent h)
  have hsame : g.decl.name = f.decl.name ↔ definer = file := by
    rw [← Arena.name_of_file hf, ← Arena.name_of_file hg]
    exact ⟨inj_on_of_nodup_map hcoherent.names h.1 hfile, congrArg ctx.arena.name⟩
  unfold isDirect SeesDirectly
  rw [dependsOn_iff hcoherent hf h.1, Arena.name_of_file hg, hdecl, hdefiner, Bool.or_eq_true,
    beq_iff_eq, hsame, contains_iff_mem]

/-! ## Nodes of a dependency -/

/-- A file has a node for a type of another file when it reaches that file by public imports. -/
theorem imported_iff_reaches (hd : d ∈ ctx.files) (hf : ctx.arena.file? d = some f)
    (h : ctx.Declares definer node) :
    (∃ i ∈ f.imported, ctx.arena.target i = node) ↔
      Relation.TransGen (PublicStep ctx.arena ctx.files) d definer := by
  obtain ⟨tour, htour, f', hf', hnodes⟩ := hcoherent.tours d hd
  cases hf.symm.trans hf'
  rw [Relation.TransGen.head'_iff]
  constructor
  · rintro ⟨i, hi, rfl⟩
    obtain ⟨⟨target, via⟩, hpair, _, hkind⟩ := exists_of_forall₂ hnodes hi
    rw [Arena.target_of_imported hkind] at h
    obtain ⟨⟨y, _⟩, hvisit, hcredited⟩ := mem_flatMap.mp hpair
    obtain ⟨_, hdeclared, hsame⟩ := mem_map.mp hcredited
    cases hsame
    obtain ⟨g, hg, hhouses⟩ := hcoherent.houses y (htour.mem hvisit)
    rw [declaredBy, hg] at hdeclared
    obtain rfl : y = definer :=
      (hhouses.fileOf hdeclared).symm.trans (fileOf_of_declares hcoherent h)
    exact ⟨_, htour.sound _ hvisit⟩
  · rintro ⟨v, hstep, hreach⟩
    obtain ⟨via, hvisit⟩ := htour.complete v definer hstep hreach
    obtain ⟨_, g, hg, hnode⟩ := h
    have hpair : (node, via) ∈ tourPairs ctx.arena tour := by
      refine mem_flatMap.mpr ⟨_, hvisit, mem_map.mpr ⟨node, ?_, rfl⟩⟩
      rw [declaredBy, hg]
      exact mem_append_left _ hnode
    obtain ⟨i, hi, _, hkind⟩ := exists_of_forall₂ hnodes.flip hpair
    exact ⟨i, hi, Arena.target_of_imported hkind⟩

theorem kind_of_imported {i : NodeId} (hd : d ∈ ctx.files) (hf : ctx.arena.file? d = some f)
    (hi : i ∈ f.imported) :
    ctx.arena.fileOf i = d ∧
      ∃ via, ctx.arena.kind? i = some (.imported (ctx.arena.target i) via) := by
  obtain ⟨_, _, f', hf', hnodes⟩ := hcoherent.tours d hd
  cases hf.symm.trans hf'
  obtain ⟨⟨target, via⟩, _, hfile, hkind⟩ := exists_of_forall₂ hnodes hi
  exact ⟨hfile, via, (Arena.target_of_imported hkind).symm ▸ hkind⟩

/-- The search among dependencies that are there ends with a node, or else none of them has one. -/
theorem visibleIn?_cases (node : NodeId) : ∀ (names : List String),
    (∀ name ∈ names, ∃ d, fileIn? ctx.arena ctx.files name = some d) →
      (∃ i, ctx.visibleIn? node names = .ok (some i)) ∨
        ctx.visibleIn? node names = .ok none ∧ ∀ name ∈ names, ∀ d f,
          fileIn? ctx.arena ctx.files name = some d → ctx.arena.file? d = some f →
            ∀ i ∈ f.imported, ctx.arena.target i ≠ node
  | [], _ => .inr ⟨rfl, forall_mem_nil _⟩
  | name :: names, hpresent => by
    obtain ⟨d, hd⟩ := hpresent name mem_cons_self
    obtain ⟨f, hf, _⟩ := hcoherent.houses d (mem_of_fileIn? hd).1
    have hnamed : ctx.fileNamed name = .ok d := mapError_eq_ok.mp (fileIn_eq_ok.mpr hd)
    have hstep : ctx.visibleIn? node (name :: names) =
        match f.imported.find? fun i => ctx.arena.target i == node with
        | some i => .ok (some i)
        | none => ctx.visibleIn? node names := by
      rw [visibleIn?, hnamed]
      simp only [bind, Except.bind, hf, Option.map_some, Option.getD_some]
      rfl
    rw [hstep]
    cases hfind : f.imported.find? fun i => ctx.arena.target i == node with
    | some i => exact .inl ⟨i, rfl⟩
    | none =>
      refine (visibleIn?_cases node names fun n hn =>
        hpresent n (mem_cons_of_mem _ hn)).imp_right ?_
      rintro ⟨hnone, hall⟩
      refine ⟨hnone, fun n hn d' f' hd' hf' i hi => ?_⟩
      rcases mem_cons.mp hn with rfl | hn
      · cases hd.symm.trans hd'
        cases hf.symm.trans hf'
        simpa using find?_eq_none.mp hfind i hi
      · exact hall n hn d' f' hd' hf' i hi

/-! ## The three answers -/

variable (hlookup : ctx.lookup typeName = .ok node) (hfile : file ∈ ctx.files)
  (hdeclares : ctx.Declares definer node)
include hlookup hfile hdeclares

theorem resolve_of_direct (h : ctx.SeesDirectly file definer) :
    ctx.resolve typeName file = .ok (node, []) := by
  rw [resolve, find_eq hlookup, if_pos ((isDirect_iff hcoherent hfile hdeclares).mpr h)]
  rfl

variable (hpresent : ∀ f, ctx.arena.file? file = some f → ∀ name ∈ f.decl.dependencies,
  ∃ d, fileIn? ctx.arena ctx.files name = some d)
  (hdirect : ¬ctx.SeesDirectly file definer)
include hpresent hdirect

theorem resolve_of_indirect :
    (ctx.SeesRelayed file definer ∧ ∃ i d via,
      ctx.resolve typeName file = .ok (i, []) ∧ ctx.arena.kind? i = some (.imported node via) ∧
        ctx.arena.fileOf i = d ∧ ctx.DependsOn file d) ∨
      ¬ctx.SeesRelayed file definer ∧
        ctx.resolve typeName file = ctx.unseenAnswer typeName file node := by
  obtain ⟨f, hf, hdecl⟩ := fileDecl_of_mem hcoherent hfile
  have hnot : ¬ctx.isDirect node file = true := fun hyes =>
    hdirect ((isDirect_iff hcoherent hfile hdeclares).mp hyes)
  have hreaches {d : NodeId} {g : FileNode} (hd : d ∈ ctx.files) (hg : ctx.arena.file? d = some g) :=
    imported_iff_reaches hcoherent hd hg hdeclares
  rcases visibleIn?_cases hcoherent node f.decl.dependencies (hpresent f hf) with
    ⟨i, hfound⟩ | ⟨hnone, hall⟩
  · obtain ⟨name, hname, d, g, hd, hg, hi, rfl⟩ := visibleIn?_eq_some hfound
    have hmem := (mem_of_fileIn? hd).1
    obtain ⟨hfileOf, via, hkind⟩ := kind_of_imported hcoherent hmem hg hi
    have hdepends : ctx.DependsOn file d := ⟨f, hf, name, hname, hd⟩
    refine .inl ⟨⟨d, hdepends, (hreaches hmem hg).mp ⟨i, hi, rfl⟩⟩, i, d, via, ?_, hkind, hfileOf, hdepends⟩
    rw [resolve, find_eq hlookup, if_neg hnot, hdecl, hfound]
    rfl
  · refine .inr ⟨?_, ?_⟩
    · rintro ⟨d, ⟨f', hf', name, hname, hd⟩, hreach⟩
      cases hf.symm.trans hf'
      have hmem := (mem_of_fileIn? hd).1
      obtain ⟨g, hg, _⟩ := hcoherent.houses d hmem
      obtain ⟨i, hi, htarget⟩ := (hreaches hmem hg).mpr hreach
      exact hall name hname d g hd hg i hi htarget
    · rw [resolve, find_eq hlookup, if_neg hnot, hdecl, hnone, unseenAnswer, Arena.name_of_file hf]
      rfl

end

theorem present_build {options : Options} {decls : List FileDecl} {generate : List String}
    (h : build options decls generate = .ok ctx) (hnames : (decls.map (·.name)).Nodup)
    (hpresent : DependenciesPresent decls) (hfile : file ∈ ctx.files) :
    ∀ f, ctx.arena.file? file = some f → ∀ name ∈ f.decl.dependencies,
      ∃ d, fileIn? ctx.arena ctx.files name = some d := by
  intro f hf name hname
  obtain ⟨a₀, hfounded⟩ := founded_build h hnames
  obtain ⟨decl, hdecl, f₀, hf₀, rfl⟩ := exists_of_forall₂ hfounded.decls hfile
  obtain ⟨g, hg, hsame, _⟩ := hfounded.keep.settled_file? hf₀
  cases hf.symm.trans hg
  rw [hsame] at hname
  obtain ⟨decl', hdecl', rfl⟩ := mem_map.mp (hpresent _ hdecl name hname)
  obtain ⟨d, hd, g', hg', rfl⟩ := exists_of_forall₂ hfounded.decls.flip hdecl'
  refine ⟨d, ?_⟩
  rw [← Arena.name_of_file hg', ← name_keep hfounded.keep hg']
  exact fileIn?_of_mem (coherent_build h hnames).names hd

/-- What a type name means to a file: the definition when the file or a dependency declares it, a
node of a dependency when that reaches the definition by public imports, and the answer for what is
unseen exactly otherwise. A name that no file declares means nothing. -/
theorem resolve_exact {options : Options} {decls : List FileDecl} {generate : List String}
    {ctx : Context} (hbuild : build options decls generate = .ok ctx)
    (hnames : (decls.map (·.name)).Nodup) (hpresent : DependenciesPresent decls)
    (hdistinct : (ctx.typeNodes.map ctx.arena.fullName).Nodup) :
    (∀ file ∈ ctx.files, ∀ definer node, ctx.Declares definer node →
      (ctx.SeesDirectly file definer →
        ctx.resolve (ctx.arena.fullName node) file = .ok (node, [])) ∧
      (¬ctx.SeesDirectly file definer → ctx.SeesRelayed file definer → ∃ i d via,
        ctx.resolve (ctx.arena.fullName node) file = .ok (i, []) ∧
          ctx.arena.kind? i = some (.imported node via) ∧ ctx.arena.fileOf i = d ∧
          ctx.DependsOn file d) ∧
      (ctx.resolve (ctx.arena.fullName node) file =
          ctx.unseenAnswer (ctx.arena.fullName node) file node ↔
        ¬ctx.SeesDirectly file definer ∧ ¬ctx.SeesRelayed file definer)) ∧
      ∀ typeName, (∀ file node, ctx.Declares file node → ctx.arena.fullName node ≠ typeName) →
        ∀ file, ctx.resolve typeName file = .error (.missingType typeName) := by
  have hcoherent := coherent_build hbuild hnames
  obtain ⟨_, _, _, _, _, _, _, htypes, _⟩ := build_steps hbuild
  refine ⟨fun file hfile definer node hdeclares => ?_, fun typeName hundeclared file => ?_⟩
  · have hlookup := lookup_fullName htypes hdistinct hdeclares
    have hdependencies := present_build hbuild hnames hpresent hfile
    have hdirect := resolve_of_direct hcoherent hlookup hfile hdeclares
    have hrelayed := resolve_of_indirect hcoherent hlookup hfile hdeclares hdependencies
    -- What a file sees is answered without a warning: the last answer tells that it sees nothing.
    have hquiet {i : NodeId} :
        .ok (i, []) ≠ ctx.unseenAnswer (ctx.arena.fullName node) file node := by
      unfold unseenAnswer
      split <;> exact fun h => by cases h
    refine ⟨hdirect, fun hno hyes => ?_, fun hanswer => ?_, fun ⟨hno, hnone⟩ => ?_⟩
    · exact (hrelayed hno).elim (·.2) fun h => absurd hyes h.1
    · have hno : ¬ctx.SeesDirectly file definer := fun hyes =>
        hquiet ((hdirect hyes).symm.trans hanswer)
      refine ⟨hno, (hrelayed hno).elim (fun h => ?_) (·.1)⟩
      obtain ⟨_, i, _, _, hi, _⟩ := h
      exact absurd (hi.symm.trans hanswer) hquiet
    · exact (hrelayed hno).elim (fun h => absurd h.1 hnone) (·.2)
  · rw [resolve, find, lookup_of_undeclared htypes hundeclared]
    rfl

/-- Two files that import each other publicly, the first with an enum; a file that depends on the
second, and a file that depends on nothing. -/
def cyclicImports : List FileDecl :=
  [{ name? := some "a.proto", package? := some "a", dependencies := ["b.proto"],
     publicDependencies := [0],
     enums := [{ name? := some "Kind", values := [{ name? := some "ON", number? := some 0 }] }] },
   { name? := some "b.proto", package? := some "b", dependencies := ["a.proto"],
     publicDependencies := [0] },
   { name? := some "c.proto", package? := some "c", dependencies := ["b.proto"] },
   { name? := some "d.proto", package? := some "d" }]

theorem resolve_exact_cyclic : ∃ ctx, build {} cyclicImports [] = .ok ctx ∧
    DependenciesPresent cyclicImports ∧ (ctx.typeNodes.map ctx.arena.fullName).Nodup ∧
    ∃ a c d kind, ctx.files.length = 4 ∧ ctx.Declares a kind ∧ ctx.arena.fullName kind = ".a.Kind" ∧
      ctx.resolve ".a.Kind" a = .ok (kind, []) ∧
      (∃ i b via, ctx.resolve ".a.Kind" c = .ok (i, []) ∧
        ctx.arena.kind? i = some (.imported kind via) ∧ ctx.arena.fileOf i = b ∧
        ctx.DependsOn c b) ∧
      ctx.resolve ".a.Kind" d = ctx.unseenAnswer ".a.Kind" d kind ∧
      ctx.resolve ".a.Sort" c = .error (.missingType ".a.Sort") := by
  have hrun : ∃ ctx, build {} cyclicImports [] = .ok ctx ∧ ctx.typeNodes = [1] ∧
      ctx.files = [0, 2, 3, 4] ∧ ctx.arena.fullName 1 = ".a.Kind" ∧ ctx.Declares 0 1 ∧
      ¬ctx.DependsOn 3 0 ∧ ctx.DependsOn 3 2 ∧
      (∃ g ∈ ctx.arena.file? 2, ∃ names, g.decl.publicNames = .ok names ∧
        ∃ name ∈ names, fileIn? ctx.arena ctx.files name = some 0) ∧
      ∃ k ∈ ctx.arena.file? 4, k.decl.dependencies = [] := by decide +kernel
  obtain ⟨ctx, hbuild, htypes, hfiles, hkind, hdeclares, hindirect, hdepends,
    ⟨g, hg, names, hnames, name, hname, ha⟩, k, hk, hnothing⟩ := hrun
  have hdistinct : (ctx.typeNodes.map ctx.arena.fullName).Nodup := by
    rw [htypes]
    exact nodup_singleton _
  have hrelayed : ctx.SeesRelayed 3 0 :=
    ⟨2, hdepends, .single ⟨g, names, name, hg, hnames, hname, ha⟩⟩
  have hnone (x : NodeId) : ¬ctx.DependsOn 4 x := by
    rintro ⟨_, hk', name, hname, _⟩
    cases hk.symm.trans hk'
    rw [hnothing] at hname
    cases hname
  obtain ⟨hexact, hmissing⟩ := resolve_exact hbuild (by decide) (by decide) hdistinct
  refine ⟨ctx, hbuild, by decide, hdistinct, 0, 3, 4, 1, by rw [hfiles]; rfl, hdeclares, hkind,
    ?_, ?_, ?_, hmissing _ ?_ 3⟩
  · exact hkind ▸ (hexact 0 (by simp [hfiles]) 0 1 hdeclares).1 (.inl rfl)
  · refine hkind ▸ (hexact 3 (by simp [hfiles]) 0 1 hdeclares).2.1 (fun hdirect => ?_) hrelayed
    exact hdirect.elim (by decide) hindirect
  · refine hkind ▸ (hexact 4 (by simp [hfiles]) 0 1 hdeclares).2.2.mpr ⟨fun hdirect => ?_, ?_⟩
    · exact hdirect.elim (by decide) (hnone 0)
    · exact fun ⟨x, hx, _⟩ => hnone x hx
  · intro file node hnode
    have hmem := mem_typeNodes.mpr ⟨file, hnode⟩
    rw [htypes, mem_singleton] at hmem
    rw [hmem, hkind]
    decide

end Context

end Protobind
