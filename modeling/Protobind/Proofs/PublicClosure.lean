import Protobind.Proofs.Outcomes

/-!
# The closure of public imports

Files with diamonds and cycles among their public imports are wrapped without a fault. Then a file
lists what the files that it reaches by public imports declare, each thing once, and credits it to a
public import of its own on the way there.
-/

namespace Protobind.Context

open List

open Relation

variable {a a₀ : Arena} {files : List NodeId} {file id x : NodeId} {f : FileNode}
  {tour : List (NodeId × NodeId)}

theorem Tour.mem_iff (h : Tour a files file tour) :
    x ∈ tour.map (·.1) ↔ TransGen (PublicStep a files) file x := by
  rw [TransGen.head'_iff]
  constructor
  · intro hx
    obtain ⟨p, hp, rfl⟩ := mem_map.mp hx
    exact ⟨p.2, h.sound p hp⟩
  · rintro ⟨v, hstep, hreach⟩
    obtain ⟨via, hvia⟩ := h.complete v x hstep hreach
    exact mem_map_of_mem hvia

theorem map_fst_tourPairs (a : Arena) (tour : List (NodeId × NodeId)) :
    (tourPairs a tour).map (·.1) = (tour.map (·.1)).flatMap (declaredBy a) := by
  simp [tourPairs, map_flatMap, flatMap_map, Function.comp_def]

theorem nodup_declared (h : a.Houses id f) : (declared f).Nodup := by
  have hsort {s s' : NodeSort} {n : NodeId} (h : a.Belongs s id n) (h' : a.Belongs s' id n) : s = s' := by
    obtain ⟨_, kind, hkind, rfl⟩ := h
    obtain ⟨_, kind', hkind', rfl⟩ := h'
    cases hkind.symm.trans hkind'
    rfl
  obtain ⟨hmessages, henums, hextensions⟩ := h.once
  refine (hmessages.append henums fun n hn hn' => ?_).append hextensions fun n hn hn' => ?_
  · cases hsort (h.messages n hn) (h.enums n hn')
  · rcases mem_append.mp hn with hn | hn
    · cases hsort (h.messages n hn) (h.extensions n hn')
    · cases hsort (h.enums n hn) (h.extensions n hn')

theorem nodup_tourPairs (hhouses : ∀ id ∈ files, ∃ f, a.file? id = some f ∧ a.Houses id f)
    (h : Tour a files file tour) : ((tourPairs a tour).map (·.1)).Nodup := by
  have hfile : ∀ x ∈ tour.map (·.1), (declaredBy a x).Nodup ∧ ∀ n ∈ declaredBy a x, a.fileOf n = x := by
    intro x hx
    obtain ⟨p, hp, rfl⟩ := mem_map.mp hx
    obtain ⟨f, hf, hf'⟩ := hhouses p.1 (h.mem hp)
    rw [declaredBy, hf]
    exact ⟨nodup_declared hf', fun n hn => hf'.fileOf hn⟩
  rw [map_fst_tourPairs, nodup_flatMap]
  refine ⟨fun x hx => (hfile x hx).1, List.Pairwise.imp_of_mem ?_ h.once⟩
  intro x y hx hy hne n hn hn'
  exact hne (((hfile x hx).2 n hn).symm.trans ((hfile y hy).2 n hn'))

theorem targets_of_imports {pairs : List (NodeId × NodeId)} (hf : a.file? file = some f)
    (h : Imports a file pairs) : f.imported.map a.target = pairs.map (·.1) := by
  obtain ⟨f', hf', hnodes⟩ := h
  cases hf.symm.trans hf'
  exact forall₂_eq_eq_eq ▸ forall₂_map_left_iff.mpr (forall₂_map_right_iff.mpr
    (hnodes.imp fun _ _ h => Arena.target_of_imported h.2))

theorem mem_declaredBy {node : NodeId} : node ∈ declaredBy a id ↔
    ∃ f, a.file? id = some f ∧ node ∈ f.messages ++ f.enums ++ f.extensions := by
  unfold declaredBy
  cases a.file? id <;> simp [declared]

section

variable (htours : ∀ id ∈ files, ∃ tour, Tour a₀ files id tour ∧ Imports a id (tourPairs a₀ tour))
  (hfile : file ∈ files) (hf : a.file? file = some f)
include htours hfile hf

/-- A file lists what is declared by the files that it reaches. -/
theorem mem_targets_iff (node : NodeId) : node ∈ f.imported.map a.target ↔
    ∃ definer d, TransGen (PublicStep a₀ files) file definer ∧ a₀.file? definer = some d ∧
      node ∈ d.messages ++ d.enums ++ d.extensions := by
  obtain ⟨tour, htour, himports⟩ := htours file hfile
  simp only [targets_of_imports hf himports, map_fst_tourPairs, mem_flatMap, htour.mem_iff,
    mem_declaredBy, exists_and_left]

/-- What a file lists comes from a public import that reaches the file that declares it. -/
theorem via_of_imported {i : NodeId} (hi : i ∈ f.imported) :
    ∃ via definer d, a.kind? i = some (.imported (a.target i) via) ∧ PublicStep a₀ files file via ∧
      ReflTransGen (PublicStep a₀ files) via definer ∧ a₀.file? definer = some d ∧
      a.target i ∈ d.messages ++ d.enums ++ d.extensions := by
  obtain ⟨tour, htour, f', hf', hnodes⟩ := htours file hfile
  cases hf.symm.trans hf'
  obtain ⟨⟨target, via⟩, hpair, _, hkind⟩ := exists_of_forall₂ hnodes hi
  obtain ⟨p, hp, hcredited⟩ := mem_flatMap.mp hpair
  obtain ⟨_, hdeclared, hsame⟩ := mem_map.mp hcredited
  cases hsame
  obtain ⟨d, hd, hdeclared⟩ := mem_declaredBy.mp hdeclared
  rw [Arena.target_of_imported hkind]
  exact ⟨p.2, p.1, d, hkind, (htour.sound p hp).1, (htour.sound p hp).2, hd, hdeclared⟩

end

theorem publicEnds_present {decls : List FileDecl} (hpresent : DependenciesPresent decls)
    (hpublic : ∀ decl ∈ decls, ∀ i ∈ decl.publicDependencies, indexed? decl.dependencies i ≠ none)
    (hnames : (files.map a.name).Nodup)
    (hdecls : Forall₂ (fun id decl => ∃ f, a.file? id = some f ∧ f.decl = decl) files decls)
    {decl : FileDecl} (hdecl : decl ∈ decls) : PublicEnds a files (fun _ => False) decl := by
  unfold PublicEnds
  cases h : decl.publicNames with
  | error e =>
    obtain ⟨_, i, hi, hnone⟩ := (ends_publicNames decl).of_error h
    exact absurd hnone (hpublic decl hdecl i hi)
  | ok names =>
    refine .ok fun name hname => ?_
    obtain ⟨decl', hdecl', rfl⟩ := mem_map.mp (hpresent decl hdecl name (mem_of_indexedAll h hname))
    obtain ⟨id, hid, f, hf, rfl⟩ := exists_of_forall₂ hdecls.flip hdecl'
    rw [fileIn, ← Arena.name_of_file hf, fileIn?_of_mem hnames hid]
    exact .ok hid

/-- Files with names of their own, whose dependencies are there, are wrapped. Each then lists the
messages, enums and extensions of the files that it reaches by one or more public imports, everything
once. What it lists is credited to a public import from which the file that declares it is reached, and
which declares it or lists it as well. -/
theorem hoisted_exactly_once {decls : List FileDecl} (hnames : (decls.map (·.name)).Nodup)
    (hpresent : DependenciesPresent decls)
    (hpublic : ∀ decl ∈ decls, ∀ i ∈ decl.publicDependencies, indexed? decl.dependencies i ≠ none) :
    ∃ files a₀ a, Arena.addFiles decls {} = .ok (files, a₀) ∧
      files.foldlM (hoistInto files) a₀ = .ok a ∧
      Forall₂ (fun file decl => ∃ f, a.file? file = some f ∧ f.decl = decl) files decls ∧
      ∀ file f, file ∈ files → a.file? file = some f →
        (f.imported.map a.target).Nodup ∧
        (∀ node, node ∈ f.imported.map a.target ↔
          ∃ definer d, TransGen (PublicStep a₀ files) file definer ∧ a₀.file? definer = some d ∧
            node ∈ d.messages ++ d.enums ++ d.extensions) ∧
        ∀ i ∈ f.imported, ∃ via definer d, a.kind? i = some (.imported (a.target i) via) ∧
          PublicStep a₀ files file via ∧ ReflTransGen (PublicStep a₀ files) via definer ∧
          a₀.file? definer = some d ∧ a.target i ∈ d.messages ++ d.enums ++ d.extensions ∧
          (via = definer ∨ ∃ g, a.file? via = some g ∧ a.target i ∈ g.imported.map a.target) := by
  obtain ⟨⟨files, a₀⟩, hadd⟩ := Arena.addFiles_ok decls {}
  obtain ⟨_, hascend, _, hdecls, hall⟩ := Arena.houses_addFiles decls hadd
  have hnodup : (files.map a₀.name).Nodup := names_of_forall₂ hdecls ▸ hnames
  have hends := ends_hoists fun id hid => by
    obtain ⟨_, hdecl, f, hf, rfl⟩ := exists_of_forall₂ hdecls hid
    exact ⟨f, hf, publicEnds_present hpresent hpublic hnodup hdecls hdecl⟩
  cases hhoist : files.foldlM (hoistInto files) a₀ with
  | error e => exact (hends.of_error hhoist).elim
  | ok a =>
    obtain ⟨hkeep, htours, _⟩ := tours_foldlM (fun id hid => (hall id hid).imp fun _ h => h.1) hnodup files
      (hascend.imp Nat.ne_of_lt) (fun _ hid => hid) (.refl a₀) (fun id hid => by
        obtain ⟨f, hf, hblank, _⟩ := hall id hid
        exact ⟨f, hf, hblank.1 ▸ .nil⟩) hhoist
    have hkept {id : NodeId} {f : FileNode} (hf : a₀.file? id = some f) :
        ∃ g, a.file? id = some g ∧ g.decl = f.decl := by
      obtain ⟨g, hg, hdecl, _⟩ := hkeep.settled_file? hf
      exact ⟨g, hg, hdecl⟩
    refine ⟨files, a₀, a, hadd, hhoist, hdecls.imp fun id decl h => ?_, fun file f hfile hf => ⟨?_,
      mem_targets_iff htours hfile hf, fun i hi => ?_⟩⟩
    · obtain ⟨f, hf, rfl⟩ := h
      exact hkept hf
    · obtain ⟨tour, htour, himports⟩ := htours file hfile
      rw [targets_of_imports hf himports]
      exact nodup_tourPairs (fun id hid => (hall id hid).imp fun _ h => ⟨h.1, h.2.2⟩) htour
    · obtain ⟨via, definer, d, hkind, hstep, hreach, hd, hdeclared⟩ :=
        via_of_imported htours hfile hf hi
      refine ⟨via, definer, d, hkind, hstep, hreach, hd, hdeclared, ?_⟩
      rcases reflTransGen_iff_eq_or_transGen.mp hreach with heq | hreach
      · exact .inl heq.symm
      · obtain ⟨f', hf', _⟩ := hall via hstep.mem
        obtain ⟨g, hg, _⟩ := hkept hf'
        exact .inr ⟨g, hg, (mem_targets_iff htours hstep.mem hg _).mpr
          ⟨definer, d, hreach, hd, hdeclared⟩⟩

theorem hoisted_exactly_once_cyclic : ∃ files a₀ a, Arena.addFiles cyclicImports {} = .ok (files, a₀) ∧
    files.foldlM (hoistInto files) a₀ = .ok a ∧ ∃ file ∈ files, ∃ f, a.file? file = some f ∧
      (f.imported.map a.target).Nodup ∧ f.imported.map a.target = [1] ∧ a.fullName 1 = ".a.Kind" ∧
      ∃ definer d, TransGen (PublicStep a₀ files) file definer ∧ a₀.file? definer = some d ∧
        1 ∈ d.messages ++ d.enums ++ d.extensions := by
  have hpublic : ∀ decl ∈ cyclicImports, ∀ i ∈ decl.publicDependencies,
      indexed? decl.dependencies i ≠ none := by decide
  obtain ⟨files, a₀, a, hadd, hhoist, _, hclosure⟩ :=
    hoisted_exactly_once (by decide) (by decide) hpublic
  have hrun : ∃ p, Arena.addFiles cyclicImports {} = .ok p ∧
      ∃ a, p.1.foldlM (hoistInto p.1) p.2 = .ok a ∧ ∃ file ∈ p.1, ∃ f ∈ a.file? file,
        f.imported.map a.target = [1] ∧ a.fullName 1 = ".a.Kind" := by
    decide +kernel
  obtain ⟨_, hadd', _, hhoist', file, hfile, f, hf, htargets, hname⟩ := hrun
  cases hadd.symm.trans hadd'
  cases hhoist.symm.trans hhoist'
  obtain ⟨hnodup, hiff, _⟩ := hclosure file f hfile hf
  exact ⟨files, a₀, a, hadd, hhoist, file, hfile, f, hf, hnodup, htargets, hname,
    (hiff 1).mp (htargets ▸ mem_cons_self)⟩

end Protobind.Context
