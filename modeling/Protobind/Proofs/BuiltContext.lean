import Protobind.Proofs.Hoisting
import Protobind.Proofs.Trees

/-!
# Contexts

What holds in the context of every run. The files have nodes for everything that they declare and
that their public imports make visible, and a type name means a message or an enum of some file
(`coherent_build`). The identifiers of packages differ from the names that modules use.
-/

namespace Protobind

open List Arena

variable {options : Options} {decls : List FileDecl} {generate : List String} {ctx : Context}
  {a b : Arena} {file x y : NodeId} {files : List NodeId} {tour : List (NodeId × NodeId)}

/-! ## Fresh names -/

namespace Name

/-- Where each number that is not free is blocked by one of a list of things, and a thing blocks one
number at most, there is a free number up to the length of the list: the least is found. -/
theorem free_leastBelow {β : Type} (things : List β) (free : Nat → Bool) (blocks : β → Nat → Prop)
    (hblocked : ∀ k, free k = false → ∃ b ∈ things, blocks b k)
    (honce : ∀ b i j, blocks b i → blocks b j → i = j) :
    free (leastBelow things.length free) = true := by
  unfold leastBelow
  cases hfind : (List.range things.length).find? free with
  | some k => exact find?_some hfind
  | none =>
    rw [Option.getD_none]
    by_contra hlast
    have hall (k : Nat) (hk : k ≤ things.length) : ∃ b ∈ things, blocks b k := by
      refine hblocked k ?_
      rcases Nat.lt_or_eq_of_le hk with hlt | rfl
      · simpa using find?_eq_none.mp hfind k (mem_range.mpr hlt)
      · simpa using hlast
    have : Nonempty β := (hall 0 (Nat.zero_le _)).nonempty
    choose! blocker hmem hblocks using hall
    have hle {k : Nat} (hk : k ∈ List.range (things.length + 1)) : k ≤ things.length :=
      Nat.le_of_lt_succ (mem_range.mp hk)
    have hsub : (List.range (things.length + 1)).map blocker ⊆ things := fun b hb => by
      obtain ⟨k, hk, rfl⟩ := mem_map.mp hb
      exact hmem k (hle hk)
    have hnodup : ((List.range (things.length + 1)).map blocker).Nodup :=
      nodup_range.map_on fun i hi j hj hsame =>
        honce _ i j (hblocks i (hle hi)) (hsame ▸ hblocks j (hle hj))
    have hle := hnodup.length_le_of_subset hsub
    rw [length_map, length_range] at hle
    omega

theorem not_mem_of_leastBelow {candidate : Nat → String} (hinj : Function.Injective candidate)
    (taken : List String) :
    candidate (leastBelow taken.length fun k => !taken.contains (candidate k)) ∉ taken := by
  have hfree := free_leastBelow taken (fun k => !taken.contains (candidate k))
    (fun name k => candidate k = name) (fun k hk => ⟨_, by simpa using hk, rfl⟩)
    fun _ i j hi hj => hinj (hi.trans hj.symm)
  simpa using hfree

theorem repr_injective : Function.Injective Nat.repr := by
  intro i j h
  rw [Nat.repr_eq_ofList_toDigits, Nat.repr_eq_ofList_toDigits, String.ofList_inj] at h
  rw [← Nat.ofDigitChars_toDigits (b := 10) (n := i) (by decide) (by decide), h,
    Nat.ofDigitChars_toDigits (by decide) (by decide)]

theorem numbered_injective (name : String) : Function.Injective (numbered name) := by
  have hne {i : Nat} : name ≠ name ++ toString i := by
    intro h
    have hempty : name ++ "" = name ++ i.repr := (String.append_empty).trans h
    exact Nat.repr_ne_empty ((String.append_right_inj name).mp hempty).symm
  intro i j h
  unfold numbered at h
  split at h
  · split at h
    · omega
    · exact absurd h hne
  · split at h
    · exact absurd h.symm hne
    · exact repr_injective ((String.append_right_inj name).mp h)

theorem uniqueNumbered_not_mem (name : String) (taken : List String) :
    uniqueNumbered name taken ∉ taken :=
  not_mem_of_leastBelow (numbered_injective name) taken

end Name

/-- What a node stands for, without the names that a run gives to a file. -/
def NodeKind.unnamed : NodeKind → NodeKind
  | .file f => .file { f with index := 0, packageName := "", modulePath := "", generate := false }
  | kind => kind

namespace Context

/-! ## Names of packages -/

theorem keeps_select : ∀ (names : List String) (index : Nat) {a b : Arena},
    select files index names a = .ok b → Keeps NodeKind.unnamed a b
  | [], _, a, b, h => by
    cases h
    exact .refl a
  | name :: names, index, a, b, h => by
    unfold select at h
    obtain ⟨id, _, h⟩ := bind_eq_ok.mp h
    refine Keeps.trans ?_ (keeps_select names (index + 1) h)
    exact (Keeps.refl a).modifyFile id fun _ => rfl

/-- Whether files have the identifiers that they get one after another, when some names are taken. -/
def PackagesNamed (options : Options) (a : Arena) : List String → List NodeId → Prop
  | _, [] => True
  | taken, file :: files => ∃ f, a.file? file = some f ∧
      f.packageName = Name.uniqueNumbered (Name.clean (packageCandidate options f)) taken ∧
      PackagesNamed options a (taken ++ [f.packageName]) files

theorem PackagesNamed.exists_file : ∀ {files : List NodeId}
    {taken : List String}, PackagesNamed options a taken files → ∀ id ∈ files,
      ∃ f, a.file? id = some f ∧ f.packageName ∉ taken
  | file :: files, taken, ⟨g, hg, hname, hrest⟩, id, hid => by
    rcases mem_cons.mp hid with rfl | hid
    · exact ⟨g, hg, hname ▸ Name.uniqueNumbered_not_mem _ taken⟩
    · obtain ⟨f, hf, hfresh⟩ := hrest.exists_file id hid
      exact ⟨f, hf, fun hmem => hfresh (mem_append_left _ hmem)⟩

theorem keeps_namePackages (options : Options) : ∀ (ids : List NodeId) (used : List String) (a : Arena),
    Keeps NodeKind.unnamed a (namePackages options ids (used, a)).2
  | [], _, a => .refl a
  | id :: ids, used, a => by
    unfold namePackages
    split
    · exact keeps_namePackages options ids used a
    · refine Keeps.trans ?_ (keeps_namePackages options ids _ _)
      exact (Keeps.refl a).modifyFile id fun _ => rfl

theorem namePackages_spec (options : Options) : ∀ (ids : List NodeId) (used : List String) (a : Arena),
    ids.Nodup → AreFiles a ids →
        PackagesNamed options (namePackages options ids (used, a)).2 used ids ∧
        ∀ id f, id ∉ ids → a.file? id = some f →
          (namePackages options ids (used, a)).2.file? id = some f
  | [], used, a, _, _ => ⟨trivial, fun _ _ _ h => h⟩
  | id :: ids, used, a, hnodup, hfiles => by
    obtain ⟨hnot, hnodup⟩ := nodup_cons.mp hnodup
    obtain ⟨f, hf⟩ := hfiles id mem_cons_self
    unfold namePackages
    simp only [hf]
    have hfiles' (change : FileNode → FileNode) : AreFiles (a.modifyFile id change) ids := by
      intro x hx
      obtain ⟨g, hg⟩ := hfiles x (mem_cons_of_mem _ hx)
      have hne : id ≠ x := fun he => hnot (he ▸ hx)
      exact ⟨g, (file?_congr (get?_modifyFile_of_ne hne _)).trans hg⟩
    obtain ⟨hnamed, hothers⟩ := namePackages_spec options ids
      (registerPackage used (packageCandidate options f)).2
      (a.modifyFile id fun g =>
        { g with
          packageName := (registerPackage used (packageCandidate options f)).1
          modulePath := (options.importMap.get? f.decl.name).getD
            (Name.modulePath f.decl.name) })
      hnodup (hfiles' _)
    refine ⟨?_, fun x g hx hg => ?_⟩
    · exact ⟨_, hothers id _ hnot (file?_modifyFile hf _), rfl, hnamed⟩
    · rw [mem_cons, not_or] at hx
      refine hothers x g hx.2 ((file?_congr ?_).trans hg)
      exact get?_modifyFile_of_ne (Ne.symm hx.1) _

/-! ## Coherent contexts -/

/-- What holds of the files and types of a run. -/
structure Coherent (ctx : Context) : Prop where
  nodup : ctx.files.Nodup
  names : (ctx.files.map ctx.arena.name).Nodup
  houses : ∀ id ∈ ctx.files, ∃ f, ctx.arena.file? id = some f ∧ ctx.arena.Houses id f
  /-- A file has nodes for what its public imports make visible. -/
  tours : ∀ id ∈ ctx.files, ∃ tour, Tour ctx.arena ctx.files id tour ∧
    Imports ctx.arena id (tourPairs ctx.arena tour)
  /-- No package takes a name that generated modules use. -/
  packages : ∀ id f, id ∈ ctx.files → ctx.arena.file? id = some f →
    f.packageName ∉ reservedPackages
  /-- A type name means a message or an enum of a file. -/
  types : ∀ typeName node, ctx.lookup typeName = .ok node →
    ∃ id ∈ ctx.files, ∃ f, ctx.arena.file? id = some f ∧ node ∈ f.messages ++ f.enums

/-- Whether every file stands behind the files that it depends on. -/
def DependencyOrder (decls : List FileDecl) : Prop :=
  ∀ before decl after, decls = before ++ decl :: after →
    ∀ name ∈ decl.dependencies, name ∈ before.map (·.name)

section

variable (h : Keeps NodeKind.settled a b) (hfiles : AreFiles a files)
include h hfiles

theorem publicStep_keep (hx : x ∈ files) : PublicStep b files x y ↔ PublicStep a files x y := by
  obtain ⟨f, hf⟩ := hfiles x hx
  obtain ⟨g, hg, hdecl, _⟩ := h.settled_file? hf
  constructor
  · rintro ⟨f', names, name, hf', hnames, hmem, hy⟩
    cases hg.symm.trans hf'
    exact ⟨f, names, name, hf, hdecl ▸ hnames, hmem, fileIn?_keep h hfiles name ▸ hy⟩
  · rintro ⟨f', names, name, hf', hnames, hmem, hy⟩
    cases hf.symm.trans hf'
    exact ⟨g, names, name, hg, hdecl ▸ hnames, hmem, (fileIn?_keep h hfiles name).trans hy⟩

theorem reach_keep (hx : x ∈ files) : Relation.ReflTransGen (PublicStep b files) x y ↔
      Relation.ReflTransGen (PublicStep a files) x y := by
  have hsame {p q : NodeId → NodeId → Prop} (hp : ∀ {x y}, p x y → y ∈ files)
      (hpq : ∀ {x y}, x ∈ files → p x y → q x y) {y : NodeId} (hreach : Relation.ReflTransGen p x y) :
      y ∈ files ∧ Relation.ReflTransGen q x y := by
    induction hreach with
    | refl => exact ⟨hx, .refl⟩
    | tail _ hlast ih => exact ⟨hp hlast, ih.2.tail (hpq ih.1 hlast)⟩
  exact ⟨fun hreach => (hsame PublicStep.mem (fun h' => (publicStep_keep h hfiles h').mp) hreach).2,
    fun hreach => (hsame PublicStep.mem (fun h' => (publicStep_keep h hfiles h').mpr) hreach).2⟩

theorem Tour.keep (ht : Tour a files file tour) (hfile : file ∈ files) :
    Tour b files file tour where
  once := ht.once
  sound p hp := by
    obtain ⟨hstep, hreach⟩ := ht.sound p hp
    exact ⟨(publicStep_keep h hfiles hfile).mpr hstep, (reach_keep h hfiles hstep.mem).mpr hreach⟩
  complete v x hstep hreach :=
    ht.complete v x ((publicStep_keep h hfiles hfile).mp hstep)
      ((reach_keep h hfiles hstep.mem).mp hreach)

end

/-- Whether the files that a file depends on come before it. -/
def Ordered (ctx : Context) : Prop :=
  ∀ before id after, ctx.files = before ++ id :: after → ∀ f, ctx.arena.file? id = some f →
    ∀ name ∈ f.decl.dependencies, ∃ d ∈ before, fileIn? ctx.arena ctx.files name = some d

theorem fileIn?_of_mem (hnames : (files.map a.name).Nodup) {id : NodeId} (hid : id ∈ files) :
    fileIn? a files (a.name id) = some id := by
  cases hfind : fileIn? a files (a.name id) with
  | none =>
    unfold fileIn? at hfind
    have hnot := find?_eq_none.mp hfind id (mem_reverse.mpr hid)
    simp at hnot
  | some other =>
    obtain ⟨hother, hname⟩ := mem_of_fileIn? hfind
    rw [inj_on_of_nodup_map hnames hother hid hname]

theorem settled_of_unnamed (h : Keeps NodeKind.unnamed a b) : Keeps NodeKind.settled a b :=
  h.through fun kind => by cases kind <;> rfl

theorem Imports.keep_unnamed {pairs : List (NodeId × NodeId)} (h : Imports a file pairs)
    (hkeep : Keeps NodeKind.unnamed a b) : Imports b file pairs := by
  obtain ⟨f, hf, _⟩ := id h
  obtain ⟨kind, hkind, hview, _⟩ := hkeep.kind? (file?_eq_some.mp hf)
  cases kind with
  | file g =>
    injection hview with hview
    injection hview with _ _ _ _ himported
    exact h.keep hf (file?_eq_some.mpr hkind) himported (settled_of_unnamed hkeep)
  | _ => cases hview

theorem build_steps (h : build options decls generate = .ok ctx) :
    ∃ a₀ a₁ a₂ : Arena, addFiles decls {} = .ok (ctx.files, a₀) ∧
    ctx.files.foldlM (hoistInto ctx.files) a₀ = .ok a₁ ∧ select ctx.files 0 generate a₁ = .ok a₂ ∧
    ctx.arena = (namePackages options ctx.files (reservedPackages, a₂)).2 ∧
    ctx.types = typesOf ctx.arena ctx.files ∧ ctx.options = options := by
  unfold build at h
  obtain ⟨⟨files, a₀⟩, hadd, h⟩ := bind_eq_ok.mp h
  obtain ⟨a₁, hhoist, h⟩ := bind_eq_ok.mp h
  obtain ⟨a₂, hselect, h⟩ := bind_eq_ok.mp h
  cases h
  exact ⟨a₀, a₁, a₂, mapError_eq_ok.mp hadd, hhoist, hselect, rfl, rfl, rfl⟩

theorem names_of_forall₂ {ids : List NodeId}
    (h : Forall₂ (fun id decl => ∃ f, a.file? id = some f ∧ f.decl = decl) ids decls) :
    ids.map a.name = decls.map (·.name) := by
  induction h with
  | nil => rfl
  | cons hfile _ ih =>
    obtain ⟨f, hf, rfl⟩ := hfile
    rw [map_cons, map_cons, name_of_file hf, ih]

/-- The files of a run as they are when the trees are built, and what is kept of them. -/
structure Founded (ctx : Context) (decls : List FileDecl) (a₀ : Arena) : Prop where
  nodup : ctx.files.Nodup
  decls : Forall₂ (fun id decl => ∃ f, a₀.file? id = some f ∧ f.decl = decl) ctx.files decls
  houses : ∀ id ∈ ctx.files, ∃ f, a₀.file? id = some f ∧ a₀.Houses id f
  keep : Keeps NodeKind.settled a₀ ctx.arena
  tours : ∀ id ∈ ctx.files, ∃ tour, Tour a₀ ctx.files id tour ∧
    Imports ctx.arena id (tourPairs a₀ tour)
  packages : ∀ id ∈ ctx.files, ∃ f, ctx.arena.file? id = some f ∧ f.packageName ∉ reservedPackages

theorem founded_build (h : build options decls generate = .ok ctx) (hnames : (decls.map (·.name)).Nodup) :
    ∃ a₀, Founded ctx decls a₀ := by
  obtain ⟨a₀, a₁, a₂, hadd, hhoist, hselect, harena, _⟩ := build_steps h
  obtain ⟨_, hascend, _, hdecls, hall⟩ := houses_addFiles decls hadd
  have hnodup : ctx.files.Nodup := hascend.imp fun hlt => Nat.ne_of_lt hlt
  have hfiles : AreFiles a₀ ctx.files := fun id hid => (hall id hid).imp fun _ h => h.1
  have hblank : ∀ id ∈ ctx.files, Imports a₀ id [] := fun id hid => by
    obtain ⟨f, hf, hblank, _⟩ := hall id hid
    exact ⟨f, hf, hblank.1 ▸ .nil⟩
  obtain ⟨hkeep₁, htours, _⟩ := tours_foldlM hfiles (names_of_forall₂ hdecls ▸ hnames) ctx.files
    hnodup (fun _ hid => hid) (.refl a₀) hblank hhoist
  have hkeep₂ := hkeep₁.trans (settled_of_unnamed (keeps_select generate 0 hselect))
  have hkeep₃ := keeps_namePackages options ctx.files reservedPackages a₂
  obtain ⟨hnamed, _⟩ := namePackages_spec options ctx.files reservedPackages a₂ hnodup
    fun id hid => by
      obtain ⟨f, hf⟩ := hfiles id hid
      obtain ⟨g, hg, _⟩ := hkeep₂.settled_file? hf
      exact ⟨g, hg⟩
  rw [← harena] at hkeep₃ hnamed
  refine ⟨a₀, hnodup, hdecls, fun id hid => (hall id hid).imp fun _ h => ⟨h.1, h.2.2⟩,
    hkeep₂.trans (settled_of_unnamed hkeep₃), fun id hid => ?_, hnamed.exists_file⟩
  obtain ⟨tour, htour, himports⟩ := htours id hid
  exact ⟨tour, htour, himports.keep_unnamed ((keeps_select generate 0 hselect).trans hkeep₃)⟩

theorem mem_types {node : NodeId} (h : node ∈ files.flatMap fun file =>
    match a.file? file with
    | some f => f.messages ++ f.enums
    | none => []) : ∃ id ∈ files, ∃ f, a.file? id = some f ∧ node ∈ f.messages ++ f.enums := by
  obtain ⟨file, hfile, hnode⟩ := mem_flatMap.mp h
  split at hnode
  · rename_i f hf
    exact ⟨file, hfile, f, hf, hnode⟩
  · cases hnode

theorem lookup_eq_ok {typeName : String} {node : NodeId} :
    ctx.lookup typeName = .ok node ↔ ctx.types.get? typeName = some node := by
  unfold lookup
  cases ctx.types.get? typeName <;> simp

theorem types_of_lookup (htypes : ctx.types = typesOf ctx.arena ctx.files) {typeName : String} {node : NodeId}
    (h : ctx.lookup typeName = .ok node) :
    ∃ id ∈ ctx.files, ∃ f, ctx.arena.file? id = some f ∧ node ∈ f.messages ++ f.enums := by
  rw [lookup_eq_ok, htypes] at h
  obtain ⟨id, hid, hpair⟩ := mem_map.mp (Dictionary.mem_of_get?_ofPairs h)
  cases hpair
  exact mem_types hid

theorem coherent_build (h : build options decls generate = .ok ctx) (hnames : (decls.map (·.name)).Nodup) :
    ctx.Coherent := by
  obtain ⟨a₀, hfounded⟩ := founded_build h hnames
  obtain ⟨_, _, _, _, _, _, _, htypes, _⟩ := build_steps h
  have hfiles : AreFiles a₀ ctx.files := fun id hid => (hfounded.houses id hid).imp fun _ h => h.1
  refine ⟨hfounded.nodup, ?_, fun id hid => ?_, fun id hid => ?_, fun id f hid hf => ?_,
    fun _ _ => types_of_lookup htypes⟩
  · have hsame : ctx.files.map ctx.arena.name = ctx.files.map a₀.name :=
      map_congr_left fun id hid => by
        obtain ⟨f, hf⟩ := hfiles id hid
        exact name_keep hfounded.keep hf
    rw [hsame, names_of_forall₂ hfounded.decls]
    exact hnames
  · obtain ⟨f, hf, hhouses⟩ := hfounded.houses id hid
    obtain ⟨g, hg, _, hmessages, henums, hextensions⟩ := hfounded.keep.settled_file? hf
    have hkept := hhouses.keep hf hfounded.keep.sort_of_settled
    exact ⟨g, hg, hkept.self, hmessages ▸ hkept.messages, henums ▸ hkept.enums,
      hextensions ▸ hkept.extensions, hmessages ▸ henums ▸ hextensions ▸ hkept.once⟩
  · obtain ⟨tour, htour, himports⟩ := hfounded.tours id hid
    refine ⟨tour, htour.keep hfounded.keep hfiles hid, ?_⟩
    rw [tourPairs_keep hfiles hfounded.keep fun p => htour.mem]
    exact himports
  · obtain ⟨g, hg, hfresh⟩ := hfounded.packages id hid
    cases hf.symm.trans hg
    exact hfresh

theorem ordered_build (h : build options decls generate = .ok ctx) (hnames : (decls.map (·.name)).Nodup)
    (horder : DependencyOrder decls) : ctx.Ordered := by
  obtain ⟨a₀, hfounded⟩ := founded_build h hnames
  have hcoherent := coherent_build h hnames
  intro before id after hfiles f hf name hname
  have hdecls := hfounded.decls
  rw [hfiles] at hdecls
  obtain ⟨before', decl, after', rfl, hbefore, f₀, hf₀, rfl⟩ := split_of_forall₂ hdecls
  obtain ⟨g, hg, hdecl, _⟩ := hfounded.keep.settled_file? hf₀
  cases hf.symm.trans hg
  rw [hdecl] at hname
  obtain ⟨decl', hdecl', rfl⟩ := mem_map.mp (horder before' _ after' rfl name hname)
  obtain ⟨d, hd, f', hf', rfl⟩ := exists_of_forall₂ hbefore.flip hdecl'
  have hmem : d ∈ ctx.files := hfiles ▸ mem_append_left _ hd
  refine ⟨d, hd, ?_⟩
  rw [← name_of_file hf', ← name_keep hfounded.keep hf']
  exact fileIn?_of_mem hcoherent.names hmem

end Context

end Protobind
