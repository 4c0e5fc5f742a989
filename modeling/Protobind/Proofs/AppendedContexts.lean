import Protobind.Proofs.ClosedArenas
import Protobind.Proofs.Resolution

/-!
# Contexts with a further file

Two runs over the same files, the second with one more file behind them. The nodes of the files have
the same numbers in both; what public imports make visible has other numbers, but stands for the
same nodes in the same order (`Abreast`).
-/

namespace Protobind

open List Arena NodeKind

variable {a a₀ b b₀ a' b' : Arena} {ctx ctx' : Context} {decls : List FileDecl} {f : FileNode}
  {files files' : List NodeId} {generate : List String} {id last file : NodeId} {options : Options}

/-- Two walks over a list whose steps keep a relation, as far as both succeed. -/
theorem foldlM_abreast {α σ τ ε : Type} {R : σ → τ → Prop} {f : σ → α → Except ε σ}
    {g : τ → α → Except ε τ} : ∀ {xs : List α}, (∀ x ∈ xs, ∀ {s t s' t'}, R s t → f s x = .ok s' →
      g t x = .ok t' → R s' t') → ∀ {s t s' t'}, R s t → xs.foldlM f s = .ok s' →
        xs.foldlM g t = .ok t' → R s' t'
  | [], _, s, t, s', t', h, hf, hg => by
    cases hf
    cases hg
    exact h
  | x :: xs, hstep, s, t, s', t', h, hf, hg => by
    rw [foldlM_cons] at hf hg
    obtain ⟨s₁, hs₁, hf⟩ := bind_eq_ok.mp hf
    obtain ⟨t₁, ht₁, hg⟩ := bind_eq_ok.mp hg
    exact foldlM_abreast (fun y hy => hstep y (mem_cons_of_mem x hy))
      (hstep x mem_cons_self h hs₁ ht₁) hf hg

theorem Arena.Houses.lt_size {n : NodeId} (h : a.Houses id f)
    (hn : n ∈ f.messages ++ f.enums ++ f.extensions) : n < a.size := by
  have hkind : ∃ kind, a.kind? n = some kind := by
    rcases mem_append.mp hn with hn | hn
    · rcases mem_append.mp hn with hn | hn
      · exact (h.messages n hn).2.imp fun _ h => h.1
      · exact (h.enums n hn).2.imp fun _ h => h.1
    · exact (h.extensions n hn).2.imp fun _ h => h.1
  obtain ⟨kind, hkind⟩ := hkind
  obtain ⟨_, hn, _⟩ := get?_of_kind? hkind
  exact lt_size_of_get? hn

/-- What a node is, without what is visible in a file through others. -/
def NodeKind.bare : NodeKind → NodeKind
  | .file f => .file { f with imported := [] }
  | kind => kind

theorem Arena.Keeps.settled_of_bare (h : Keeps bare a b) : Keeps settled a b :=
  h.through fun kind => by cases kind <;> rfl

theorem Arena.Keeps.bare_file? (h : Keeps bare a b) (hf : a.file? id = some f) :
    ∃ l, b.file? id = some { f with imported := l } := by
  obtain ⟨kind, hkind, hview, _⟩ := h.kind? (file?_eq_some.mp hf)
  cases kind with
  | file g =>
    injection hview with hview
    refine ⟨g.imported, file?_eq_some.mpr (hkind.trans ?_)⟩
    cases f
    cases g
    cases hview
    rfl
  | _ => cases hview

theorem Arena.addFiles_append : ∀ (decls more : List FileDecl) {a c : Arena} {ids : List NodeId},
    addFiles (decls ++ more) a = .ok (ids, c) → ∃ ids₁ b ids₂,
      addFiles decls a = .ok (ids₁, b) ∧ addFiles more b = .ok (ids₂, c) ∧
        ids = ids₁ ++ ids₂
  | [], _, a, _, ids, h => ⟨[], a, ids, rfl, h, rfl⟩
  | decl :: decls, more, a, c, ids, h => by
    rw [cons_append, addFiles] at h
    obtain ⟨⟨id, a₁⟩, hfile, h⟩ := bind_eq_ok.mp h
    obtain ⟨⟨rest, a₂⟩, hrest, h⟩ := bind_eq_ok.mp h
    cases h
    obtain ⟨ids₁, b, ids₂, hfirst, hmore, rfl⟩ := addFiles_append decls more hrest
    refine ⟨id :: ids₁, b, ids₂, ?_, hmore, rfl⟩
    rw [addFiles, hfile]
    exact bind_eq_ok.mpr ⟨_, rfl, bind_eq_ok.mpr ⟨_, hfirst, rfl⟩⟩

namespace Context

/-! ## What becomes visible -/

/-- Two runs whose files are added: every file of the first one is a file of the second, with the
same tree, and is found under its name in both. -/
structure Extends (a₀ : Arena) (files : List NodeId) (b₀ : Arena) (files' : List NodeId) : Prop where
  houses : ∀ id ∈ files, ∃ f, a₀.file? id = some f ∧ a₀.Houses id f
  areFiles' : AreFiles b₀ files'
  keep : Keeps settled a₀ b₀
  length_le : files.length ≤ files'.length
  found : ∀ {b name x}, Keeps settled b₀ b → fileIn? a₀ files name = some x →
    fileIn? b files' name = some x

/-- Whether nodes and the files that provide them were there when the files were added. -/
def Within (a₀ : Arena) (files : List NodeId) (pairs : List (NodeId × NodeId)) : Prop :=
  ∀ p ∈ pairs, p.1 < a₀.size ∧ p.2 ∈ files

section

variable (h : Extends a₀ files b₀ files')

include h

theorem Extends.areFiles : AreFiles a₀ files := fun id hid => (h.houses id hid).imp fun _ h => h.1

theorem Extends.fileIn_eq {name : String} {x y : NodeId} (hkeep : Keeps settled a₀ a)
    (hkeep' : Keeps settled b₀ b)
    (hx : (fileIn a files name).mapError GenerateError.reported = .ok x)
    (hy : (fileIn b files' name).mapError GenerateError.reported = .ok y) : y = x ∧ x ∈ files := by
  rw [fileIn_eq_ok, fileIn?_keep hkeep h.areFiles] at hx
  rw [fileIn_eq_ok, h.found hkeep' hx] at hy
  exact ⟨(Option.some.inj hy).symm, (mem_of_fileIn? hx).1⟩

theorem Extends.publicFile_eq {name : String} {p q : NodeId × FileDecl}
    (hp : publicFile a₀ files name = .ok p) (hq : publicFile b₀ files' name = .ok q) : q = p := by
  obtain ⟨hx, _, f, hf, hdecl⟩ := publicFile_eq_ok h.areFiles hp
  obtain ⟨hy, _, g, hg, hdecl'⟩ := publicFile_eq_ok h.areFiles' hq
  have hsame : q.1 = p.1 := Option.some.inj (hy.symm.trans (h.found (.refl b₀) hx))
  obtain ⟨g', hg', hkept, _⟩ := h.keep.settled_file? hf
  cases hg.symm.trans (hsame ▸ hg')
  exact Prod.ext hsame (hdecl'.symm.trans (hkept.trans hdecl))

/-- The search from a file visits the same in both runs. Both have enough fuel, so neither search
ends for lack of one. -/
theorem visit_abreast {via : NodeId} : ∀ (n : Nat) {n' : Nat} {p : NodeId × FileDecl}
    {s t t' : Search}, p.1 ∈ files → (∃ f, a₀.file? p.1 = some f ∧ f.decl = p.2) →
      unvisited a₀ files s.1 < n → unvisited a₀ files s.1 < n' →
      visit (publicFile a₀ files) via n p s = .ok t →
      visit (publicFile b₀ files') via n' p s = .ok t' → t' = t := by
  intro n
  induction n with
  | zero => exact fun _ _ hn => absurd hn (Nat.not_lt_zero _)
  | succ n ih =>
    rintro n' ⟨x, decl⟩ ⟨visited, tour⟩ t t' hx ⟨f, hf, hdecl⟩ hn hn' ha hb
    obtain ⟨n', rfl⟩ : ∃ k, n' = k + 1 := ⟨n' - 1, by omega⟩
    have hname : decl.name = a₀.name x := by rw [name_of_file hf, hdecl]
    simp only [visit, hname] at ha hb hn hn'
    split at ha
    · rename_i hseen
      rw [if_pos hseen] at hb
      cases ha
      cases hb
      rfl
    · rename_i hseen
      rw [if_neg hseen] at hb
      obtain ⟨names, hnames, ha⟩ := bind_eq_ok.mp ha
      obtain ⟨_, hnames', hb⟩ := bind_eq_ok.mp hb
      cases hnames.symm.trans hnames'
      have hlt : unvisited a₀ files (a₀.name x :: visited) < unvisited a₀ files visited :=
        unvisited_lt hx (by simpa using hseen)
      -- The files that are imported publicly are visited one after another, from the same names on.
      have hall := foldlM_abreast (R := fun s t => t = s ∧
        unvisited a₀ files s.1 ≤ unvisited a₀ files (a₀.name x :: visited)) ?_ ⟨rfl, Nat.le_refl _⟩ ha hb
      · exact hall.1
      rintro name _ _ s s' t' ⟨rfl, hle⟩ hs ht
      obtain ⟨p, hp, hs⟩ := bind_eq_ok.mp hs
      obtain ⟨q, hq, ht⟩ := bind_eq_ok.mp ht
      cases h.publicFile_eq hp hq
      obtain ⟨_, hmem, hdecl⟩ := publicFile_eq_ok h.areFiles hp
      obtain ⟨_, hvisit, _⟩ := visit_visit h.areFiles n p _ _ hmem hdecl (by omega) hs
      have hle' : unvisited a₀ files s'.1 ≤ unvisited a₀ files s.1 :=
        unvisited_le fun name hname => hvisit.mem_names.mpr (.inr hname)
      exact ⟨ih hmem hdecl (by omega) (by omega) hs ht, Nat.le_trans hle' hle⟩

theorem publicTour_abreast {decl : FileDecl} {tour tour' : List (NodeId × NodeId)}
    (ha : publicTour (publicFile a₀ files) (files.length + 1) decl = .ok tour)
    (hb : publicTour (publicFile b₀ files') (files'.length + 1) decl = .ok tour') : tour' = tour := by
  obtain ⟨names, hnames, ha⟩ := bind_eq_ok.mp ha
  obtain ⟨_, hnames', hb⟩ := bind_eq_ok.mp hb
  cases hnames.symm.trans hnames'
  obtain ⟨s, hs, ha⟩ := bind_eq_ok.mp ha
  obtain ⟨t, ht, hb⟩ := bind_eq_ok.mp hb
  cases ha
  cases hb
  refine congrArg Prod.snd (foldlM_abreast (R := fun s t => t = s) ?_ rfl hs ht)
  rintro name _ _ s s' t' rfl hs ht
  obtain ⟨p, hp, hs⟩ := bind_eq_ok.mp hs
  obtain ⟨q, hq, ht⟩ := bind_eq_ok.mp ht
  cases h.publicFile_eq hp hq
  obtain ⟨_, hmem, hdecl⟩ := publicFile_eq_ok h.areFiles hp
  have hle : unvisited a₀ files s.1 ≤ files.length := countP_le_length
  have hle' := h.length_le
  exact visit_abreast h _ hmem hdecl (by omega) (by omega) hs ht

end

theorem keeps_bare_addImports (file : NodeId) : ∀ (pairs : List (NodeId × NodeId)) (a : Arena),
    Keeps bare a (addImports file pairs a)
  | [], a => .refl a
  | p :: pairs, a => by
    have hfirst : Keeps bare a (addImport file a p) :=
      ((Keeps.refl a).add _ _ _).modifyFile file fun _ => rfl
    exact hfirst.trans (keeps_bare_addImports file pairs _)

/-- What holds of the arenas of two runs while public imports are followed. -/
structure Abreast (a₀ b₀ : Arena) (files : List NodeId) (a b : Arena) : Prop where
  keep : Keeps bare a₀ a
  keep' : Keeps bare b₀ b
  imports : ∀ id ∈ files, ∃ pairs, Within a₀ files pairs ∧ Imports a id pairs ∧ Imports b id pairs

theorem Abreast.hoistInto (h : Extends a₀ files b₀ files') (habreast : Abreast a₀ b₀ files a b)
    (hfile : file ∈ files) (ha : hoistInto files a file = .ok a')
    (hb : Context.hoistInto files' b file = .ok b') : Abreast a₀ b₀ files a' b' := by
  have hkeep := habreast.keep.settled_of_bare
  have hkeep' := habreast.keep'.settled_of_bare
  obtain ⟨f, hf⟩ := h.areFiles file hfile
  obtain ⟨f', hf', hdecl, _⟩ := h.keep.settled_file? hf
  rw [hoistInto_keep h.areFiles hkeep hf] at ha
  rw [hoistInto_keep h.areFiles' hkeep' hf', hdecl] at hb
  obtain ⟨tour, hsearch, ha⟩ := bind_eq_ok.mp ha
  obtain ⟨_, hsearch', hb⟩ := bind_eq_ok.mp hb
  cases publicTour_abreast h hsearch hsearch'
  cases ha
  cases hb
  obtain ⟨_, _, _, hvisit, hcredits⟩ := visit_publicTour h.areFiles (Nat.lt_succ_self _) hsearch
  have hinside (p : NodeId × NodeId) (hp : p ∈ tour) : p.1 ∈ files :=
    hvisit.inFiles _ (mem_map_of_mem hp)
  rw [tourPairs_keep h.areFiles hkeep hinside, tourPairs_keep h.areFiles (h.keep.trans hkeep') hinside]
  have hpairs : Within a₀ files (tourPairs a₀ tour) := fun q hq => by
    obtain ⟨p, hp, hq⟩ := mem_flatMap.mp hq
    obtain ⟨t, ht, rfl⟩ := mem_map.mp hq
    obtain ⟨g, hg, hhouses⟩ := h.houses p.1 (hinside p hp)
    rw [declaredBy, hg] at ht
    obtain ⟨_, _, hvia⟩ := (hcredits p hp).1
    exact ⟨hhouses.lt_size ht, (mem_of_fileIn? hvia).1⟩
  refine ⟨habreast.keep.trans (keeps_bare_addImports file _ a),
    habreast.keep'.trans (keeps_bare_addImports file _ b), fun id hid => ?_⟩
  obtain ⟨before, hbefore, himports, himports'⟩ := habreast.imports id hid
  by_cases he : file = id
  · subst he
    refine ⟨_, fun p hp => ?_, himports.addImports_self _, himports'.addImports_self _⟩
    exact (mem_append.mp hp).elim (hbefore p) (hpairs p)
  · exact ⟨before, hbefore, himports.addImports_of_ne he _, himports'.addImports_of_ne he _⟩

theorem Abreast.hoistLast (h : Extends a₀ files b₀ files') (habreast : Abreast a₀ b₀ files a b)
    (hlast : last ∈ files') (hnot : last ∉ files) (hb : Context.hoistInto files' b last = .ok b') :
    Abreast a₀ b₀ files a b' := by
  obtain ⟨f, hf⟩ := h.areFiles' last hlast
  rw [hoistInto_keep h.areFiles' habreast.keep'.settled_of_bare hf] at hb
  obtain ⟨_, _, hb⟩ := bind_eq_ok.mp hb
  cases hb
  refine ⟨habreast.keep, habreast.keep'.trans (keeps_bare_addImports last _ b), fun id hid => ?_⟩
  obtain ⟨pairs, hpairs, himports, himports'⟩ := habreast.imports id hid
  have hne : last ≠ id := fun he => hnot (he ▸ hid)
  exact ⟨pairs, hpairs, himports, himports'.addImports_of_ne hne _⟩

/-! ## What a run gives to files -/

/-- Whether two arenas tell the same about files, but for the nodes that are visible in them through
others; the second one has a further file, whose module is not asked for. -/
structure Alike (files : List NodeId) (last : NodeId) (a b : Arena) : Prop where
  files : ∀ id ∈ files, ∃ f l, a.file? id = some f ∧ b.file? id = some { f with imported := l }
  last : ∃ f, b.file? last = some f ∧ f.generate = false

section

variable (hnot : last ∉ files)

include hnot

theorem Alike.modifyFile (h : Alike files last a b) (hid : id ∈ files)
    {change : FileNode → FileNode}
    (hchange : ∀ f l, change { f with imported := l } = { change f with imported := l }) :
    Alike files last (a.modifyFile id change) (b.modifyFile id change) := by
  have hne : id ≠ last := fun he => hnot (he ▸ hid)
  refine ⟨fun j hj => ?_, ?_⟩
  · obtain ⟨f, l, hf, hf'⟩ := h.files j hj
    by_cases he : id = j
    · subst he
      refine ⟨change f, l, file?_modifyFile hf _, ?_⟩
      rw [file?_modifyFile hf', hchange]
    · exact ⟨f, l, (file?_congr (get?_modifyFile_of_ne he _)).trans hf,
        (file?_congr (get?_modifyFile_of_ne he _)).trans hf'⟩
  · obtain ⟨f, hf, hgenerate⟩ := h.last
    exact ⟨f, (file?_congr (get?_modifyFile_of_ne hne _)).trans hf, hgenerate⟩

theorem Alike.select (hext : Extends a₀ files b₀ files') : ∀ (names : List String) (index : Nat)
    {a b a' b' : Arena}, Alike files last a b → Keeps settled a₀ a →
      Keeps settled b₀ b → select files index names a = .ok a' →
      Context.select files' index names b = .ok b' → Alike files last a' b' := by
  intro names
  induction names with
  | nil =>
    intro index a b a' b' h _ _ ha hb
    cases ha
    cases hb
    exact h
  | cons name names ih =>
    intro index a b a' b' h hkeep hkeep' ha hb
    unfold Context.select at ha hb
    obtain ⟨x, hx, ha⟩ := bind_eq_ok.mp ha
    obtain ⟨y, hy, hb⟩ := bind_eq_ok.mp hb
    obtain ⟨rfl, hid⟩ := hext.fileIn_eq hkeep hkeep' hx hy
    refine ih (index + 1) (h.modifyFile hnot hid ?_) ?_ ?_ ha hb
    · exact fun _ _ => rfl
    · exact hkeep.trans ((Keeps.refl a).modifyFile y fun _ => rfl)
    · exact hkeep'.trans ((Keeps.refl b).modifyFile y fun _ => rfl)

theorem Alike.namePackages (options : Options) : ∀ (ids : List NodeId) (used : List String)
    {a b : Arena}, (∀ id ∈ ids, id ∈ files) → Alike files last a b →
      (namePackages options ids (used, b)).1 = (Context.namePackages options ids (used, a)).1 ∧
        Alike files last (Context.namePackages options ids (used, a)).2
          (Context.namePackages options ids (used, b)).2 := by
  intro ids
  induction ids with
  | nil => exact fun _ _ _ _ h => ⟨rfl, h⟩
  | cons id ids ih =>
    intro used a b hids h
    obtain ⟨hid, hids⟩ := forall_mem_cons.mp hids
    obtain ⟨f, l, hf, hf'⟩ := h.files id hid
    simp only [Context.namePackages, hf, hf']
    exact ih _ hids (h.modifyFile hnot hid fun _ _ => rfl)

theorem Alike.nameLast (options : Options) (used : List String) (h : Alike files last a b) :
    Alike files last a (Context.namePackages options [last] (used, b)).2 := by
  obtain ⟨g, hg, hgenerate⟩ := h.last
  simp only [Context.namePackages, hg]
  refine ⟨fun id hid => ?_, ⟨_, file?_modifyFile hg _, hgenerate⟩⟩
  obtain ⟨f, l, hf, hf'⟩ := h.files id hid
  have hne : last ≠ id := fun he => hnot (he ▸ hid)
  exact ⟨f, l, hf, (file?_congr (get?_modifyFile_of_ne hne _)).trans hf'⟩

end

theorem namePackages_append (options : Options) : ∀ (ids more : List NodeId)
    (state : List String × Arena), namePackages options (ids ++ more) state =
      namePackages options more (namePackages options ids state)
  | [], _, _ => rfl
  | id :: ids, more, (used, a) => by
    rw [cons_append, namePackages, namePackages]
    split
    · exact namePackages_append options ids more _
    · exact namePackages_append options ids more _

/-! ## Contexts that agree -/

/-- The names of the types that the files of a run define. -/
def typeNames (ctx : Context) : List String := ctx.typeNodes.map ctx.arena.fullName

/-- Two contexts over the same files, where the second one has a further file. They tell the same
about what was there when the files of the first one were added. -/
structure Agree (base : Arena) (last : NodeId) (ctx ctx' : Context) : Prop
    extends Shares base ctx.arena ctx'.arena where
  houses : ∀ id ∈ ctx.files, ∃ f, base.file? id = some f ∧ base.Houses id f
  options : ctx'.options = ctx.options
  files : ctx'.files = ctx.files ++ [last]
  alike : Alike ctx.files last ctx.arena ctx'.arena
  imports : ∀ id ∈ ctx.files, ∃ pairs, Within base ctx.files pairs ∧
    Imports ctx.arena id pairs ∧ Imports ctx'.arena id pairs
  fileNamed : ∀ {name id}, ctx.fileNamed name = .ok id → ctx'.fileNamed name = .ok id
  lookup : ∀ {typeName node}, ctx.lookup typeName = .ok node → ctx'.lookup typeName = .ok node ∧
    ∃ id ∈ ctx.files, ∃ f, base.Houses id f ∧ node ∈ f.messages ++ f.enums

theorem extends_append
    (hdecls : Forall₂ (fun id decl => ∃ f, a₀.file? id = some f ∧ f.decl = decl) files decls)
    (hhouses : ∀ id ∈ files, ∃ f, a₀.file? id = some f ∧ a₀.Houses id f) (hkeep : Keeps settled a₀ b₀)
    {g : FileNode} (hg : b₀.file? last = some g) (hname : g.decl.name ∉ decls.map (·.name)) :
    Extends a₀ files b₀ (files ++ [last]) := by
  have hfiles : AreFiles a₀ files := fun id hid => (hhouses id hid).imp fun _ h => h.1
  have hfiles' : AreFiles b₀ (files ++ [last]) := fun id hid => by
    rcases mem_append.mp hid with hid | hid
    · obtain ⟨f, hf⟩ := hfiles id hid
      obtain ⟨f', hf', _⟩ := hkeep.settled_file? hf
      exact ⟨f', hf'⟩
    · cases mem_singleton.mp hid
      exact ⟨g, hg⟩
  refine ⟨hhouses, hfiles', hkeep, by simp, fun {b name x} hb hx => ?_⟩
  have hne : (b₀.name last == name) = false := by
    obtain ⟨hmem, rfl⟩ := mem_of_fileIn? hx
    refine beq_eq_false_iff_ne.mpr fun he => hname ?_
    rw [← name_of_file hg, he, ← names_of_forall₂ hdecls]
    exact mem_map_of_mem hmem
  rw [fileIn?_keep hb hfiles']
  unfold fileIn?
  rw [reverse_append, reverse_singleton, singleton_append, find?_cons, hne]
  exact (fileIn?_keep hkeep hfiles name).trans hx

theorem abreast_hoists {a₁ b₁ : Arena} (hext : Extends a₀ files b₀ (files ++ [last])) (hnot : last ∉ files)
    (hblank : ∀ id ∈ files, Imports a₀ id [] ∧ Imports b₀ id [])
    (ha : files.foldlM (hoistInto files) a₀ = .ok a₁)
    (hb : (files ++ [last]).foldlM (hoistInto (files ++ [last])) b₀ = .ok b₁) :
    Abreast a₀ b₀ files a₁ b₁ := by
  rw [foldlM_append] at hb
  obtain ⟨b, hb, hlast⟩ := bind_eq_ok.mp hb
  obtain ⟨b', hlast, heq⟩ := bind_eq_ok.mp hlast
  cases heq
  have hstart : Abreast a₀ b₀ files a₀ b₀ := by
    refine ⟨.refl a₀, .refl b₀, fun id hid => ⟨[], forall_mem_nil _, ?_⟩⟩
    exact hblank id hid
  have hshared := foldlM_abreast (fun id hid {_ _ _ _} h ha hb => h.hoistInto hext hid ha hb) hstart ha hb
  exact hshared.hoistLast hext (by simp) hnot hlast

/-- The type names of the first run mean the same in the second one, when the further file defines
none of them. -/
theorem lookup_append {base : Arena} (hshares : Shares base ctx.arena ctx'.arena)
    (halike : Alike ctx.files last ctx.arena ctx'.arena) (hfiles : ctx'.files = ctx.files ++ [last])
    (hknown : ∀ node ∈ ctx.typeNodes, node < base.size)
    (htypes : ctx.types = typesOf ctx.arena ctx.files)
    (htypes' : ctx'.types = typesOf ctx'.arena ctx'.files)
    (hnew : ∀ node, ctx'.Declares last node → ctx'.arena.fullName node ∉ ctx.typeNames)
    {typeName : String} {node : NodeId} (h : ctx.lookup typeName = .ok node) :
    ctx'.lookup typeName = .ok node := by
  obtain ⟨g, hg, _⟩ := halike.last
  have hnodes : ctx'.typeNodes = ctx.typeNodes ++ (g.messages ++ g.enums) := by
    unfold typeNodes
    rw [hfiles, flatMap_append, flatMap_singleton, hg]
    refine congrArg (· ++ _) (flatMap_congr fun id hid => ?_)
    obtain ⟨f, l, hf, hf'⟩ := halike.files id hid
    rw [hf, hf']
  have hsame : ctx'.typeNodes.map (fun id => (ctx'.arena.fullName id, id)) =
      ctx.typeNodes.map (fun id => (ctx.arena.fullName id, id)) ++
        (g.messages ++ g.enums).map fun id => (ctx'.arena.fullName id, id) := by
    rw [hnodes, map_append]
    refine congrArg (· ++ _) (map_congr_left fun id hid => ?_)
    rw [hshares.fullName (hknown id hid)]
  have hdefined : typeName ∈ ctx.typeNames := by
    by_contra hnot
    rw [lookup_of_undeclared htypes fun file id hd he => ?_] at h
    · cases h
    · exact hnot (he ▸ mem_map_of_mem (mem_typeNodes.mpr ⟨file, hd⟩))
  have hget : ctx'.types.get? typeName = ctx.types.get? typeName := by
    rw [htypes, htypes']
    show (Dictionary.ofPairs (ctx'.typeNodes.map _)).get? typeName =
      (Dictionary.ofPairs (ctx.typeNodes.map _)).get? typeName
    rw [hsame]
    refine Dictionary.get?_ofPairs_append fun hmem => ?_
    rw [map_map] at hmem
    obtain ⟨id, hid, rfl⟩ := mem_map.mp hmem
    exact hnew id ⟨by simp [hfiles], g, hg, hid⟩ hdefined
  rw [lookup_eq_ok] at h ⊢
  rw [hget]
  exact h

theorem agree_build {g : FileDecl} (h : build options decls generate = .ok ctx)
    (h' : build options (decls ++ [g]) generate = .ok ctx') (hname : g.name ∉ decls.map (·.name))
    (hnew : ∀ node ∈ ctx'.typeNodes, (ctx'.arena.fileDecl node).name = g.name →
      ctx'.arena.fullName node ∉ ctx.typeNames) :
    (∃ base last, Agree base last ctx ctx') ∧ ∀ id ∈ ctx.files, ctx.arena.name id ≠ g.name := by
  obtain ⟨a₀, a₁, a₂, hadd, hhoist, hselect, harena, htypes, hoptions⟩ := build_steps h
  obtain ⟨b₀, b₁, b₂, hadd', hhoist', hselect', harena', htypes', hoptions'⟩ := build_steps h'
  obtain ⟨_, _, more, hfirst, hmore, hfiles⟩ := addFiles_append decls [g] hadd'
  cases hadd.symm.trans hfirst
  obtain ⟨⟨last, b⟩, hfile, hmore⟩ := bind_eq_ok.mp hmore
  cases hmore
  have hclosed : a₀.Closed := closed_addFiles decls (fun _ _ hn => by cases hn) hadd
  obtain ⟨_, _, _, hdecls, hall⟩ := houses_addFiles decls hadd
  obtain ⟨hlast, hmirrors⟩ := mirrors_of_addFile hfile
  have hg' : b₀.file? last = some (g.fileNode last) := hlast ▸ hmirrors.file?
  have hhouses' : b₀.Houses last (g.fileNode last) := hlast ▸ hmirrors.houses
  have hbare : Keeps bare a₀ b₀ := hmirrors.keeps
  have hext := extends_append hdecls (fun id hid => (hall id hid).imp fun _ h =>
    ⟨h.1, h.2.2⟩) hbare.settled_of_bare hg' hname
  have hnot : last ∉ ctx.files := fun hmem => by
    obtain ⟨f, hf⟩ := hext.areFiles last hmem
    exact absurd (lt_size_of_file? hf) (hlast ▸ Nat.lt_irrefl _)
  rw [hfiles] at hhoist' hselect' harena'
  have hblanks : ∀ id ∈ ctx.files, Imports a₀ id [] ∧ Imports b₀ id [] := fun id hid => by
    obtain ⟨f, hf, hblank, _⟩ := hall id hid
    have hf' := (file?_congr (hmirrors.same id (lt_size_of_file? hf))).trans hf
    exact ⟨⟨f, hf, hblank.1 ▸ .nil⟩, f, hf', hblank.1 ▸ .nil⟩
  have habreast := abreast_hoists hext hnot hblanks hhoist hhoist'
  have hkeep₁ := habreast.keep.settled_of_bare
  have hkeep₁' := habreast.keep'.settled_of_bare
  have halike₁ : Alike ctx.files last a₁ b₁ := by
    refine ⟨fun id hid => ?_, ?_⟩
    · obtain ⟨f, hf⟩ := hext.areFiles id hid
      obtain ⟨l, hl⟩ := habreast.keep.bare_file? hf
      obtain ⟨l', hl'⟩ := (hbare.trans habreast.keep').bare_file? hf
      exact ⟨_, l', hl, hl'⟩
    · obtain ⟨l, hl⟩ := habreast.keep'.bare_file? hg'
      exact ⟨_, hl, rfl⟩
  have halike₂ := halike₁.select hnot hext generate 0 hkeep₁ hkeep₁' hselect hselect'
  have hnamed : Keeps unnamed a₁ ctx.arena :=
    harena ▸ (keeps_select generate 0 hselect).trans (keeps_namePackages options _ _ a₂)
  have hnamed' : Keeps unnamed b₁ ctx'.arena :=
    harena' ▸ (keeps_select generate 0 hselect').trans (keeps_namePackages options _ _ b₂)
  have hkeep := hkeep₁.trans (settled_of_unnamed hnamed)
  have hkeep' := hkeep₁'.trans (settled_of_unnamed hnamed')
  have halike : Alike ctx.files last ctx.arena ctx'.arena := by
    rw [harena, harena', namePackages_append]
    exact (halike₂.namePackages hnot options ctx.files reservedPackages fun _ hid => hid).2.nameLast hnot
      options _
  have hdeclares {file node : NodeId} (hd : ctx.Declares file node) :
      ∃ f, a₀.file? file = some f ∧ a₀.Houses file f ∧ node ∈ f.messages ++ f.enums := by
    obtain ⟨hmem, f', hf', hnode⟩ := hd
    obtain ⟨f, hf, hhouses⟩ := hext.houses file hmem
    obtain ⟨f'', hf'', _, hmessages, henums, _⟩ := hkeep.settled_file? hf
    cases hf'.symm.trans hf''
    exact ⟨f, hf, hhouses, hmessages ▸ henums ▸ hnode⟩
  have hshares : Shares a₀ ctx.arena ctx'.arena := ⟨hclosed, hkeep, hext.keep.trans hkeep'⟩
  have hother (id : NodeId) (hid : id ∈ ctx.files) : ctx.arena.name id ≠ g.name := by
    obtain ⟨f, hf⟩ := hext.areFiles id hid
    obtain ⟨f', hf', hdecl, _⟩ := hkeep.settled_file? hf
    rw [name_of_file hf', hdecl, ← name_of_file hf]
    exact fun he => hname (he ▸ names_of_forall₂ hdecls ▸ mem_map_of_mem hid)
  refine ⟨⟨a₀, last, hshares, hext.houses, ?_, hfiles, halike,
    fun id hid => ?_, fun {name id} hid => ?_, fun {typeName node} hlookup => ⟨?_, ?_⟩⟩, hother⟩
  · rw [hoptions, hoptions']
  · obtain ⟨pairs, hpairs, himports, himports'⟩ := habreast.imports id hid
    exact ⟨pairs, hpairs, himports.keep_unnamed hnamed, himports'.keep_unnamed hnamed'⟩
  · have hfound := fileIn_eq_ok.mp (mapError_eq_ok.mpr hid)
    rw [fileIn?_keep hkeep hext.areFiles] at hfound
    refine mapError_eq_ok.mp (fileIn_eq_ok.mpr ?_)
    rw [hfiles]
    exact hext.found hkeep' hfound
  · refine lookup_append hshares halike hfiles (fun node hnode => ?_) htypes
      htypes' (fun node hd => hnew node (mem_typeNodes.mpr ⟨last, hd⟩) ?_) hlookup
    · obtain ⟨file, hd⟩ := mem_typeNodes.mp hnode
      obtain ⟨f, _, hhouses, hmem⟩ := hdeclares hd
      exact hhouses.lt_size (mem_append_left _ hmem)
    · obtain ⟨_, f, hf, hnode⟩ := hd
      obtain ⟨f', hf', hdecl, hmessages, henums, _⟩ := hkeep'.settled_file? hg'
      cases hf.symm.trans hf'
      rw [hmessages, henums] at hnode
      have hkept := hhouses'.keep hg' hkeep'.sort_of_settled
      rw [fileDecl, hkept.fileOf (mem_append_left _ hnode), hf, Option.map_some,
        Option.getD_some, hdecl]
      rfl
  · obtain ⟨id, hid, f, hf, hnode⟩ := types_of_lookup htypes hlookup
    obtain ⟨f, _, hhouses, hmem⟩ := hdeclares ⟨hid, f, hf, hnode⟩
    exact ⟨id, hid, f, hhouses, hmem⟩

end Context

end Protobind
