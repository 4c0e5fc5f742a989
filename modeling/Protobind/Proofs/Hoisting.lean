import Mathlib.Logic.Relation
import Protobind.Compile.Context
import Protobind.Proofs.Nodes

/-!
# Public imports

A file makes visible what it reaches by one or more public imports. The visited files are closed
under public imports (`Visit`). What is made visible is credited to the public import through which
it was reached first (`Tour.sound`), and nothing that can be reached is missing (`Tour.complete`).
-/

namespace Protobind

open List Arena NodeKind

variable {a b a₀ : Arena} {files new : List NodeId} {id file via x : NodeId} {f : FileNode}
  {name : String} {visited visited' : List String} {roots roots' : NodeId → Prop}

namespace Context

/-! ## The files of a run -/

/-- Whether a file imports another one publicly. -/
def PublicStep (a : Arena) (files : List NodeId) (x y : NodeId) : Prop :=
  ∃ f names name, a.file? x = some f ∧ f.decl.publicNames = .ok names ∧ name ∈ names ∧
    fileIn? a files name = some y

theorem publicStep_iff {names : List String} {y : NodeId} (hf : a.file? x = some f)
    (hnames : f.decl.publicNames = .ok names) :
    PublicStep a files x y ↔ ∃ name ∈ names, fileIn? a files name = some y := by
  constructor
  · rintro ⟨f', names', name, hf', hnames', hmem, hy⟩
    cases hf.symm.trans hf'
    cases hnames.symm.trans hnames'
    exact ⟨name, hmem, hy⟩
  · rintro ⟨name, hmem, hy⟩
    exact ⟨f, names, name, hf, hnames, hmem, hy⟩

theorem mem_of_fileIn? (h : fileIn? a files name = some id) : id ∈ files ∧ a.name id = name := by
  unfold fileIn? at h
  refine ⟨mem_reverse.mp (mem_of_find?_eq_some h), ?_⟩
  simpa using find?_some h

theorem PublicStep.mem {y : NodeId} (h : PublicStep a files x y) : y ∈ files := by
  obtain ⟨_, _, _, _, _, _, hy⟩ := h
  exact (mem_of_fileIn? hy).1

/-- Whether all of some numbers are files of an arena. -/
def AreFiles (a : Arena) (files : List NodeId) : Prop := ∀ id ∈ files, ∃ f, a.file? id = some f

end Context

theorem Arena.Keeps.settled_file? (h : Keeps settled a b) (hf : a.file? id = some f) :
    ∃ g, b.file? id = some g ∧ g.decl = f.decl ∧ g.messages = f.messages ∧ g.enums = f.enums ∧
      g.extensions = f.extensions := by
  obtain ⟨kind, hkind, hview, _⟩ := h.kind? (file?_eq_some.mp hf)
  cases kind with
  | file g =>
    injection hview with hview
    injection hview with hdecl hmessages henums hextensions
    exact ⟨g, file?_eq_some.mpr hkind, hdecl, hmessages, henums, hextensions⟩
  | _ => cases hview

namespace Context

section

variable (h : Keeps settled a b)
include h

theorem name_keep (hf : a.file? id = some f) : b.name id = a.name id := by
  obtain ⟨g, hg, hdecl, _⟩ := h.settled_file? hf
  rw [name_of_file hf, name_of_file hg, hdecl]

theorem fileIn?_keep (hfiles : AreFiles a files) (name : String) :
    fileIn? b files name = fileIn? a files name := by
  have hsame : ∀ id ∈ files.reverse, (b.name id == name) = (a.name id == name) := by
    intro id hid
    obtain ⟨f, hf⟩ := hfiles id (mem_reverse.mp hid)
    rw [name_keep h hf]
  unfold fileIn?
  rw [← head?_filter, ← head?_filter, filter_congr hsame]

theorem declaredBy_keep (hf : a.file? id = some f) : declaredBy b id = declaredBy a id := by
  obtain ⟨g, hg, _, hmessages, henums, hextensions⟩ := h.settled_file? hf
  unfold declaredBy
  rw [hf, hg]
  show declared g = declared f
  unfold declared
  rw [hmessages, henums, hextensions]

end

/-! ## Making nodes visible -/

theorem keeps_addImport (file : NodeId) (a : Arena) (p : NodeId × NodeId) :
    Keeps settled a (addImport file a p) :=
  ((Keeps.refl a).add _ _ _).modifyFile file fun _ => rfl

theorem keeps_addImports (file : NodeId) : ∀ (pairs : List (NodeId × NodeId)) (a : Arena),
    Keeps settled a (addImports file pairs a)
  | [], a => .refl a
  | p :: pairs, a => (keeps_addImport file a p).trans (keeps_addImports file pairs _)

/-! ## The search -/

/-- What a part of the search does: the files in `new` are visited, in this order. The search starts
at some roots, and `visited` becomes `visited'`. -/
structure Visit (a : Arena) (files : List NodeId) (roots : NodeId → Prop)
    (visited visited' : List String) (new : List NodeId) : Prop where
  names : visited' = (new.map a.name).reverse ++ visited
  inFiles : ∀ x ∈ new, x ∈ files
  once : (new.map a.name).Nodup
  fresh : ∀ x ∈ new, a.name x ∉ visited
  reach : ∀ x ∈ new, ∃ r, roots r ∧ Relation.ReflTransGen (PublicStep a files) r x
  closed : ∀ x ∈ new, ∀ y, PublicStep a files x y → a.name y ∈ visited'
  started : ∀ r, roots r → a.name r ∈ visited'

namespace Visit

variable {visited'' : List String} {new' : List NodeId}

theorem nil (h : ∀ r, roots r → a.name r ∈ visited) : Visit a files roots visited visited [] where
  names := rfl
  inFiles _ hx := absurd hx not_mem_nil
  once := .nil
  fresh _ hx := absurd hx not_mem_nil
  reach _ hx := absurd hx not_mem_nil
  closed _ hx := absurd hx not_mem_nil
  started := h

theorem mem_names (h : Visit a files roots visited visited' new) :
    name ∈ visited' ↔ (∃ x ∈ new, a.name x = name) ∨ name ∈ visited := by
  rw [h.names, mem_append, mem_reverse, mem_map]

theorem append (h : Visit a files roots visited visited' new)
    (h' : Visit a files roots' visited' visited'' new') :
    Visit a files (fun r => roots r ∨ roots' r) visited visited'' (new ++ new') where
  names := by rw [h'.names, h.names, map_append, reverse_append, append_assoc]
  inFiles x hx := (mem_append.mp hx).elim (h.inFiles x) (h'.inFiles x)
  once := by
    rw [map_append]
    refine List.Nodup.append h.once h'.once fun name hnew hnew' => ?_
    obtain ⟨x, hx, rfl⟩ := mem_map.mp hnew
    obtain ⟨y, hy, hname⟩ := mem_map.mp hnew'
    exact h'.fresh y hy (h.mem_names.mpr (.inl ⟨x, hx, hname.symm⟩))
  fresh x hx := by
    rcases mem_append.mp hx with hx | hx
    · exact h.fresh x hx
    · exact fun hvisited => h'.fresh x hx (h.mem_names.mpr (.inr hvisited))
  reach x hx := by
    rcases mem_append.mp hx with hx | hx
    · obtain ⟨r, hr, hreach⟩ := h.reach x hx
      exact ⟨r, .inl hr, hreach⟩
    · obtain ⟨r, hr, hreach⟩ := h'.reach x hx
      exact ⟨r, .inr hr, hreach⟩
  closed x hx y hy := by
    rcases mem_append.mp hx with hx | hx
    · exact h'.mem_names.mpr (.inr (h.closed x hx y hy))
    · exact h'.closed x hx y hy
  started r hr := by
    rcases hr with hr | hr
    · exact h'.mem_names.mpr (.inr (h.started r hr))
    · exact h'.started r hr

/-- A file that was not visited is visited before those that it imports publicly. -/
theorem cons (hx : x ∈ files) (hfresh : a.name x ∉ visited)
    (h : Visit a files (PublicStep a files x) (a.name x :: visited) visited' new) :
    Visit a files (· = x) visited visited' (x :: new) where
  names := by rw [h.names, map_cons, reverse_cons, append_assoc]; rfl
  inFiles y hy := (mem_cons.mp hy).elim (fun e => e ▸ hx) (h.inFiles y)
  once := by
    rw [map_cons]
    refine nodup_cons.mpr ⟨fun hmem => ?_, h.once⟩
    obtain ⟨y, hy, hname⟩ := mem_map.mp hmem
    exact h.fresh y hy (hname ▸ mem_cons_self)
  fresh y hy := by
    rcases mem_cons.mp hy with rfl | hy
    · exact hfresh
    · exact fun hvisited => h.fresh y hy (mem_cons_of_mem _ hvisited)
  reach y hy := by
    rcases mem_cons.mp hy with rfl | hy
    · exact ⟨y, rfl, .refl⟩
    · obtain ⟨r, hr, hreach⟩ := h.reach y hy
      exact ⟨x, rfl, .head hr hreach⟩
  closed y hy z hz := by
    rcases mem_cons.mp hy with rfl | hy
    · exact h.started z hz
    · exact h.closed y hy z hz
  started r hr := hr ▸ h.mem_names.mpr (.inr mem_cons_self)

end Visit

theorem Visit.of_roots (h : Visit a files roots visited visited' new)
    (hroots : ∀ r, roots r ↔ roots' r) : Visit a files roots' visited visited' new := by
  obtain rfl : roots = roots' := funext fun r => propext (hroots r)
  exact h

theorem fileIn_eq_ok : (fileIn a files name).mapError GenerateError.reported = .ok id ↔
      fileIn? a files name = some id := by
  unfold fileIn
  cases fileIn? a files name with
  | none => constructor <;> intro h <;> cases h
  | some id' => constructor <;> intro h <;> cases h <;> rfl

/-- The number of files that are not visited yet. -/
def unvisited (a : Arena) (files : List NodeId) (visited : List String) : Nat :=
  files.countP fun x => !visited.contains (a.name x)

theorem unvisited_le (h : ∀ name ∈ visited, name ∈ visited') :
    unvisited a files visited' ≤ unvisited a files visited := by
  refine countP_mono_left fun x _ hx => ?_
  simp only [Bool.not_eq_true', contains_eq_mem, decide_eq_false_iff_not] at hx ⊢
  exact fun hmem => hx (h _ hmem)

theorem unvisited_lt (hx : x ∈ files) (hfresh : a.name x ∉ visited) :
    unvisited a files (a.name x :: visited) < unvisited a files visited := by
  obtain ⟨before, after, rfl⟩ := append_of_mem hx
  have hle (files : List NodeId) : unvisited a files (a.name x :: visited) ≤ unvisited a files visited :=
    unvisited_le fun n hn => mem_cons_of_mem (a.name x) hn
  have hbefore := hle before
  have hafter := hle after
  unfold unvisited at hbefore hafter ⊢
  rw [countP_append, countP_append, countP_cons, countP_cons, if_neg (by simp), if_pos (by simpa using hfresh)]
  omega

section

variable (hfiles : AreFiles a files)
include hfiles

theorem publicFile_eq_ok {p : NodeId × FileDecl} (h : publicFile a files name = .ok p) :
    fileIn? a files name = some p.1 ∧ p.1 ∈ files ∧ ∃ f, a.file? p.1 = some f ∧ f.decl = p.2 := by
  obtain ⟨x, hx, h⟩ := bind_eq_ok.mp h
  have hx := fileIn_eq_ok.mp hx
  obtain ⟨hmem, _⟩ := mem_of_fileIn? hx
  obtain ⟨f, hf⟩ := hfiles x hmem
  rw [hf] at h
  cases h
  exact ⟨hx, hmem, f, hf, rfl⟩

/-- The files that are imported under some names are visited one after another. What is seen from each of
them is credited to a file that it determines. -/
theorem visit_names {fuel : Nat} (via : NodeId → NodeId)
    (hstep : ∀ (p : NodeId × FileDecl) (s s' : Search), p.1 ∈ files →
      (∃ f, a.file? p.1 = some f ∧ f.decl = p.2) → unvisited a files s.1 < fuel →
      visit (publicFile a files) (via p.1) fuel p s = .ok s' →
      ∃ new, Visit a files (· = p.1) s.1 s'.1 new ∧ s'.2 = s.2 ++ new.map fun x => (x, via p.1)) :
    ∀ (names : List String) (s s' : Search), unvisited a files s.1 < fuel →
      names.foldlM
        (fun state name => do
          let p ← publicFile a files name
          visit (publicFile a files) (via p.1) fuel p state) s = .ok s' →
      ∃ tour : List (NodeId × NodeId), s'.2 = s.2 ++ tour ∧
        Visit a files (fun r => ∃ name ∈ names, fileIn? a files name = some r) s.1 s'.1
          (tour.map (·.1)) ∧
        ∀ p ∈ tour, ∃ r, p.2 = via r ∧ (∃ name ∈ names, fileIn? a files name = some r) ∧
          Relation.ReflTransGen (PublicStep a files) r p.1
  | [], s, s', _, h => by
    cases h
    refine ⟨[], (append_nil _).symm, .nil fun r hr => ?_, forall_mem_nil _⟩
    obtain ⟨_, hname, _⟩ := hr
    cases hname
  | name :: names, s, s', hfuel, h => by
    rw [foldlM_cons] at h
    obtain ⟨s₁, hfirst, h⟩ := bind_eq_ok.mp h
    obtain ⟨⟨x, decl⟩, hx, hfirst⟩ := bind_eq_ok.mp hfirst
    obtain ⟨hx, hmem, hdecl⟩ := publicFile_eq_ok hfiles hx
    obtain ⟨new, hvisit, hnew⟩ := hstep _ _ _ hmem hdecl hfuel hfirst
    have hfuel₁ : unvisited a files s₁.1 < fuel :=
      Nat.lt_of_le_of_lt (unvisited_le fun n hn => hvisit.mem_names.mpr (.inr hn)) hfuel
    obtain ⟨tour, hrest, hvisit', htour⟩ := visit_names via hstep names _ _ hfuel₁ h
    refine ⟨new.map (fun y => (y, via x)) ++ tour, ?_, ?_, fun p hp => ?_⟩
    · rw [hrest, hnew, append_assoc]
    · rw [map_append, map_map, Function.comp_def, map_id']
      refine (hvisit.append hvisit').of_roots fun r => ?_
      simp only [mem_cons, exists_eq_or_imp, hx, Option.some.injEq]
      rw [eq_comm]
    · rcases mem_append.mp hp with hp | hp
      · obtain ⟨y, hy, rfl⟩ := mem_map.mp hp
        obtain ⟨_, rfl, hreach⟩ := hvisit.reach y hy
        exact ⟨_, rfl, ⟨name, mem_cons_self, hx⟩, hreach⟩
      · obtain ⟨r, hcredit, ⟨n, hn, hr⟩, hreach⟩ := htour p hp
        exact ⟨r, hcredit, ⟨n, mem_cons_of_mem _ hn, hr⟩, hreach⟩

/-- The search from a file visits everything that can be reached and was not visited. -/
theorem visit_visit : ∀ (fuel : Nat) (p : NodeId × FileDecl) (s s' : Search), p.1 ∈ files →
      (∃ f, a.file? p.1 = some f ∧ f.decl = p.2) → unvisited a files s.1 < fuel →
      visit (publicFile a files) via fuel p s = .ok s' →
      ∃ new, Visit a files (· = p.1) s.1 s'.1 new ∧ s'.2 = s.2 ++ new.map fun x => (x, via)
  | 0, _, _, _, _, _, hfuel, _ => absurd hfuel (Nat.not_lt_zero _)
  | fuel + 1, (x, decl), (visited, tour), s', hx, ⟨f, hf, hdecl⟩, hfuel, h => by
    have hname : decl.name = a.name x := by rw [name_of_file hf, hdecl]
    simp only [visit, hname] at h
    split at h
    · rename_i hseen
      cases h
      exact ⟨[], .nil fun r hr => by simpa [hr] using hseen, (append_nil _).symm⟩
    · rename_i hseen
      have hfresh : a.name x ∉ visited := by simpa using hseen
      obtain ⟨names, hnames, h⟩ := bind_eq_ok.mp h
      have hfuel' : unvisited a files (a.name x :: visited) < fuel :=
        Nat.lt_of_lt_of_le (unvisited_lt hx hfresh) (Nat.le_of_lt_succ hfuel)
      obtain ⟨more, htour, hvisit, hcredits⟩ := visit_names hfiles (fun _ => via) (visit_visit fuel) names
        (a.name x :: visited, tour ++ [(x, via)]) _ hfuel' h
      have hcredit : (more.map (·.1)).map (fun y => (y, via)) = more := by
        rw [map_map]
        refine (map_congr_left fun p hp => ?_).trans (map_id more)
        obtain ⟨_, hvia, _⟩ := hcredits p hp
        exact Prod.ext rfl hvia.symm
      refine ⟨x :: more.map (·.1), .cons hx hfresh (hvisit.of_roots fun r => ?_), ?_⟩
      · exact (publicStep_iff hf (hdecl ▸ hnames)).symm
      · rw [map_cons, hcredit, htour, append_assoc]
        rfl

/-- What the search from a file comes to, by way of the names of its public imports. -/
theorem visit_publicTour {decl : FileDecl} {tour : List (NodeId × NodeId)} {fuel : Nat}
    (hfuel : files.length < fuel) (h : publicTour (publicFile a files) fuel decl = .ok tour) :
    ∃ names visited, decl.publicNames = .ok names ∧
      Visit a files (fun r => ∃ name ∈ names, fileIn? a files name = some r) [] visited
        (tour.map (·.1)) ∧
      ∀ p ∈ tour, (∃ name ∈ names, fileIn? a files name = some p.2) ∧
        Relation.ReflTransGen (PublicStep a files) p.2 p.1 := by
  obtain ⟨names, hnames, h⟩ := bind_eq_ok.mp h
  obtain ⟨⟨visited, _⟩, hrun, h⟩ := bind_eq_ok.mp h
  cases h
  obtain ⟨_, rfl, hvisit, hcredits⟩ := visit_names hfiles id (fun p => visit_visit hfiles _ p) names ([], []) _
    (Nat.lt_of_le_of_lt countP_le_length hfuel) hrun
  refine ⟨names, visited, hnames, hvisit, fun p hp => ?_⟩
  obtain ⟨_, rfl, hroot⟩ := hcredits p hp
  exact hroot

end

/-! ## What a file makes visible -/

/-- The files that a file makes visible, each with the public import it is credited to. -/
structure Tour (a : Arena) (files : List NodeId) (file : NodeId) (tour : List (NodeId × NodeId)) :
    Prop where
  once : (tour.map (·.1)).Nodup
  sound : ∀ p ∈ tour, PublicStep a files file p.2 ∧
    Relation.ReflTransGen (PublicStep a files) p.2 p.1
  complete : ∀ v x, PublicStep a files file v → Relation.ReflTransGen (PublicStep a files) v x →
    ∃ via, (x, via) ∈ tour

theorem Tour.mem {tour : List (NodeId × NodeId)} (h : Tour a files file tour) {p : NodeId × NodeId}
    (hp : p ∈ tour) : p.1 ∈ files := by
  obtain ⟨hstep, hreach⟩ := h.sound p hp
  rcases hreach.cases_tail with heq | ⟨_, _, hlast⟩
  · exact heq ▸ hstep.mem
  · exact hlast.mem

section

variable (hfiles : AreFiles a₀ files)
include hfiles

/-- The search from a file does not depend on what was made visible. -/
theorem hoistInto_keep (hkeep : Keeps settled a₀ a) (hf : a₀.file? file = some f) :
    hoistInto files a file = (do
      let tour ← publicTour (publicFile a₀ files) (files.length + 1) f.decl
      pure (addImports file (tourPairs a tour) a)) := by
  obtain ⟨g, hg, hdecl, _⟩ := hkeep.settled_file? hf
  have hfind : publicFile a files = publicFile a₀ files := by
    funext name
    unfold publicFile fileIn
    rw [fileIn?_keep hkeep hfiles]
    cases hx : fileIn? a₀ files name with
    | none => rfl
    | some x =>
      obtain ⟨f, hf⟩ := hfiles x (mem_of_fileIn? hx).1
      obtain ⟨g, hg, hdecl, _⟩ := hkeep.settled_file? hf
      show Except.ok (x, ((a.file? x).map (·.decl)).getD {}) = .ok (x, ((a₀.file? x).map (·.decl)).getD {})
      rw [hf, hg, Option.map_some, Option.map_some, hdecl]
  simp only [hoistInto, hg, hdecl, hfind]

theorem tourPairs_keep (hkeep : Keeps settled a₀ a) {tour : List (NodeId × NodeId)}
    (htour : ∀ p ∈ tour, p.1 ∈ files) : tourPairs a tour = tourPairs a₀ tour := by
  refine flatMap_congr fun p hp => ?_
  obtain ⟨f, hf⟩ := hfiles p.1 (htour p hp)
  rw [declaredBy_keep hkeep hf]

/-- A file makes visible what can be reached by one or more public imports. -/
theorem tour_hoistInto (hnames : (files.map a₀.name).Nodup) {a' : Arena} (hfile : file ∈ files)
    (hkeep : Keeps settled a₀ a) (h : hoistInto files a file = .ok a') :
    ∃ tour, Tour a₀ files file tour ∧ a' = addImports file (tourPairs a₀ tour) a := by
  obtain ⟨f, hf⟩ := hfiles file hfile
  rw [hoistInto_keep hfiles hkeep hf] at h
  obtain ⟨tour, hsearch, h⟩ := bind_eq_ok.mp h
  cases h
  obtain ⟨names, visited, hpublic, hvisit, hcredits⟩ := visit_publicTour hfiles (Nat.lt_succ_self _) hsearch
  have hstep {v : NodeId} : PublicStep a₀ files file v ↔ _ := publicStep_iff hf hpublic
  -- A visited name is the name of one file only, so the visited files are closed as files.
  have hvisited {x : NodeId} (hx : x ∈ files) (hname : a₀.name x ∈ visited) : x ∈ tour.map (·.1) := by
    rcases hvisit.mem_names.mp hname with ⟨y, hy, hsame⟩ | hmem
    · exact inj_on_of_nodup_map hnames (hvisit.inFiles y hy) hx hsame ▸ hy
    · cases hmem
  refine ⟨tour, ⟨?_, fun p hp => ?_, fun v x hv hreach => ?_⟩, ?_⟩
  · exact List.Nodup.of_map a₀.name hvisit.once
  · exact ⟨hstep.mpr (hcredits p hp).1, (hcredits p hp).2⟩
  · have hmem : x ∈ tour.map (·.1) := by
      induction hreach with
      | refl => exact hvisited hv.mem (hvisit.started v (hstep.mp hv))
      | tail _ hnext ih => exact hvisited hnext.mem (hvisit.closed _ ih _ hnext)
    obtain ⟨⟨_, via⟩, hp, rfl⟩ := mem_map.mp hmem
    exact ⟨via, hp⟩
  · rw [tourPairs_keep hfiles hkeep fun p hp => hvisit.inFiles _ (mem_map_of_mem hp)]

end

/-! ## The nodes for what is visible -/

/-- Whether a file has nodes for the given things, in this order: the first of a pair is what is
made visible, and the second provides it. -/
def Imports (a : Arena) (file : NodeId) (pairs : List (NodeId × NodeId)) : Prop :=
  ∃ f, a.file? file = some f ∧
    Forall₂ (fun i p => a.fileOf i = file ∧ a.kind? i = some (.imported p.1 p.2))
      f.imported pairs

theorem imported_keep (h : Keeps settled a b) {i target : NodeId}
    (hi : a.fileOf i = file ∧ a.kind? i = some (.imported target via)) :
    b.fileOf i = file ∧ b.kind? i = some (.imported target via) := by
  obtain ⟨kind, hkind, hview, hfile⟩ := h.kind? hi.2
  refine ⟨hfile.trans hi.1, ?_⟩
  cases kind with
  | imported target' via' =>
    cases hview
    exact hkind
  | _ => cases hview

namespace Imports

variable {other : NodeId} {pairs : List (NodeId × NodeId)}

theorem keep {g : FileNode} (h : Imports a file pairs) (hf : a.file? file = some f)
    (hg : b.file? file = some g) (himported : g.imported = f.imported)
    (hkeep : Keeps settled a b) : Imports b file pairs := by
  obtain ⟨f', hf', hall⟩ := h
  cases hf.symm.trans hf'
  refine ⟨g, hg, ?_⟩
  rw [himported]
  exact hall.imp fun _ _ hi => imported_keep hkeep hi

theorem addImport_self (h : Imports a file pairs) (p : NodeId × NodeId) :
    Imports (addImport file a p) file (pairs ++ [p]) := by
  obtain ⟨f, hf, hall⟩ := h
  have hlt : file < a.size := lt_size_of_file? hf
  have hadded : (a.add (some file) (some file) (.imported p.1 p.2)).2.file? file = some f := by
    refine (file?_congr ?_).trans hf
    rw [get?_add, if_neg (Nat.ne_of_lt hlt)]
  refine ⟨_, file?_modifyFile hadded _, rel_append ?_ (.cons ?_ .nil)⟩
  · exact hall.imp fun _ _ hi => imported_keep (keeps_addImport file a p) hi
  · have hget : (addImport file a p).get? a.size = some
        { id := a.size, file := file, parent? := some file, kind := .imported p.1 p.2 } := by
      unfold addImport
      rw [get?_modifyFile_of_ne (Nat.ne_of_lt hlt), get?_add, if_pos rfl]
      rfl
    exact ⟨fileOf_of_get? hget, kind?_of_get? hget⟩

theorem addImport_of_ne (h : Imports a other pairs) (hne : file ≠ other) (p : NodeId × NodeId) :
    Imports (addImport file a p) other pairs := by
  obtain ⟨f, hf, hall⟩ := h
  have hf' : (addImport file a p).file? other = some f := by
    refine (file?_congr ?_).trans hf
    unfold addImport
    rw [get?_modifyFile_of_ne hne, get?_add, if_neg (Nat.ne_of_lt (lt_size_of_file? hf))]
  exact ⟨f, hf', hall.imp fun _ _ hi => imported_keep (keeps_addImport file a p) hi⟩

theorem addImports_self : ∀ {a : Arena} {pairs : List (NodeId × NodeId)} (more : List (NodeId × NodeId)),
    Imports a file pairs → Imports (addImports file more a) file (pairs ++ more)
  | _, pairs, [], h => by
    rw [append_nil]
    exact h
  | _, pairs, p :: more, h => by
    have hrest := addImports_self more (h.addImport_self p)
    rw [append_assoc] at hrest
    exact hrest

theorem addImports_of_ne (hne : file ≠ other) : ∀ {a : Arena} (more : List (NodeId × NodeId)),
    Imports a other pairs → Imports (addImports file more a) other pairs
  | _, [], h => h
  | _, p :: more, h => addImports_of_ne hne more (h.addImport_of_ne hne p)

end Imports

/-- Every file makes visible what it reaches by public imports, in the order of its tour. -/
theorem tours_foldlM (hfiles : AreFiles a₀ files) (hnames : (files.map a₀.name).Nodup) :
    ∀ (ids : List NodeId) {a a' : Arena}, ids.Nodup →
      (∀ id ∈ ids, id ∈ files) → Keeps settled a₀ a →
      (∀ id ∈ ids, Imports a id []) → ids.foldlM (hoistInto files) a = .ok a' →
      Keeps settled a₀ a' ∧
        (∀ id ∈ ids, ∃ tour, Tour a₀ files id tour ∧ Imports a' id (tourPairs a₀ tour)) ∧
        ∀ other pairs, other ∉ ids → Imports a other pairs → Imports a' other pairs
  | [], a, a', _, _, hkeep, _, h => by
    cases h
    exact ⟨hkeep, forall_mem_nil _, fun _ _ _ h => h⟩
  | id :: ids, a, a', hnodup, hmem, hkeep, hblank, h => by
    rw [foldlM_cons] at h
    obtain ⟨a₁, hfirst, h⟩ := bind_eq_ok.mp h
    obtain ⟨hnot, hnodup⟩ := nodup_cons.mp hnodup
    obtain ⟨tour, htour, rfl⟩ := tour_hoistInto hfiles hnames (hmem id mem_cons_self) hkeep hfirst
    have hself := (hblank id mem_cons_self).addImports_self (tourPairs a₀ tour)
    rw [nil_append] at hself
    have hne {other : NodeId} (hother : other ∈ ids) : id ≠ other := fun he => hnot (he ▸ hother)
    obtain ⟨hkeep', htours, hothers⟩ := tours_foldlM hfiles hnames ids hnodup
      (fun x hx => hmem x (mem_cons_of_mem _ hx)) (hkeep.trans (keeps_addImports id _ a))
      (fun x hx => (hblank x (mem_cons_of_mem _ hx)).addImports_of_ne (hne hx) _) h
    refine ⟨hkeep', fun x hx => ?_, fun other pairs hother hpairs => ?_⟩
    · rcases mem_cons.mp hx with rfl | hx
      · exact ⟨tour, htour, hothers x _ hnot hself⟩
      · exact htours x hx
    · rw [mem_cons, not_or] at hother
      exact hothers other pairs hother.2 (hpairs.addImports_of_ne (Ne.symm hother.1) _)

end Context

end Protobind
