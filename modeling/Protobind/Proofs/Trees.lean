import Mathlib.Data.List.Forall2
import Protobind.Proofs.Nodes
import Protobind.Proofs.Sites

/-!
# Trees of files

Everything that a file declares gets one node, at its place. So the counts that are taken when
messages are linked agree with the declarations, and the tree of a file mirrors its declaration
(`Arena.Mirrors`).
-/

namespace Protobind

open List

variable {decl : FileDecl} {file id parent : Nat} {e : Entry} {s : Site} {sort : NodeSort}
  {p : Entry → Bool}

/-! ## Places -/

namespace Site

theorem parent_inside (h : e ∈ s.enums ++ s.extensions) : e.parent? = some s.id := by
  rcases mem_append.mp h with h | h
  · obtain ⟨d, _, rfl⟩ := mem_map.mp h
    rfl
  · obtain ⟨d, _, rfl⟩ := mem_map.mp h
    rfl

theorem filter_sort {entries : List Entry} {own : NodeSort} (h : ∀ e ∈ entries, e.kind.sort = own)
    (sort : NodeSort) : entries.filter (·.kind.sort == sort) = if own = sort then entries else [] := by
  split
  · rename_i hsort
    exact filter_eq_self.mpr fun e he => beq_iff_eq.mpr ((h e he).trans hsort)
  · rename_i hsort
    exact filter_eq_nil_iff.mpr fun e he hmem => hsort ((h e he).symm.trans (beq_iff_eq.mp hmem))

theorem sort_enums (h : e ∈ s.enums) : e.kind.sort = .enum := by
  obtain ⟨d, _, rfl⟩ := mem_map.mp h
  rfl

theorem sort_extensions (h : e ∈ s.extensions) : e.kind.sort = .extension := by
  obtain ⟨d, _, rfl⟩ := mem_map.mp h
  rfl

theorem filter_enums (s : Site) (sort : NodeSort) :
    s.enums.filter (·.kind.sort == sort) = if .enum = sort then s.enums else [] :=
  filter_sort (fun _ => sort_enums) sort

theorem filter_extensions (s : Site) (sort : NodeSort) :
    s.extensions.filter (·.kind.sort == sort) = if .extension = sort then s.extensions else [] :=
  filter_sort (fun _ => sort_extensions) sort

theorem sort_inside (h : e ∈ s.enums ++ s.extensions) : e.kind.sort = .enum ∨ e.kind.sort = .extension :=
  (mem_append.mp h).imp sort_enums sort_extensions

/-- What is inside a message by its number is what stands there by its declaration. -/
theorem filter_inside {entries : List Entry} (h : ∀ e ∈ entries, e.parent? = some s.id) :
    entries.filter (·.isIn parent sort) =
      if s.id = parent then entries.filter (·.kind.sort == sort) else [] := by
  split
  · rename_i hid
    refine filter_congr fun e he => ?_
    simp [Entry.isIn, h e he, hid]
  · rename_i hid
    refine filter_eq_nil_iff.mpr fun e he => ?_
    simp [Entry.isIn, h e he, hid]

end Site

namespace FileDecl

theorem lt_sites (hs : s ∈ decl.sites file) : file < s.id := (Site.bounds_below hs).1

theorem sites_lt (hs : s ∈ decl.root file :: decl.sites file) :
    s.id < file + 1 + (decl.sites file).length := by
  rcases mem_cons.mp hs with rfl | hs
  · exact Nat.lt_of_lt_of_le (Nat.lt_succ_self file) (Nat.le_add_right ..)
  · exact (Site.bounds_below hs).2

theorem nodup_sites (decl : FileDecl) (file : NodeId) :
    ((decl.root file :: decl.sites file).map (·.id)).Nodup := by
  refine nodup_cons.mpr ⟨fun hmem => ?_, ?_⟩
  · obtain ⟨s, hs, heq⟩ := mem_map.mp hmem
    exact absurd heq (Nat.ne_of_gt (lt_sites hs))
  · rw [sites, Site.ids_below]
    exact nodup_range'

theorem mem_members (h : e ∈ decl.members file) :
    ∃ s ∈ decl.root file :: decl.sites file, e ∈ s.enums ++ s.extensions := by
  rcases mem_append.mp h with h | h
  · rcases mem_append.mp h with h | h
    · exact ⟨_, mem_cons_self, mem_append_left _ h⟩
    · obtain ⟨s, hs, he⟩ := mem_flatMap.mp h
      exact ⟨s, mem_cons_of_mem _ hs, he⟩
  · exact ⟨_, mem_cons_self, mem_append_right _ h⟩

theorem places_eq (decl : FileDecl) (file : NodeId) : decl.places file =
    (decl.sites file).map (fun s => (s.entry decl.package, s.id)) ++
      (decl.members file).zipIdx (file + 1 + (decl.sites file).length) := by
  have hids : range' (file + 1) (decl.sites file).length = (decl.sites file).map (·.id) :=
    (Site.ids_below ..).symm
  rw [places, entries, zipIdx_append, length_map, zipIdx_eq_zip_range', length_map, hids, zip_map']

theorem mem_places (h : (e, id) ∈ decl.places file) :
    (∃ s ∈ decl.sites file, e = s.entry decl.package ∧ id = s.id) ∨
      (∃ s ∈ decl.root file :: decl.sites file, e ∈ s.enums ++ s.extensions ∧
        file + 1 + (decl.sites file).length ≤ id) := by
  rw [places_eq] at h
  rcases mem_append.mp h with h | h
  · obtain ⟨s, hs, heq⟩ := mem_map.mp h
    cases heq
    exact .inl ⟨s, hs, rfl, rfl⟩
  · obtain ⟨hle, hget⟩ := mk_mem_zipIdx_iff_le_and_getElem?_sub.mp h
    obtain ⟨s, hs, he⟩ := mem_members (mem_of_getElem? hget)
    exact .inr ⟨s, hs, he, hle⟩

theorem site_mem_places (hs : s ∈ decl.sites file) : (s.entry decl.package, s.id) ∈ decl.places file := by
  rw [places_eq]
  exact mem_append_left _ (mem_map_of_mem hs)

theorem map_snd_places (decl : FileDecl) (file : NodeId) :
    (decl.places file).map (·.2) = range' (file + 1) (decl.entries file).length := zipIdx_map_snd ..

theorem exists_place (hid : file < id) (hlt : id < file + 1 + (decl.entries file).length) :
    ∃ e, (e, id) ∈ decl.places file := by
  have hmem : id ∈ (decl.places file).map (·.2) := map_snd_places decl file ▸ mem_range'_1.mpr ⟨hid, hlt⟩
  obtain ⟨⟨e, _⟩, he, rfl⟩ := mem_map.mp hmem
  exact ⟨e, he⟩

theorem mem_numbers : id ∈ decl.numbers file p ↔ ∃ e, (e, id) ∈ decl.places file ∧ p e = true := by
  simp only [numbers, mem_map, mem_filter, Prod.exists, exists_eq_right]

theorem nodup_numbers (decl : FileDecl) (file : NodeId) (p : Entry → Bool) :
    (decl.numbers file p).Nodup := by
  have hall : ((decl.places file).map (·.2)).Nodup := map_snd_places decl file ▸ nodup_range'
  exact hall.sublist (filter_sublist.map _)

theorem forall₂_numbers {R : NodeId → Entry → Prop}
    (h : ∀ e id, (e, id) ∈ decl.places file → R id e) :
    Forall₂ R (decl.numbers file p) ((decl.entries file).filter p) := by
  have hentries : decl.entries file = (decl.places file).map (·.1) := (zipIdx_map_fst ..).symm
  rw [hentries, filter_map, numbers, forall₂_map_left_iff, forall₂_map_right_iff]
  refine forall₂_same.mpr ?_
  exact fun x hx => h x.1 x.2 (mem_filter.mp hx).1

theorem length_numbers : (decl.numbers file p).length = ((decl.entries file).filter p).length :=
  (forall₂_numbers (R := fun _ _ => True) fun _ _ _ => trivial).length_eq

theorem disjoint_numbers {q : Entry → Bool} (hpq : ∀ e, p e = true → q e = true → False) :
    Disjoint (decl.numbers file p) (decl.numbers file q) := by
  intro id hid hid'
  obtain ⟨e, he, hp⟩ := mem_numbers.mp hid
  obtain ⟨e', he', hq⟩ := mem_numbers.mp hid'
  have hget := (mk_mem_zipIdx_iff_le_and_getElem?_sub.mp he).2
  cases hget.symm.trans (mk_mem_zipIdx_iff_le_and_getElem?_sub.mp he').2
  exact hpq e hp hq

theorem numbers_messages (decl : FileDecl) (file : NodeId) :
    decl.numbers file (·.kind.sort == .message) = (decl.sites file).map (·.id) := by
  rw [numbers, places_eq, filter_append, filter_eq_self.mpr, filter_eq_nil_iff.mpr, append_nil, map_map]
  · rfl
  · rintro ⟨e, i⟩ h hsort
    obtain ⟨s, _, he⟩ := mem_members (fst_mem_of_mem_zipIdx h)
    rcases Site.sort_inside he with h | h <;> rw [h] at hsort <;> cases hsort
  · intro x hx
    obtain ⟨s, _, rfl⟩ := mem_map.mp hx
    rfl

/-! ## What stands in a message -/

theorem flatMap_site (g : Site → List Entry) : ∀ {sites : List Site}, (sites.map (·.id)).Nodup → s ∈ sites →
    sites.flatMap (fun x => if x.id = s.id then g x else []) = g s
  | x :: sites, honce, hs => by
    obtain ⟨hnot, honce⟩ := nodup_cons.mp honce
    rw [flatMap_cons]
    rcases mem_cons.mp hs with rfl | hs
    · rw [if_pos rfl, append_right_eq_self, flatMap_eq_nil_iff]
      exact fun x hx => if_neg fun h => hnot (mem_map.mpr ⟨x, hx, h⟩)
    · rw [if_neg fun h => hnot (mem_map.mpr ⟨s, hs, h.symm⟩), nil_append, flatMap_site g honce hs]

section

variable (hs : s ∈ decl.root file :: decl.sites file)

include hs

theorem filter_members (sort : NodeSort) : (decl.members file).filter (·.isIn s.id sort) =
    (s.enums ++ s.extensions).filter (·.kind.sort == sort) := by
  have hall := flatMap_site (fun x => (x.enums ++ x.extensions).filter (·.kind.sort == sort))
    (nodup_sites decl file) hs
  rw [members, filter_append, filter_append, filter_flatMap,
    Site.filter_inside fun e he => Site.parent_inside (mem_append_left _ he),
    Site.filter_inside fun e he => Site.parent_inside (mem_append_right _ he),
    flatMap_congr fun x _ => Site.filter_inside fun e he => Site.parent_inside he]
  rw [flatMap_cons] at hall
  by_cases hroot : (decl.root file).id = s.id
  · have hsame : s = decl.root file := inj_on_of_nodup_map (nodup_sites decl file) hs mem_cons_self hroot.symm
    subst hsame
    rw [if_pos rfl] at hall ⊢
    rw [append_right_eq_self.mp hall, if_pos rfl, append_nil, filter_append]
  · rw [if_neg hroot, nil_append] at hall
    rw [if_neg hroot, if_neg hroot, nil_append, append_nil, hall]

theorem filter_entries (hsort : sort ≠ .message) : (decl.entries file).filter (·.isIn s.id sort) =
    (s.enums ++ s.extensions).filter (·.kind.sort == sort) := by
  rw [entries, filter_append, filter_members hs, filter_eq_nil_iff.mpr, nil_append]
  intro e he hin
  obtain ⟨x, _, rfl⟩ := mem_map.mp he
  exact hsort (beq_iff_eq.mp (Bool.and_eq_true_iff.mp hin).1).symm

theorem enums_in : (decl.entries file).filter (·.isIn s.id .enum) = s.enums := by
  rw [filter_entries hs (by decide), filter_append, Site.filter_enums, Site.filter_extensions]
  exact append_nil _

theorem extensions_in : (decl.entries file).filter (·.isIn s.id .extension) = s.extensions := by
  rw [filter_entries hs (by decide), filter_append, Site.filter_enums, Site.filter_extensions]
  exact nil_append _

theorem messages_in : (decl.entries file).filter (·.isIn s.id .message) =
    ((decl.sites file).filter (·.parent? == some s.id)).map (·.entry decl.package) := by
  rw [entries, filter_append, filter_members hs, filter_append, Site.filter_enums, Site.filter_extensions,
    filter_map]
  exact append_nil _

theorem nested_in :
    ((decl.sites file).filter (·.parent? == some s.id)).map (·.decl) = s.decl.nested := by
  have hid : (decl.root file).id < file + 1 := Nat.lt_succ_self file
  have hchildren := Site.children_below hid (drop_zero (l := decl.messages))
  rcases mem_cons.mp hs with rfl | hs
  · exact hchildren.1
  · exact hchildren.2 s hs

end

theorem filter_sort_enum (decl : FileDecl) (file : Nat) : (decl.entries file).filter (·.kind.sort == .enum) =
    (decl.root file :: decl.sites file).flatMap Site.enums := by
  have hmessages : ((decl.sites file).map (·.entry decl.package)).filter (·.kind.sort == .enum) = [] := by
    rw [filter_map, map_eq_nil_iff]
    exact filter_eq_nil_iff.mpr fun _ _ h => by cases h
  simp only [entries, members, filter_append, hmessages, filter_flatMap, Site.filter_enums,
    Site.filter_extensions, if_true, reduceCtorEq, if_false, append_nil, nil_append, flatMap_cons]

/-- Every number behind that of a file is that of a message, an enum or an extension. -/
theorem perm_numbers (decl : FileDecl) (file : NodeId) :
    decl.numbers file (·.kind.sort == .message) ++ decl.numbers file (·.kind.sort == .enum) ++
      (decl.root file :: decl.sites file).flatMap (fun s => decl.numbers file (·.isIn s.id .extension)) ~
        range' (file + 1) (decl.entries file).length := by
  have hsort {e : Entry} {id : NodeId} (h : e.isIn id .extension = true) : e.kind.sort = .extension ∧
      e.parent? = some id := by simpa [Entry.isIn] using h
  refine (perm_ext_iff_of_nodup ?_ nodup_range').mpr fun id => ?_
  · refine ((nodup_numbers ..).append (nodup_numbers ..) (disjoint_numbers fun e h h' => ?_)).append
      (nodup_flatMap.mpr ⟨fun s _ => nodup_numbers .., ?_⟩) ?_
    · cases (beq_iff_eq.mp h).symm.trans (beq_iff_eq.mp h')
    · refine (pairwise_map.mp (nodup_sites decl file)).imp fun hne => disjoint_numbers fun e h h' => hne ?_
      exact Option.some.inj ((hsort h).2.symm.trans (hsort h').2)
    · intro id hid hid'
      obtain ⟨s, _, hs⟩ := mem_flatMap.mp hid'
      rcases mem_append.mp hid with hid | hid <;>
        exact disjoint_numbers (fun e h h' => by cases (beq_iff_eq.mp h).symm.trans (hsort h').1) hid hs
  · rw [← map_snd_places]
    simp only [mem_append, mem_flatMap, mem_numbers, mem_map, Prod.exists, exists_eq_right]
    constructor
    · rintro ((⟨e, he, _⟩ | ⟨e, he, _⟩) | ⟨_, _, e, he, _⟩) <;> exact ⟨e, he⟩
    · rintro ⟨e, he⟩
      rcases mem_places he with ⟨s, hs, rfl, rfl⟩ | ⟨s, hs, hin, _⟩
      · exact .inl (.inl ⟨_, he, rfl⟩)
      · rcases mem_append.mp hin with hin' | hin'
        · exact .inl (.inr ⟨e, he, beq_iff_eq.mpr (Site.sort_enums hin')⟩)
        · refine .inr ⟨s, hs, e, he, ?_⟩
          simp [Entry.isIn, Site.sort_extensions hin', Site.parent_inside hin]

end FileDecl

/-! ## Nodes -/

/-- What a node stands for when its file is added: a message knows everything inside it. -/
def NodeKind.linked (decl : FileDecl) (file id : NodeId) : NodeKind → NodeKind
  | .message m => .message
    { m with
      nested := decl.numbers file (·.isIn id .message)
      enums := decl.numbers file (·.isIn id .enum)
      extensions := decl.numbers file (·.isIn id .extension) }
  | kind => kind

namespace NodeKind

variable {kind : NodeKind} {ids : List NodeId}

theorem sort_linked (kind : NodeKind) (decl : FileDecl) (file id : NodeId) :
    (kind.linked decl file id).sort = kind.sort := by
  cases kind <;> rfl

theorem linked_of_sort (h : kind.sort ≠ .message) : kind.linked decl file id = kind := by
  cases kind <;> first | rfl | exact absurd rfl h

theorem withExtensions_of_sort (h : kind.sort ≠ .message) : kind.withExtensions ids = kind := by
  cases kind <;> first | rfl | exact absurd rfl h

end NodeKind

namespace Arena

variable {a b : Arena} {f : FileNode} {m : MessageNode} {tell : NodeId → NodeKind → NodeKind}

/-- Whether an arena grew by the nodes of a file, where nodes are told what they do not know by
themselves. -/
structure Lists (tell : NodeId → NodeKind → NodeKind) (decl : FileDecl) (a b : Arena) : Prop where
  same : ∀ id < a.size, b.get? id = a.get? id
  size : b.size = a.size + 1 + (decl.entries a.size).length
  file : b.get? a.size =
    some { id := a.size, file := a.size, parent? := none, kind := .file (decl.fileNode a.size) }
  nodes : ∀ e id, (e, id) ∈ decl.places a.size →
    b.get? id = some { id, file := a.size, parent? := e.parent?, kind := tell id e.kind }

/-- Whether an arena grew by the tree of a file, in which messages know what is inside them. -/
def Mirrors (decl : FileDecl) (a b : Arena) : Prop := Lists (fun id kind => kind.linked decl a.size id) decl a b

theorem lists_addNodes (decl : FileDecl) (a : Arena) :
    Lists (fun id kind => kind.withExtensions (decl.numbers a.size (·.isIn id .extension))) decl a
      (addNodes decl a).2 := by
  have hget (id : NodeId) : (addNodes decl a).2.get? id =
      (a.nodes.toList ++ decl.nodes a.size)[id]? := List.getElem?_toArray ..
  have hlength : a.nodes.toList.length = a.size := rfl
  refine ⟨fun id hid => ?_, ?_, ?_, fun e id h => ?_⟩
  · rw [hget, getElem?_append_left hid]
    exact Array.getElem?_toList
  · show (a.nodes.toList ++ decl.nodes a.size).toArray.size = _
    simp only [FileDecl.nodes, FileDecl.places, List.size_toArray, length_append, length_cons, length_map,
      length_zipIdx, hlength]
    omega
  · rw [hget, ← hlength, getElem?_append_right (Nat.le_refl _), Nat.sub_self]
    rfl
  · obtain ⟨hle, he⟩ := mk_mem_zipIdx_iff_le_and_getElem?_sub.mp h
    obtain ⟨i, rfl⟩ := Nat.exists_eq_add_of_le hle
    rw [Nat.add_sub_cancel_left] at he
    have hindex : a.size + 1 + i - a.size = i + 1 := by omega
    rw [hget, getElem?_append_right (by omega), hlength, hindex, FileDecl.nodes, getElem?_cons_succ,
      getElem?_map, FileDecl.places, getElem?_zipIdx, he]
    rfl

namespace Lists

variable (h : Lists tell decl a b)

include h

theorem isChild (hid : (e, id) ∈ decl.places a.size) : b.isChild parent id = (e.parent? == some parent) := by
  rw [Arena.isChild, h.nodes e id hid]
  exact Bool.true_and _

theorem childrenAmong (parent : NodeId) (sort : NodeSort) :
    b.childrenAmong parent (decl.numbers a.size (·.kind.sort == sort)) =
      decl.numbers a.size (·.isIn parent sort) := by
  rw [Arena.childrenAmong, FileDecl.numbers, filter_map, filter_filter]
  refine congrArg _ (filter_congr fun x hx => ?_)
  rw [Function.comp_apply, h.isChild hx, Bool.and_comm]
  rfl

theorem file? : b.file? a.size = some (decl.fileNode a.size) :=
  file?_eq_some.mpr (kind?_of_get? h.file)

end Lists

/-! ## Linking -/

theorem childrenAmong_modifyMessage (a : Arena) (id : NodeId) (f : MessageNode → MessageNode) :
    (a.modifyMessage id f).childrenAmong = a.childrenAmong := by
  have hchild (parent j : NodeId) : (a.modifyMessage id f).isChild parent j = a.isChild parent j := by
    rw [isChild, isChild, modifyMessage, get?_modify]
    by_cases hj : id = j
    · rw [if_pos hj]
      cases a.get? j with
      | none => rfl
      | some n => cases hn : n.kind <;> simp [hn]
    · rw [if_neg hj]
  funext parent ids
  exact filter_congr fun j _ => hchild parent j

/-- Whether a message has as many nodes inside it, among those of a file, as it declares. -/
def Whole (f : FileNode) (a : Arena) (id : NodeId) : Prop :=
  ∃ n m, a.get? id = some n ∧ n.kind = .message m ∧
    (a.childrenAmong id f.messages).length = m.decl.nested.length ∧
    (a.childrenAmong id f.enums).length = m.decl.enums.length

/-- Messages that are whole are linked: each is told what is inside it. -/
theorem linkMessages_ok (f : FileNode) : ∀ (ids : List NodeId) (a : Arena), ids.Nodup →
    (∀ id ∈ ids, Whole f a id) → ∃ b, linkMessages f ids a = .ok b ∧ b.size = a.size ∧
      (∀ id, id ∉ ids → b.get? id = a.get? id) ∧
      ∀ id ∈ ids, ∀ n m, a.get? id = some n → n.kind = .message m → b.get? id = some { n with
        kind := .message { m with
          nested := a.childrenAmong id f.messages
          enums := a.childrenAmong id f.enums } }
  | [], a, _, _ => ⟨a, rfl, rfl, fun _ _ => rfl, forall_mem_nil _⟩
  | id :: ids, a, honce, hwhole => by
    obtain ⟨hnot, honce⟩ := nodup_cons.mp honce
    obtain ⟨⟨n, m, hn, hkind, hnested, henums⟩, hwhole⟩ := forall_mem_cons.mp hwhole
    have hm : a.message? id = some m := message?_eq_some.mpr (hkind ▸ kind?_of_get? hn)
    unfold linkMessages
    simp only [hm, hnested, henums, ne_eq, not_true_eq_false, if_false]
    generalize htell : (fun m : MessageNode => { m with
      nested := a.childrenAmong id f.messages, enums := a.childrenAmong id f.enums }) = tell
    have hkids := childrenAmong_modifyMessage a id tell
    have hother {j : NodeId} (hj : id ≠ j) : (a.modifyMessage id tell).get? j = a.get? j := by
      rw [modifyMessage, get?_modify, if_neg hj]
    have hne {j : NodeId} (hj : j ∈ ids) : id ≠ j := fun he => hnot (he ▸ hj)
    obtain ⟨b, hb, hsize, hsame, hall⟩ := linkMessages_ok f ids (a.modifyMessage id tell) honce fun j hj => by
      obtain ⟨n, m, hn, h⟩ := hwhole j hj
      exact ⟨n, m, (hother (hne hj)).trans hn, by rwa [hkids]⟩
    refine ⟨b, hb, hsize.trans (Array.size_modify ..), fun j hj => ?_, forall_mem_cons.mpr ⟨?_, ?_⟩⟩
    · rw [mem_cons, not_or] at hj
      rw [hsame j hj.2, hother (Ne.symm hj.1)]
    · intro n' m' hn' hkind'
      cases hn.symm.trans hn'
      cases hkind.symm.trans hkind'
      rw [hsame id hnot, modifyMessage, get?_modify, if_pos rfl, hn, Option.map_some, hkind, ← htell]
    · intro j hj n m hn hkind
      rw [hall j hj n m ((hother (hne hj)).trans hn) hkind, hkids]

/-- The tree of a file can always be built, and mirrors the declaration. -/
theorem mirrors_addFile (decl : FileDecl) (a : Arena) :
    ∃ b, addFile decl a = .ok (a.size, b) ∧ Mirrors decl a b := by
  have h := lists_addNodes decl a
  have hsite {id : NodeId} (hid : id ∈ (decl.fileNode a.size).messages) :
      ∃ s ∈ decl.sites a.size, s.id = id := by
    rw [FileDecl.fileNode, FileDecl.numbers_messages] at hid
    exact mem_map.mp hid
  have hlt {id : NodeId} (hid : id ≤ a.size) : id ∉ (decl.fileNode a.size).messages := fun hmem => by
    obtain ⟨s, hs, rfl⟩ := hsite hmem
    exact absurd (FileDecl.lt_sites hs) (Nat.not_lt.mpr hid)
  have hnested (id : NodeId) := h.childrenAmong id .message
  have henums (id : NodeId) := h.childrenAmong id .enum
  obtain ⟨b, hlink, hsize, hsame, hall⟩ := linkMessages_ok (decl.fileNode a.size) _ (addNodes decl a).2
    (FileDecl.nodup_numbers decl a.size (·.kind.sort == .message)) fun id hid => by
      obtain ⟨s, hs, rfl⟩ := hsite hid
      have hs' := mem_cons_of_mem (decl.root a.size) hs
      refine ⟨_, _, h.nodes _ _ (FileDecl.site_mem_places hs), rfl, ?_, ?_⟩
      · rw [FileDecl.fileNode, hnested, FileDecl.length_numbers, FileDecl.messages_in hs', length_map,
          ← FileDecl.nested_in hs', length_map]
      · rw [FileDecl.fileNode, henums, FileDecl.length_numbers, FileDecl.enums_in hs', Site.enums, length_map,
          length_zipIdx]
  refine ⟨b, ?_, fun id hid => ?_, hsize.trans h.size, ?_, fun e id hid => ?_⟩
  · have hfile : (addNodes decl a).2.file? (addNodes decl a).1 = _ := h.file?
    simp only [addFile, link, hfile]
    exact congrArg (Except.map _ <| Except.mapError _ ·) hlink
  · rw [hsame id (hlt (Nat.le_of_lt hid)), h.same id hid]
  · rw [hsame a.size (hlt (Nat.le_refl _)), h.file]
  · rcases FileDecl.mem_places hid with ⟨s, hs, rfl, rfl⟩ | ⟨s, hs, he, hle⟩
    · have hmem : s.id ∈ (decl.fileNode a.size).messages := by
        rw [FileDecl.fileNode, FileDecl.numbers_messages]
        exact mem_map_of_mem hs
      rw [hall s.id hmem _ _ (h.nodes _ _ hid) rfl, FileDecl.fileNode, hnested, henums]
      rfl
    · have hsort : e.kind.sort ≠ .message := by
        rcases Site.sort_inside he with h | h <;> rw [h] <;> decide
      have hout : id ∉ (decl.fileNode a.size).messages := fun hmem => by
        obtain ⟨x, hx, rfl⟩ := hsite hmem
        exact absurd (FileDecl.sites_lt (mem_cons_of_mem _ hx)) (Nat.not_lt.mpr hle)
      rw [hsame id hout, h.nodes e id hid, NodeKind.withExtensions_of_sort hsort, NodeKind.linked_of_sort hsort]

/-! ## Files -/

namespace Mirrors

variable (h : Mirrors decl a b)

include h

theorem keeps {α : Type} {view : NodeKind → α} : Keeps view a b :=
  fun id n hn => ⟨n, (h.same id (lt_size_of_get? hn)).trans hn, rfl, rfl, rfl⟩

theorem belongs (p : Entry → Bool) (hid : id ∈ decl.numbers a.size p) (hp : ∀ e, p e = true → e.kind.sort = sort) :
    Belongs sort b a.size id := by
  obtain ⟨e, he, hsort⟩ := FileDecl.mem_numbers.mp hid
  have hget := h.nodes e id he
  exact ⟨fileOf_of_get? hget, _, kind?_of_get? hget, (e.kind.sort_linked ..).trans (hp e hsort)⟩

theorem houses : b.Houses a.size (decl.fileNode a.size) where
  self := fileOf_of_get? h.file
  messages _ hid := h.belongs (·.kind.sort == .message) hid fun _ => beq_iff_eq.mp
  enums _ hid := h.belongs (·.kind.sort == .enum) hid fun _ => beq_iff_eq.mp
  extensions _ hid := h.belongs (·.isIn a.size .extension) hid fun _ he =>
    beq_iff_eq.mp (Bool.and_eq_true_iff.mp he).1
  once := ⟨decl.nodup_numbers a.size (·.kind.sort == .message),
    decl.nodup_numbers a.size (·.kind.sort == .enum), decl.nodup_numbers ..⟩

end Mirrors

theorem mirrors_of_addFile (h : addFile decl a = .ok (id, b)) : id = a.size ∧ Mirrors decl a b := by
  obtain ⟨b', hadd, hmirrors⟩ := mirrors_addFile decl a
  cases hadd.symm.trans h
  exact ⟨rfl, hmirrors⟩

/-- The files that were added, in ascending order, with their declarations. -/
theorem houses_addFiles : ∀ (decls : List FileDecl) {a b : Arena} {ids : List NodeId},
    addFiles decls a = .ok (ids, b) →
      (∀ id < a.size, b.get? id = a.get? id) ∧ ids.Pairwise (· < ·) ∧ (∀ id ∈ ids, a.size ≤ id) ∧
        Forall₂ (fun id decl => ∃ f, b.file? id = some f ∧ f.decl = decl) ids decls ∧
        ∀ id ∈ ids, ∃ f, b.file? id = some f ∧ f.Blank ∧ b.Houses id f
  | [], a, b, ids, h => by
    cases h
    exact ⟨fun _ _ => rfl, .nil, forall_mem_nil _, .nil, forall_mem_nil _⟩
  | decl :: decls, a, b, ids, h => by
    unfold addFiles at h
    obtain ⟨⟨id, a₁⟩, hfile, h⟩ := bind_eq_ok.mp h
    obtain ⟨⟨rest, a₂⟩, hrest, h⟩ := bind_eq_ok.mp h
    cases h
    obtain ⟨rfl, hmirrors⟩ := mirrors_of_addFile hfile
    obtain ⟨hsame, hascend, hnew, hdecls, hall⟩ := houses_addFiles decls hrest
    have hlt : a.size < a₁.size := lt_size_of_get? hmirrors.file
    have hf : b.file? a.size = some (decl.fileNode a.size) := (file?_congr (hsame _ hlt)).trans hmirrors.file?
    have hkeep : Keeps NodeKind.sort a₁ b :=
      fun id n hn => ⟨n, (hsame id (lt_size_of_get? hn)).trans hn, rfl, rfl, rfl⟩
    refine ⟨fun id hid => (hsame id (Nat.lt_trans hid hlt)).trans (hmirrors.same id hid), ?_,
      forall_mem_cons.mpr ⟨Nat.le_refl _, fun id hid => ?_⟩, .cons ⟨_, hf, rfl⟩ hdecls,
      forall_mem_cons.mpr ⟨⟨_, hf, ⟨rfl, rfl⟩, hmirrors.houses.keep hmirrors.file? hkeep⟩, hall⟩⟩
    · exact .cons (fun id hid => Nat.lt_of_lt_of_le hlt (hnew id hid)) hascend
    · exact Nat.le_trans (Nat.le_of_lt hlt) (hnew id hid)

/-- The trees of files can always be built. -/
theorem addFiles_ok : ∀ (decls : List FileDecl) (a : Arena), ∃ p, addFiles decls a = .ok p
  | [], a => ⟨([], a), rfl⟩
  | decl :: decls, a => by
    obtain ⟨b, hfile, _⟩ := mirrors_addFile decl a
    obtain ⟨⟨ids, c⟩, hrest⟩ := addFiles_ok decls b
    exact ⟨(a.size :: ids, c), by simp only [addFiles, hfile, bind, Except.bind, hrest, pure, Except.pure]⟩

end Arena

end Protobind
