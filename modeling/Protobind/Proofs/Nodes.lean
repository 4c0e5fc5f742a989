import Protobind.Proofs.Basic
import Protobind.Schema.Tree

/-!
# Nodes of an arena

Nodes are added to an arena and never taken away. What a node says about its place stays as it is
(`Arena.Keeps`). After a file was added, everything that it declares is a node of its own kind that
belongs to the file (`Arena.Houses`).
-/

namespace Protobind

open List

variable {α : Type} {a b : Arena} {id file j : NodeId} {f : FileNode} {decl : EnumDecl}
  {kind : NodeKind} {m : MessageNode} {n : Node}

/-- What a node stands for, without what a run tells a file beyond its declarations. -/
def NodeKind.settled : NodeKind → NodeKind
  | .file f =>
    .file { f with imported := [], index := 0, packageName := "", modulePath := "", generate := false }
  | kind => kind

theorem NodeKind.sort_settled (kind : NodeKind) : kind.settled.sort = kind.sort := by
  cases kind <;> rfl

/-- Whether a file makes nothing visible yet, and its module is not asked for. -/
def FileNode.Blank (f : FileNode) : Prop := f.imported = [] ∧ f.generate = false

namespace Arena

/-! ## Adding and changing nodes -/

theorem get?_add (a : Arena) (file? parent? : Option NodeId) (kind : NodeKind) (id : NodeId) :
    (a.add file? parent? kind).2.get? id =
      if id = a.size then some { id := a.size, file := file?.getD a.size, parent?, kind }
      else a.get? id := by
  show (a.nodes.push _)[id]? = _
  rw [Array.getElem?_push]
  rfl

theorem get?_modify (a : Arena) (id j : NodeId) (f : Node → Node) :
    (a.modify id f).get? j = if id = j then (a.get? j).map f else a.get? j := by
  show (a.nodes.modify id f)[j]? = _
  rw [Array.getElem?_modify]
  rfl

theorem lt_size_of_get? (h : a.get? id = some n) : id < a.size := by
  obtain ⟨hlt, _⟩ := Array.getElem?_eq_some_iff.mp h
  exact hlt

theorem kind?_eq : a.kind? id = (a.get? id).map (·.kind) := by
  unfold kind?
  cases a.get? id <;> rfl

theorem kind?_of_get? (h : a.get? id = some n) : a.kind? id = some n.kind := by
  rw [kind?_eq, h]
  rfl

theorem fileOf_of_get? (h : a.get? id = some n) : a.fileOf id = n.file := by
  unfold fileOf
  rw [h]
  rfl

theorem file?_eq_some : a.file? id = some f ↔ a.kind? id = some (.file f) := by
  unfold file?
  split <;> simp_all

theorem message?_eq_some : a.message? id = some m ↔ a.kind? id = some (.message m) := by
  unfold message?
  split <;> simp_all

theorem enum?_eq_some : a.enum? id = some decl ↔ ∃ index, a.kind? id = some (.enum decl index) := by
  unfold enum?
  split <;> simp_all

theorem get?_of_kind? (h : a.kind? id = some kind) : ∃ n, a.get? id = some n ∧ n.kind = kind := by
  rw [kind?_eq] at h
  exact Option.map_eq_some_iff.mp h

theorem target_of_imported {target via : NodeId} (h : a.kind? id = some (.imported target via)) :
    a.target id = target := by
  unfold Arena.target
  rw [h]

theorem target_of_message (h : a.message? id = some m) : a.target id = id := by
  unfold Arena.target
  rw [message?_eq_some.mp h]

theorem target_of_enum (h : a.enum? id = some decl) : a.target id = id := by
  obtain ⟨index, hkind⟩ := enum?_eq_some.mp h
  unfold Arena.target
  rw [hkind]

theorem lt_size_of_file? (h : a.file? id = some f) : id < a.size := by
  obtain ⟨n, hn, _⟩ := get?_of_kind? (file?_eq_some.mp h)
  exact lt_size_of_get? hn

theorem file?_congr (h : b.get? j = a.get? id) : b.file? j = a.file? id := by
  unfold file? kind?
  rw [h]

theorem name_of_file (h : a.file? id = some f) : a.name id = f.decl.name := by
  have hkind := file?_eq_some.mp h
  have htarget : a.target id = id := by
    unfold Arena.target
    rw [hkind]
  unfold Arena.name
  rw [htarget, hkind]

/-! ## What stays -/

/-- Whether every node of an arena is a node of another one, with the same file and place, and stands
for the same thing as far as `view` tells. -/
def Keeps (view : NodeKind → α) (a b : Arena) : Prop :=
  ∀ id n, a.get? id = some n → ∃ n', b.get? id = some n' ∧ n'.file = n.file ∧
    (n'.parent?, n'.attached) = (n.parent?, n.attached) ∧ view n'.kind = view n.kind

namespace Keeps

variable {view : NodeKind → α} {c : Arena}

theorem refl (a : Arena) : Keeps view a a := fun _ n h => ⟨n, h, rfl, rfl, rfl⟩

variable (h : Keeps view a b)
include h

theorem get? (hid : id < a.size) : ∃ n n', a.get? id = some n ∧
    b.get? id = some n' ∧ n'.file = n.file ∧
    (n'.parent?, n'.attached) = (n.parent?, n.attached) ∧ view n'.kind = view n.kind := by
  obtain ⟨n, hn⟩ : ∃ n, a.get? id = some n := ⟨_, Array.getElem?_eq_getElem hid⟩
  obtain ⟨n', hn'⟩ := h id n hn
  exact ⟨n, n', hn, hn'⟩

theorem trans (h' : Keeps view b c) : Keeps view a c := by
  intro id n hn
  obtain ⟨n', hn', hfile, hplace, hkind⟩ := h id n hn
  obtain ⟨n'', hn'', hfile', hplace', hkind'⟩ := h' id n' hn'
  exact ⟨n'', hn'', hfile'.trans hfile, hplace'.trans hplace, hkind'.trans hkind⟩

theorem add (file? parent? : Option NodeId) (kind : NodeKind) :
    Keeps view a (b.add file? parent? kind).2 := by
  refine h.trans fun id n hn => ⟨n, ?_, rfl, rfl, rfl⟩
  have hne : id ≠ b.size := Nat.ne_of_lt (lt_size_of_get? hn)
  rw [get?_add, if_neg hne]
  exact hn

theorem modify {f : Node → Node}
    (hf : ∀ n, (f n).file = n.file ∧ ((f n).parent?, (f n).attached) = (n.parent?, n.attached) ∧
      view (f n).kind = view n.kind) :
    Keeps view a (b.modify id f) := by
  refine h.trans fun j n hn => ?_
  rw [get?_modify, hn]
  split
  · exact ⟨f n, rfl, hf n⟩
  · exact ⟨n, rfl, rfl, rfl, rfl⟩

/-- What a view tells about nodes stays when what another view tells stays and decides it. -/
theorem of_view {β : Type} {view' : NodeKind → β}
    (hview : ∀ {k k'}, view k = view k' → view' k = view' k') : Keeps view' a b := by
  intro id n hn
  obtain ⟨n', hn', hfile, hplace, hkind⟩ := h id n hn
  exact ⟨n', hn', hfile, hplace, hview hkind⟩

theorem size_le : a.size ≤ b.size := by
  by_contra hlt
  have hb : b.size < a.size := Nat.lt_of_not_le hlt
  obtain ⟨_, _, _, hn', _⟩ := h.get? hb
  exact absurd (lt_size_of_get? hn') (Nat.lt_irrefl _)

theorem kind? (hkind : a.kind? id = some kind) :
    ∃ kind', b.kind? id = some kind' ∧ view kind' = view kind ∧ b.fileOf id = a.fileOf id := by
  obtain ⟨n, hn, rfl⟩ := get?_of_kind? hkind
  obtain ⟨n', hn', hfile, _, hview⟩ := h id n hn
  refine ⟨n'.kind, kind?_of_get? hn', hview, ?_⟩
  rw [fileOf_of_get? hn, fileOf_of_get? hn', hfile]

omit h

theorem through {view : NodeKind → NodeKind} {view' : NodeKind → α} (h : Keeps view a b)
    (hview : ∀ kind, view' (view kind) = view' kind) : Keeps view' a b :=
  h.of_view fun {k k'} hsame => by rw [← hview k, hsame, hview k']

theorem sort_of_settled (h : Keeps NodeKind.settled a b) : Keeps NodeKind.sort a b :=
  h.through NodeKind.sort_settled

end Keeps

/-! ## Nodes of a file -/

/-- Whether a node belongs to a file and is of a sort. -/
def Belongs (sort : NodeSort) (a : Arena) (file id : NodeId) : Prop :=
  a.fileOf id = file ∧ ∃ kind, a.kind? id = some kind ∧ kind.sort = sort

theorem Belongs.keep {sort : NodeSort} (h : Belongs sort a file id)
    (hkeep : Keeps NodeKind.sort a b) : Belongs sort b file id := by
  obtain ⟨hfile, kind, hkind, hsort⟩ := h
  obtain ⟨kind', hkind', hsame, hfileOf⟩ := hkeep.kind? hkind
  exact ⟨hfileOf.trans hfile, kind', hkind', hsame.trans hsort⟩

theorem Belongs.message (h : Belongs .message a file id) : ∃ m, a.message? id = some m := by
  obtain ⟨_, kind, hkind, hsort⟩ := h
  cases kind <;> cases hsort
  exact ⟨_, message?_eq_some.mpr hkind⟩

theorem Belongs.enum (h : Belongs .enum a file id) : ∃ decl, a.enum? id = some decl := by
  obtain ⟨_, kind, hkind, hsort⟩ := h
  cases kind <;> cases hsort
  exact ⟨_, enum?_eq_some.mpr ⟨_, hkind⟩⟩

/-- Whether everything that a file declares belongs to it, and is of its own sort. -/
structure Houses (a : Arena) (id : NodeId) (f : FileNode) : Prop where
  self : a.fileOf id = id
  messages : ∀ n ∈ f.messages, Belongs .message a id n
  enums : ∀ n ∈ f.enums, Belongs .enum a id n
  extensions : ∀ n ∈ f.extensions, Belongs .extension a id n
  once : f.messages.Nodup ∧ f.enums.Nodup ∧ f.extensions.Nodup

theorem Houses.fileOf {n : NodeId} (h : a.Houses id f) (hn : n ∈ f.messages ++ f.enums ++ f.extensions) :
    a.fileOf n = id := by
  rw [mem_append, mem_append] at hn
  rcases hn with (hn | hn) | hn
  · exact (h.messages n hn).1
  · exact (h.enums n hn).1
  · exact (h.extensions n hn).1

theorem Houses.keep (h : a.Houses id f) (hf : a.file? id = some f) (hkeep : Keeps NodeKind.sort a b) :
    b.Houses id f where
  self := (hkeep.kind? (file?_eq_some.mp hf)).elim fun _ hkind => hkind.2.2.trans h.self
  messages n hn := (h.messages n hn).keep hkeep
  enums n hn := (h.enums n hn).keep hkeep
  extensions n hn := (h.extensions n hn).keep hkeep
  once := h.once

/-! ## Changing files -/

theorem Keeps.modifyFile {view : NodeKind → α} (h : Keeps view a b) (id : NodeId)
    {f : FileNode → FileNode} (hf : ∀ g, view (.file (f g)) = view (.file g)) :
    Keeps view a (b.modifyFile id f) := by
  refine h.modify fun n => ?_
  split
  · rename_i g hg
    exact ⟨rfl, rfl, hg ▸ hf g⟩
  · exact ⟨rfl, rfl, rfl⟩

theorem file?_modifyFile {g : FileNode} (hg : a.file? id = some g) (f : FileNode → FileNode) :
    (a.modifyFile id f).file? id = some (f g) := by
  obtain ⟨n, hn, hkind⟩ := get?_of_kind? (file?_eq_some.mp hg)
  refine file?_eq_some.mpr ?_
  unfold modifyFile
  rw [kind?_eq, get?_modify, if_pos rfl, hn]
  simp only [Option.map_some, hkind]

theorem get?_modifyFile_of_ne (hne : id ≠ j) (f : FileNode → FileNode) :
    (a.modifyFile id f).get? j = a.get? j := by
  unfold modifyFile
  rw [get?_modify, if_neg hne]

end Arena

end Protobind
