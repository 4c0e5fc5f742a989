import Protobind.Proofs.BuiltContext

/-!
# Closed arenas

While trees are built, every node holds only nodes that are there, and its parent is before it
(`Arena.Closed`). Adding a file leaves the nodes of the others as they are (`Arena.Raised`). So the
names, the position and the path of a node are settled once its file was added.
-/

namespace Protobind

open List

variable {a : Arena} {file id parent : NodeId}

/-- The nodes that a message holds. -/
def NodeKind.inside : NodeKind → List NodeId
  | .message m => m.nested ++ m.enums ++ m.extensions
  | _ => []

/-- Whether a node is declared, has its parent before it, and holds only nodes of an arena. -/
structure Node.ClosedIn (size : Nat) (id : NodeId) (n : Node) : Prop where
  file : n.file < size
  parent : ∀ p, n.parent? = some p → p < id
  inside : ∀ i ∈ n.kind.inside, i < size
  declared : n.kind.sort ≠ .imported

theorem Node.ClosedIn.mono {size size' : Nat} (hle : size ≤ size') {n : Node}
    (h : n.ClosedIn size id) : n.ClosedIn size' id :=
  ⟨Nat.lt_of_lt_of_le h.file hle, h.parent, fun i hi => Nat.lt_of_lt_of_le (h.inside i hi) hle,
    h.declared⟩

namespace Arena

def Closed (a : Arena) : Prop := ∀ id n, a.get? id = some n → n.ClosedIn a.size id

/-- A file is added with its nodes closed: the parent of a node is before it, and a message holds nodes
of the file. -/
theorem closed_addFile {decl : FileDecl} {b : Arena} (hclosed : a.Closed)
    (hadd : addFile decl a = .ok (id, b)) : b.Closed := by
  obtain ⟨_, h⟩ := mirrors_of_addFile hadd
  have hfile : a.size < b.size := lt_size_of_get? h.file
  have hnumbers {p : Entry → Bool} {i : NodeId} (hi : i ∈ decl.numbers a.size p) : i < b.size := by
    obtain ⟨e, he, _⟩ := FileDecl.mem_numbers.mp hi
    exact lt_size_of_get? (h.nodes e i he)
  intro id n hn
  rcases Nat.lt_trichotomy id a.size with hid | rfl | hid
  · rw [h.same id hid] at hn
    exact (hclosed id n hn).mono (Nat.le_of_lt hfile)
  · cases h.file.symm.trans hn
    refine ⟨hfile, fun _ h => ?_, fun _ h => ?_, fun h => ?_⟩ <;> cases h
  · obtain ⟨e, he⟩ := FileDecl.exists_place hid (h.size ▸ lt_size_of_get? hn)
    cases (h.nodes e id he).symm.trans hn
    have hparent : ∀ p, e.parent? = some p → p < id := fun p hp => by
      rcases FileDecl.mem_places he with ⟨s, hs, rfl, rfl⟩ | ⟨s, hs, hin, hle⟩
      · obtain ⟨q, _, hlt, _, heq, _⟩ := Site.parent_below (Nat.lt_succ_self a.size) rfl s hs
        rw [heq] at hp
        exact Option.some.inj hp ▸ hlt
      · rw [Site.parent_inside hin] at hp
        exact Option.some.inj hp ▸ Nat.lt_of_lt_of_le (FileDecl.sites_lt hs) hle
    refine ⟨hfile, hparent, fun i hi => ?_, ?_⟩
    · cases hk : e.kind with
      | message m =>
        simp only [hk, NodeKind.linked, NodeKind.inside, mem_append] at hi
        rcases hi with (hi | hi) | hi <;> exact hnumbers hi
      | _ =>
        simp only [hk, NodeKind.linked, NodeKind.inside] at hi
        cases hi
    · rw [NodeKind.sort_linked]
      rcases FileDecl.mem_places he with ⟨s, _, rfl, _⟩ | ⟨s, _, hin, _⟩
      · exact fun h => by cases h
      · rcases Site.sort_inside hin with h | h <;> rw [h] <;> decide

theorem closed_addFiles (decls : List FileDecl) : ∀ {a b : Arena} {ids : List NodeId}, a.Closed →
    addFiles decls a = .ok (ids, b) → b.Closed := by
  induction decls with
  | nil =>
    intro a b ids h hadd
    cases hadd
    exact h
  | cons decl decls ih =>
    intro a b ids h hadd
    unfold addFiles at hadd
    obtain ⟨⟨id, a₁⟩, hfile, hadd⟩ := bind_eq_ok.mp hadd
    obtain ⟨⟨rest, a₂⟩, hrest, hadd⟩ := bind_eq_ok.mp hadd
    cases hadd
    exact ih (closed_addFile h hfile) hrest

/-! ## What is settled -/

/-- Two arenas that grew out of a closed one, and tell the same about its nodes. -/
structure Shares (base a b : Arena) : Prop where
  closed : base.Closed
  keep : Keeps NodeKind.settled base a
  keep' : Keeps NodeKind.settled base b

namespace Shares

variable {base b : Arena} (h : Shares base a b)

include h

theorem symm : Shares base b a := ⟨h.closed, h.keep', h.keep⟩

theorem left : Shares base base a := ⟨h.closed, .refl base, h.keep⟩

variable (hid : id < base.size)

include hid

theorem nodes : ∃ n n', a.get? id = some n ∧ b.get? id = some n' ∧ n'.file = n.file ∧
    n'.parent? = n.parent? ∧ n'.kind.settled = n.kind.settled ∧ n.file < base.size ∧
    (∀ p, n.parent? = some p → p < id) ∧ n.kind.sort ≠ .imported := by
  obtain ⟨n₀, n, hn₀, hn, hfile, hplace, hkind⟩ := h.keep.get? hid
  obtain ⟨n', hn', hfile', hplace', hkind'⟩ := h.keep' id n₀ hn₀
  obtain ⟨hlt, hparent, _, hsort⟩ := h.closed id n₀ hn₀
  have hup := (Prod.mk.inj hplace).1
  refine ⟨n, n', hn, hn', hfile'.trans hfile.symm, (Prod.mk.inj hplace').1.trans hup.symm,
    hkind'.trans hkind.symm, hfile ▸ hlt, hup ▸ hparent, ?_⟩
  rwa [← n.kind.sort_settled, hkind, n₀.kind.sort_settled]

theorem kind? : b.kind? id = a.kind? id ∨ ∃ f g, a.kind? id = some (.file f) ∧
    b.kind? id = some (.file g) ∧ g.decl = f.decl := by
  obtain ⟨n, n', hn, hn', _, _, hkind, _⟩ := h.nodes hid
  rw [kind?_of_get? hn, kind?_of_get? hn']
  generalize n.kind = kind at *
  cases kind with
  | file f =>
    generalize n'.kind = kind' at *
    cases kind' with
    | file g =>
      simp only [NodeKind.settled, NodeKind.file.injEq, FileNode.mk.injEq] at hkind
      exact .inr ⟨f, g, rfl, rfl, hkind.1⟩
    | _ => cases hkind
  | _ =>
    generalize n'.kind = kind' at *
    cases kind' with
    | file g => cases hkind
    | _ => exact .inl (congrArg some hkind)

theorem parent? : b.parent? id = a.parent? id := by
  obtain ⟨n, n', hn, hn', _, hparent, _⟩ := h.nodes hid
  rw [Arena.parent?, Arena.parent?, hn, hn']
  exact hparent

theorem parent_lt {p : NodeId} (hp : a.parent? id = some p) : p < id := by
  obtain ⟨n, _, hn, _, _, _, _, _, hparent, _⟩ := h.nodes hid
  rw [Arena.parent?, hn] at hp
  exact hparent p hp

theorem fileOf : b.fileOf id = a.fileOf id := by
  obtain ⟨n, n', hn, hn', hfile, _⟩ := h.nodes hid
  rw [fileOf_of_get? hn, fileOf_of_get? hn', hfile]

theorem fileOf_lt : a.fileOf id < base.size := by
  obtain ⟨n, _, hn, _, _, _, _, hlt, _⟩ := h.nodes hid
  rwa [fileOf_of_get? hn]

theorem message? : b.message? id = a.message? id := by
  rcases h.kind? hid with h | ⟨f, g, hf, hg, _⟩ <;> simp only [Arena.message?, *]

theorem enum? : b.enum? id = a.enum? id := by
  rcases h.kind? hid with h | ⟨f, g, hf, hg, _⟩ <;> simp only [Arena.enum?, *]

theorem extension? : b.extension? id = a.extension? id := by
  rcases h.kind? hid with h | ⟨f, g, hf, hg, _⟩ <;> simp only [Arena.extension?, *]

theorem decl : (b.file? id).map (·.decl) = (a.file? id).map (·.decl) := by
  rcases h.kind? hid with h | ⟨f, g, hf, hg, hdecl⟩
  · simp only [file?, h]
  · simp only [file?, hf, hg, Option.map_some, hdecl]

theorem target : a.target id = id := by
  obtain ⟨n, _, hn, _, _, _, _, _, _, hsort⟩ := h.nodes hid
  unfold Arena.target
  rw [kind?_of_get? hn]
  cases hk : n.kind with
  | imported => exact absurd (by rw [hk]; rfl) hsort
  | _ => rfl

theorem fileDecl : b.fileDecl id = a.fileDecl id := by
  rw [Arena.fileDecl, Arena.fileDecl, h.fileOf hid, h.decl (h.fileOf_lt hid)]

theorem name : b.name id = a.name id := by
  rw [Arena.name, Arena.name, h.target hid, h.symm.target hid]
  rcases h.kind? hid with h | ⟨f, g, hf, hg, hdecl⟩
  · rw [h]
  · simp only [hf, hg, hdecl]

theorem lt_depth : id < a.size + 1 := Nat.lt_succ_of_lt (Nat.lt_of_lt_of_le hid h.keep.size_le)

omit hid in
/-- An induction on the way up from a node, which is no longer than two depths allow. -/
theorem ascend {P : Nat → Nat → NodeId → Prop}
    (hstep : ∀ depth depth' id, id < base.size →
      (∀ p, a.parent? id = some p → P depth depth' p) → P (depth + 1) (depth' + 1) id) :
    ∀ depth depth' id, id < depth → id < depth' → id < base.size → P depth depth' id
  | depth + 1, depth' + 1, id, hlt, hlt', hid => hstep depth depth' id hid fun p hp => by
    have hp := h.parent_lt hid hp
    exact ascend hstep depth depth' p (Nat.lt_of_lt_of_le hp (Nat.le_of_lt_succ hlt))
      (Nat.lt_of_lt_of_le hp (Nat.le_of_lt_succ hlt')) (Nat.lt_trans hp hid)

theorem namesAbove : b.namesAbove (b.size + 1) id = a.namesAbove (a.size + 1) id := by
  refine h.ascend (P := fun depth depth' id => b.namesAbove depth id = a.namesAbove depth' id)
    (fun depth depth' id hid ih => ?_) _ _ id (h.symm.lt_depth hid) (h.lt_depth hid) hid
  have hfile : (b.file? id).isSome = (a.file? id).isSome := by
    simpa using congrArg Option.isSome (h.decl hid)
  rw [Arena.namesAbove, Arena.namesAbove, hfile, h.parent? hid, h.name hid]
  cases hp : a.parent? id with
  | none => rfl
  | some p => simp only [ih p hp]

theorem typeName : b.typeName id = a.typeName id := by
  rw [Arena.typeName, Arena.typeName, h.target hid, h.symm.target hid, h.message? hid,
    h.namesAbove hid]

theorem camelName : b.camelName id = a.camelName id := by
  rw [Arena.camelName, Arena.camelName, h.typeName hid]

theorem fullName : b.fullName id = a.fullName id := by
  rw [Arena.fullName, Arena.fullName, h.target hid, h.symm.target hid, h.fileDecl hid,
    h.typeName hid]

theorem registeredName : b.registeredName id = a.registeredName id := by
  rw [Arena.registeredName, Arena.registeredName, h.fullName hid]

theorem messageIndexes : b.messageIndexes (b.size + 1) id = a.messageIndexes (a.size + 1) id := by
  refine h.ascend (P := fun depth depth' id => b.messageIndexes depth id = a.messageIndexes depth' id)
    (fun depth depth' id hid ih => ?_) _ _ id (h.symm.lt_depth hid) (h.lt_depth hid) hid
  rw [Arena.messageIndexes, Arena.messageIndexes, h.message? hid, h.parent? hid]
  cases hp : a.parent? id with
  | none => rfl
  | some p => simp only [Option.map_some, ih p hp]

theorem indexes : b.indexes id = a.indexes id := by
  have hparents : (b.parent? id).map (b.messageIndexes (b.size + 1)) =
      (a.parent? id).map (a.messageIndexes (a.size + 1)) := by
    rw [h.parent? hid]
    refine Option.map_congr fun p hp => ?_
    exact h.messageIndexes (Nat.lt_trans (h.parent_lt hid hp) hid)
  unfold Arena.indexes
  rw [hparents, h.messageIndexes hid]
  rcases h.kind? hid with h | ⟨f, g, hf, hg, _⟩ <;> simp only [*]

theorem path : b.path id = a.path id := by
  unfold Arena.path
  rw [h.indexes hid, h.parent? hid]
  have hkind := h.kind? hid
  cases hp : a.parent? id with
  | none => rcases hkind with h | ⟨f, g, hf, hg, _⟩ <;> simp only [*, Option.bind_none]
  | some p =>
    have hlt := Nat.lt_trans (h.parent_lt hid hp) hid
    rw [Option.bind_some, Option.bind_some, h.message? hlt]
    rcases hkind with hkind | ⟨f, g, hf, hg, _⟩
    · rw [hkind]
      cases a.message? p with
      | none => rfl
      | some m => simp only [Option.map_some, h.messageIndexes hlt]
    · simp only [hf, hg]

theorem constantPrefix : b.constantPrefix id = a.constantPrefix id := by
  have hparents : (b.parent? id).bind b.message? = (a.parent? id).bind a.message? := by
    rw [h.parent? hid]
    refine Option.bind_congr fun p hp => ?_
    exact h.message? (Nat.lt_trans (h.parent_lt hid hp) hid)
  rw [Arena.constantPrefix, Arena.constantPrefix, hparents, h.typeName hid, h.name hid]

end Shares

end Arena

end Protobind
