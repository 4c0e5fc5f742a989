import Protobind.Proofs.Allocation

/-!
# Names of members

A message class has an attribute and a getter for each of its fields and oneofs. The two names are
allotted together, so that they stay alike and differ from all that were allotted before
(`Planner.members_named_apart`).
-/

namespace Protobind

open List Name

theorem Dictionary.map_set {β γ : Type} (f : β → γ) (value : β) {key : Int} {old : β} :
    ∀ {d : Dictionary Int β}, d.get? key = some old → f value = f old →
      (d.set key value).map (f ·.2) = d.map (f ·.2)
  | (k, v) :: rest, h, hf => by
    unfold get? at h
    split at h
    · rename_i heq
      cases h
      rw [set, if_pos heq, map_cons, map_cons, hf]
    · rename_i hne
      rw [set, if_neg hne, map_cons, map_cons, map_set f value h hf]

/-- The names that belong to attributes: the attributes, and their getters. -/
def Name.withGetters (attrs : List String) : List String :=
  attrs.flatMap fun attr => [attr, "get_" ++ attr]

theorem Name.withGetters_perm (attrs : List String) :
    withGetters attrs ~ attrs ++ attrs.map ("get_" ++ ·) := by
  have h := flatMap_append_perm attrs (fun attr => [attr]) fun attr => ["get_" ++ attr]
  rw [flatMap_singleton', ← map_eq_flatMap] at h
  exact h.symm

def FieldEntry.attr : FieldEntry → String
  | .plain attr _ _ _ | .map attr _ _ _ => attr

namespace Planner

variable {ctx : Context} {file node : NodeId} {m : MessageNode} {c : MessagePlan}
  {a a' : Allocator} {before : List String} {name attr getter className : String}
  {decls : List OneofDecl} {s s' : PlanState}

/-! ## Fields -/

theorem allocateMember_ok (h : allocateMember a name s = .ok (attr, getter, a') s') :
    getter = "get_" ++ attr ∧ a.used ⊆ a'.used ∧
      Fresh a.used a'.used (withGetters [attr]) := by
  obtain ⟨k, hk, hfree, _⟩ := a.allocate_eq (nodup_pair name)
  have hgetter : underscored ("get_" ++ name) k = "get_" ++ underscored name k :=
    String.append_assoc
  unfold allocateMember allocate at h
  rw [hk] at h
  cases h
  refine ⟨hgetter, subset_append_left _ _, nodup_pair _, ?_, ?_⟩
  · simpa [withGetters, hgetter] using hfree
  · simp [withGetters, hgetter]

theorem bindFields_named {proto3 : Bool} : ∀ {decls : List FieldDecl} {a a' : Allocator}
    {s s' : PlanState} {bs : List FieldBinding},
    bindFields ctx file proto3 a decls s = .ok (bs, a') s' →
      a.used ⊆ a'.used ∧ Fresh a.used a'.used (withGetters (bs.map (·.attr))) ∧
        ∀ b ∈ bs, b.getter = "get_" ++ b.attr
  | [], a, a', s, s', bs, h => by
    cases (pure_ok.mp h).1
    exact ⟨List.Subset.refl _, .nil _ _, fun _ hb => absurd hb not_mem_nil⟩
  | decl :: decls, a, a', s, s', bs, h => by
    obtain ⟨⟨attr, getter, a₁⟩, t, hmember, h⟩ := bind_ok.mp h
    obtain ⟨b, u, hb, h⟩ := bind_ok.mp h
    obtain ⟨⟨rest, a₂⟩, v, hrest, h⟩ := bind_ok.mp h
    cases (pure_ok.mp h).1
    obtain ⟨hgetter, hgrows, hfresh⟩ := allocateMember_ok hmember
    obtain ⟨hmore, hfreshRest, hrest⟩ := bindFields_named hrest
    obtain ⟨⟨rfl, rfl⟩, _⟩ := bindField_ok hb
    exact ⟨List.Subset.trans hgrows hmore,
      hfresh.append hfreshRest hgrows (List.Subset.refl _) hmore,
      forall_mem_cons.mpr ⟨hgetter, hrest⟩⟩

/-! ## Oneofs -/

/-- The names of the oneofs of a message, all of which are allotted; and the members of the oneofs
are named as their fields. -/
structure GroupsNamed (before used attrs : List String) (groups : Groups) : Prop where
  fresh : Fresh before used (withGetters (groups.map (·.2.attr)))
  getters : ∀ g ∈ groups, g.2.getter = "get_" ++ g.2.attr
  members : ∀ g ∈ groups, ∀ x ∈ g.2.members, x.attr ∈ attrs

theorem groupAt_named {attrs : List String} {groups : Groups} {index : Int} {group : OneofGroup}
    (hbefore : before ⊆ a.used) (hgroups : GroupsNamed before a.used attrs groups)
    (h : groupAt className decls groups a index s = .ok (group, a') s') :
    a.used ⊆ a'.used ∧ ∀ x : OneofMember, x.attr ∈ attrs → GroupsNamed before a'.used attrs
      (groups.set index { group with members := group.members ++ [x] }) := by
  have hset {x : OneofMember} (hx : x.attr ∈ attrs) {used : List String}
      (hgetter : group.getter = "get_" ++ group.attr)
      (hmembers : ∀ x ∈ group.members, x.attr ∈ attrs) (hfresh : Fresh before used (withGetters
        ((groups.set index { group with members := group.members ++ [x] }).map (·.2.attr)))) :
      GroupsNamed before used attrs
        (groups.set index { group with members := group.members ++ [x] }) := by
    refine ⟨hfresh, fun g hg => ?_, fun g hg => ?_⟩ <;>
      rcases Dictionary.mem_set hg with rfl | hg
    · exact hgetter
    · exact hgroups.getters g hg
    · exact forall_mem_append.mpr ⟨hmembers, forall_mem_singleton.mpr hx⟩
    · exact hgroups.members g hg
  unfold groupAt at h
  cases hget : groups.get? index with
  | some old =>
    rw [hget] at h
    cases (pure_ok.mp h).1
    have hmem := Dictionary.mem_of_get? hget
    refine ⟨List.Subset.refl _, fun x hx =>
      hset hx (hgroups.getters _ hmem) (hgroups.members _ hmem) ?_⟩
    rw [Dictionary.map_set (·.attr) _ hget]
    · exact hgroups.fresh
    · rfl
  | none =>
    rw [hget] at h
    cases hdecl : indexed? decls index with
    | none =>
      rw [hdecl] at h
      cases h
    | some decl =>
      rw [hdecl] at h
      obtain ⟨⟨attr, getter, a₁⟩, t, hmember, h⟩ := bind_ok.mp h
      cases (pure_ok.mp h).1
      obtain ⟨hgetter, hgrows, hfresh⟩ := allocateMember_ok hmember
      refine ⟨hgrows, fun x hx => hset hx hgetter (fun _ hx => absurd hx not_mem_nil) ?_⟩
      rw [Dictionary.set_of_not_mem (Dictionary.isSome_get?.not.mp (by simp [hget])), map_append,
        withGetters, flatMap_append]
      exact hgroups.fresh.append hfresh hbefore (List.Subset.refl _) hgrows

theorem groupFields_named {attrs : List String} : ∀ {bs : List FieldBinding} {taken : List String}
    {groups groups' : Groups} {a : Allocator} {s s' : PlanState},
    groupFields className decls taken groups a bs s = .ok groups' s' →
      (∀ b ∈ bs, b.attr ∈ attrs) → before ⊆ a.used → GroupsNamed before a.used attrs groups →
      ∃ used, before ⊆ used ∧ GroupsNamed before used attrs groups'
  | [], taken, groups, groups', a, s, s', h, _, hbefore, hgroups => by
    cases (pure_ok.mp h).1
    exact ⟨_, hbefore, hgroups⟩
  | b :: bs, taken, groups, groups', a, s, s', h, hattrs, hbefore, hgroups => by
    obtain ⟨hb, hattrs⟩ := forall_mem_cons.mp hattrs
    unfold groupFields at h
    split at h
    · obtain ⟨⟨group, a'⟩, t, hgroup, h⟩ := bind_ok.mp h
      obtain ⟨hgrows, hnamed⟩ := groupAt_named hbefore hgroups hgroup
      exact groupFields_named h hattrs (List.Subset.trans hbefore hgrows) (hnamed _ hb)
    · exact groupFields_named h hattrs hbefore hgroups

/-! ## Classes -/

theorem map_entry_attr {fields : List FieldPlan} {bs : List FieldBinding}
    (h : fields.map (·.entry) = bs.map (·.entry)) : fields.map (·.entry.attr) = bs.map (·.attr) := by
  have hattrs := congrArg (map FieldEntry.attr) h
  rw [map_map, map_map] at hattrs
  refine hattrs.trans (map_congr_left fun b _ => ?_)
  dsimp only [Function.comp, FieldBinding.entry]
  split <;> rfl

/-- The members of a message class. There is a getter for each field and for each oneof, and it is
named after the attribute that it reads. The attributes and the getters differ from each other, and
none has a name that every message class needs for itself. The variants differ from each other and
from the classes of the types in the message. -/
theorem members_named_apart (h : planMessage ctx file node m s = .ok c s') :
    (∀ g ∈ c.getters, g.name = "get_" ++ g.test.attr) ∧
      (∀ g ∈ c.oneofs, g.getter = "get_" ++ g.attr ∧
        ∀ x ∈ g.members, x.attr ∈ c.getters.map (·.test.attr)) ∧
      c.getters.length = m.decl.fields.length + c.oneofs.length ∧
      (c.oneofs.map (·.attr) ++ c.fields.map (·.entry.attr)).Sublist
        (c.getters.map (·.test.attr)) ∧
      (c.getters.map (·.test.attr) ++ c.getters.map (·.name)).Nodup ∧
      (∀ name ∈ c.getters.map (·.test.attr) ++ c.getters.map (·.name), name ∉ reserved) ∧
      c.variants.Nodup ∧ ∀ child ∈ m.nested ++ m.enums, ctx.arena.camelName child ∉ c.variants := by
  obtain ⟨proto3, bindings, a, groups, defaults, s₁, s₂, s₃, hbind, hgroups, _, _, _, _, _, honeofs,
    _, hgetters, hfields⟩ := planMessage_steps h
  obtain ⟨hclass, _⟩ := planMessage_named h
  obtain ⟨hgrows, hfresh, hbound⟩ := bindFields_named hbind
  obtain ⟨used, hused, hnamed⟩ := groupFields_named hgroups (fun _ => mem_map_of_mem)
    (List.Subset.refl _) ⟨.nil _ _, forall_mem_nil _, forall_mem_nil _⟩
  have hattrs : c.getters.map (·.test.attr) = groups.map (·.2.attr) ++ bindings.map (·.attr) := by
    rw [hgetters, map_append, map_map, map_map]
    exact congrArg _ (map_congr_left fun b _ => (fieldGetter_spec _ _ _ _ b).1.2)
  have hnames : ∀ g ∈ c.getters, g.name = "get_" ++ g.test.attr := by
    rw [hgetters]
    refine forall_mem_append.mpr
      ⟨forall_mem_map.mpr hnamed.getters, forall_mem_map.mpr fun b hb => ?_⟩
    obtain ⟨⟨hname, hattr⟩, _⟩ := fieldGetter_spec _ _ _ _ b
    rw [hname, hattr, hbound b hb]
  have hnamesOf : c.getters.map (·.name) = (c.getters.map (·.test.attr)).map ("get_" ++ ·) := by
    rw [map_map]
    exact map_congr_left hnames
  have hall := hfresh.append hnamed.fresh hgrows (List.Subset.refl _) hused
  rw [withGetters, withGetters, ← flatMap_append] at hall
  have hperm : withGetters (bindings.map (·.attr) ++ groups.map (·.2.attr)) ~
      c.getters.map (·.test.attr) ++ c.getters.map (·.name) := by
    rw [hnamesOf, hattrs]
    exact (withGetters_perm _).trans (perm_append_comm.append (perm_append_comm.map _))
  refine ⟨hnames, ?_, ?_, ?_, hperm.nodup_iff.mp hall.nodup,
    fun name hname => hall.new name (hperm.mem_iff.mpr hname), hclass.variants, hclass.apart⟩
  · rw [honeofs, hattrs]
    exact forall_mem_map.mpr fun g hg =>
      ⟨hnamed.getters g hg, fun x hx => mem_append_right _ (hnamed.members g hg x hx)⟩
  · rw [hgetters, honeofs, length_append, length_map, length_map, length_map,
      (bindFields_ok hbind).length_eq, Nat.add_comm]
  · rw [hattrs, honeofs, map_map, map_entry_attr hfields]
    exact (Sublist.refl _).append (filter_sublist.map _)

def imitatingFile : FileDecl where
  name? := some "u.proto"
  messages := [{
      name? := some "U"
      fields := [
        { name? := some "a", number? := some 1, kind? := some .int32 },
        { name? := some "get_a", number? := some 2, kind? := some .int32, oneofIndex? := some 0 },
        { name? := some "a_", number? := some 3, kind? := some .int32, oneofIndex? := some 0 }]
      oneofs := [{ name? := some "get_a_" }] }]

theorem members_named_apart_imitating : ∃ ctx m c s',
    Context.build {} [imitatingFile] [] = .ok ctx ∧ ctx.arena.message? 1 = some m ∧
      planMessage ctx 0 1 m {} = .ok c s' ∧
      c.getters.map (·.name) = ["get_get_a___", "get_a", "get_get_a_", "get_a__"] ∧
      (c.getters.map (·.test.attr) ++ c.getters.map (·.name)).Nodup := by
  have hrun : ∃ ctx, Context.build {} [imitatingFile] [] = .ok ctx ∧ ∃ m ∈ ctx.arena.message? 1,
      ∃ c s', planMessage ctx 0 1 m {} = .ok c s' ∧
        c.getters.map (·.name) = ["get_get_a___", "get_a", "get_get_a_", "get_a__"] := by
    decide +kernel
  obtain ⟨ctx, hbuild, m, hm, c, s', hplan, hnames⟩ := hrun
  exact ⟨ctx, m, c, s', hbuild, hm, hplan, hnames, (members_named_apart hplan).2.2.2.2.1⟩

end Planner

end Protobind
