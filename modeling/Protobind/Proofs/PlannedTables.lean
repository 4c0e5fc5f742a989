import Protobind.Proofs.FieldTags
import Protobind.Proofs.Locality
import Protobind.Proofs.References
import Protobind.Session.Load

/-!
# Tables of planned classes

The tags in the table of a planned class are those of declared fields, so they fit the kinds of the
fields (`Planner.tagged_of_planMessage`), as the codec asks for (`Registry.Tagged`).
-/

namespace Protobind

open List Planner

theorem Tag.wireType_addParts (tag : Tag) (parts : List (List Char)) :
    (tag.addParts parts).wireType = tag.wireType := by
  induction parts generalizing tag with
  | nil => rfl
  | cons part parts ih =>
    unfold addParts
    split
    · rfl
    · rw [ih]
      unfold set assign
      split <;> rfl

theorem Planner.Bound.tagged {ctx : Context} {file : NodeId} {P : Knowledge} {decl : FieldDecl}
    {b : FieldBinding} {f : Field} (hb : Bound ctx file P decl b) (h : b.entry.field = .ok f) :
    f.Tagged := by
  unfold FieldBinding.entry at h
  split at h
  · unfold FieldEntry.field at h
    obtain ⟨_, _, h⟩ := bind_eq_ok.mp h
    obtain ⟨_, _, h⟩ := bind_eq_ok.mp h
    split at h
    · cases h
      trivial
    · cases h
  · obtain ⟨proto3, htag⟩ := hb.tag
    obtain ⟨default?, _, hparse⟩ := FieldDecl.parse_eq htag b.attr
    have hkind : SlotKind.ofName b.decl.kind.name = .known decl.kind := by
      rw [hb.same]
      cases decl.kind <;> rfl
    simp only [FieldEntry.field, hparse, hkind] at h
    cases hnumber : readInteger (toString decl.number) with
    | error e =>
      rw [hnumber] at h
      cases h
    | ok number =>
      rw [hnumber] at h
      cases h
      rintro kind ⟨⟩
      exact Tag.wireType_addParts _ _

theorem Display.forall₂_of_each {α β : Type} {f : α → Result β} : ∀ {as : List α} {bs : List β},
    each f as = .ok bs → Forall₂ (fun a b => f a = .ok b) as bs
  | [], _, rfl => .nil
  | a :: as, bs, h => by
    obtain ⟨b, hb, h⟩ := bind_eq_ok.mp h
    obtain ⟨bs, hbs, h⟩ := bind_eq_ok.mp h
    cases h
    exact .cons hb (forall₂_of_each hbs)

/-- The class of a planned message reads and skips its fields alike: the tag of each of them has the
wire type of its kind. -/
theorem Planner.tagged_of_planMessage {ctx : Context} {file node : NodeId} {m : MessageNode}
    {s s' : PlanState} {p : MessagePlan} {t : MessageType}
    (h : planMessage ctx file node m s = .ok p s') (ht : p.type = .ok t) : ∀ f ∈ t.fields, f.Tagged := by
  unfold MessagePlan.type at ht
  obtain ⟨fields, hfields, ht⟩ := bind_eq_ok.mp ht
  obtain rfl := Except.ok.inj ht
  intro f hf
  obtain ⟨plan, hplan, hfield⟩ := exists_of_forall₂ (Display.forall₂_of_each hfields).flip hf
  obtain ⟨_, bindings, _, _, _, _, _, _, hbind, _, _, _, _, _, _, _, _, _, hentries⟩ := planMessage_steps h
  have hentry : plan.entry ∈ p.fields.map (·.entry) := mem_map_of_mem hplan
  rw [hentries] at hentry
  obtain ⟨b, hb, hsame⟩ := mem_map.mp hentry
  obtain ⟨decl, _, hbound⟩ := exists_of_forall₂ (bindFields_ok hbind).flip (mem_of_mem_filter hb)
  exact hbound.tagged (hsame ▸ hfield)

end Protobind
