import Protobind.Proofs.Planning

/-!
# Expressions for types

`Expressions` says where the expressions for types stand in the plan of a module: those for the
classes of the types of each field, member and extension, and those for constants of enums. What the
planner knows of an expression is `Refers`: it was made from the node that the type name means, and
the file that provides this node was recorded.
-/

namespace Protobind

open List

variable {P Q : Knowledge} {used : List String} {s s' : PlanState} {node : NodeId}
  {className hint tag typeName : String} {proto3 : Bool} {decl : FieldDecl} {b : FieldBinding}
  {r : Reference} {decls : List FieldDecl} {f : FileNode} {m : MessageNode} {p : MessagePlan}
  {type? : Option TypeUse}

/-- What an expression stands for: the class of a type, or a constant of an enum. -/
inductive Aspect where
  | class : Aspect
  | constant (label : String) : Aspect

/-- The attribute that a getter reads. -/
def GetterTest.attr : GetterTest → String
  | .stored attr | .unlessNull attr | .member _ _ attr => attr

namespace Planner

/-- The name that a module has for an aspect of a type. -/
def nameOf (a : Arena) (node : NodeId) : Aspect → String
  | .class => a.camelName node
  | .constant label => a.constantPrefix (a.target node) ++ label

/-- Whether a type has an aspect: a constant belongs to a value of an enum. -/
def HasAspect (a : Arena) (node : NodeId) : Aspect → Prop
  | .class => True
  | .constant label => ∃ decl, a.enum? (a.target node) = some decl ∧ ∃ v ∈ decl.values, v.name = label

variable (ctx : Context) (file : NodeId)

/-- The expression of a module for an aspect of a type. -/
def expression (node : NodeId) (aspect : Aspect) : Reference where
  module? := moduleOf? ctx file node
  name := nameOf ctx.arena node aspect

/-- Whether a type name means a node whose file is recorded, unless it is the file at hand. -/
def Sees (used : List String) (typeName : String) (node : NodeId) : Prop :=
  (∃ entries, ctx.resolve typeName file = .ok (node, entries)) ∧
    (ctx.arena.fileOf node ≠ file → ctx.arena.name (ctx.arena.fileOf node) ∈ used)

/-- Whether an expression is the one for an aspect of the type that a name means. -/
structure Refers (used : List String) (typeName : String) (node : NodeId) (aspect : Aspect)
    (r : Reference) : Prop where
  sees : Sees ctx file used typeName node
  has : HasAspect ctx.arena node aspect
  eq : r = expression ctx file node aspect

/-- What may be known of an expression: the type name it was written for, the node that provides
the type, and what it stands for. -/
abbrev Knowledge := String → NodeId → Aspect → Reference → Prop

theorem Refers.mono {used' : List String} (h : used ⊆ used') {aspect : Aspect}
    (hr : Refers ctx file used typeName node aspect r) :
    Refers ctx file used' typeName node aspect r :=
  ⟨⟨hr.sees.1, fun hne => h (hr.sees.2 hne)⟩, hr.has, hr.eq⟩

/-- The type hint of a field, with an expression for every class that it mentions. -/
inductive TypeHint (P : Knowledge) : FieldDecl → String → Prop where
  | plain {decl : FieldDecl} (hdecl : decl.namesType = false) : TypeHint P decl (plainHint decl none)
  | named {decl : FieldDecl} {node : NodeId} {r : Reference} (hdecl : decl.namesType = true)
      (hr : P decl.typeName node .class r) : TypeHint P decl (plainHint decl (some r))
  | map {decl key value : FieldDecl} {node : NodeId} {r : Reference} {proto3 : Bool}
      {keyHint valueHint : String} (hdecl : decl.namesType = true)
      (hr : P decl.typeName node .class r)
      (hentry : mapEntryOf? ctx node = some (key, value, proto3))
      (hkey : TypeHint P key keyHint) (hvalue : TypeHint P value valueHint) :
      TypeHint P decl s!"dict[{keyHint}, {valueHint}]"

theorem TypeHint.imp (h : ∀ T node aspect r, P T node aspect r → Q T node aspect r)
    (ht : TypeHint ctx P decl hint) : TypeHint ctx Q decl hint := by
  induction ht with
  | plain hdecl => exact .plain hdecl
  | named hdecl hr => exact .named hdecl (h _ _ _ _ hr)
  | map hdecl hr hentry _ _ ihkey ihvalue => exact .map hdecl (h _ _ _ _ hr) hentry ihkey ihvalue

end Planner

open Planner

section

variable {α β : Type} {R S : α → β → Prop} {spec? : Int → Option α}

theorem rel_imp (h : ∀ a b, R a b → S a b) {a? : Option α} {b? : Option β} (hr : Option.Rel R a? b?) :
    Option.Rel S a? b? := by
  cases hr with
  | none => exact .none
  | some hab => exact .some (h _ _ hab)

theorem exists_of_rel_left {a? : Option α} {b? : Option β} {a : α} (h : Option.Rel R a? b?)
    (ha : a? = some a) : ∃ b, b? = some b ∧ R a b := by
  subst ha
  cases h with
  | some hab => exact ⟨_, rfl, hab⟩

theorem exists_of_rel_right {a? : Option α} {b? : Option β} {b : β} (h : Option.Rel R a? b?)
    (hb : b? = some b) : ∃ a, a? = some a ∧ R a b := by
  subst hb
  cases h with
  | some hab => exact ⟨_, rfl, hab⟩

theorem eq_none_of_rel {a? : Option α} {b? : Option β} (h : Option.Rel R a? b?) (hb : b? = none) :
    a? = none := by
  subst hb
  cases h
  rfl

/-- Whether the entries of a dictionary are what a partial function of its keys has. -/
structure Tabulated (R : α → β → Prop) (spec? : Int → Option α) (d : Dictionary Int β) : Prop where
  nodup : (d.map (·.1)).Nodup
  rel : ∀ number, Option.Rel R (spec? number) (d.get? number)

theorem Tabulated.nil (h : ∀ number, spec? number = none) : Tabulated R spec? [] :=
  ⟨nodup_nil, fun number => h number ▸ .none⟩

theorem Tabulated.set {d : Dictionary Int β} (h : Tabulated R spec? d) {spec'? : Int → Option α}
    {key : Int} {a : α} {b : β} (hab : R a b)
    (hspec : ∀ number, spec'? number = if key == number then some a else spec? number) :
    Tabulated R spec'? (d.set key b) := by
  refine ⟨Dictionary.nodup_set h.nodup, fun number => ?_⟩
  rw [Dictionary.get?_set, hspec]
  split
  · exact .some hab
  · exact h.rel number

theorem Tabulated.imp (h : ∀ a b, R a b → S a b) {d : Dictionary Int β} (ht : Tabulated R spec? d) :
    Tabulated S spec? d :=
  ⟨ht.nodup, fun number => rel_imp h (ht.rel number)⟩

end

/-- The name of the type of a field, if fields of its kind have one. -/
def FieldDecl.namedType? (decl : FieldDecl) : Option String :=
  if decl.namesType then some decl.typeName else none

/-- The name of the type of a field, if it has one. -/
def FieldDecl.givenType? (decl : FieldDecl) : Option String :=
  if decl.typeName.isEmpty then none else some decl.typeName

/-- The field whose default counts for a number: the last one of the number that has a default. -/
def lastDefault? (decls : List FieldDecl) (number : Int) : Option FieldDecl :=
  decls.reverse.find? fun decl => decl.number == number && !decl.default.isEmpty

/-- The fields of a oneof, if there are any. -/
def oneofMembers? (decls : List FieldDecl) (index : Int) : Option (List FieldDecl) :=
  (some (decls.filter fun decl => decl.inOneof && decl.oneofIndex == index)).filter (!·.isEmpty)

/-- Whether there is an expression exactly if there is a type name, and it is for the class of it. -/
abbrev TypeLinked (P : Knowledge) : Option String → Option Reference → Prop :=
  Option.Rel fun typeName r => ∃ node, P typeName node .class r

/-- What is known of the expression for the default of a field: it is a constant of an enum exactly if
the default is a label of the enum of the field, and then it is the constant of this label. -/
structure DefaultLinked (P : Knowledge) (decl : FieldDecl) (e : DefaultExpr) : Prop where
  label : decl.kind = .enum → isSpecialNumber decl.default = false →
    ∃ node r, e = .constant r ∧ P decl.typeName node (.constant decl.default) r
  other : ∀ r, e = .constant r → decl.kind = .enum ∧ isSpecialNumber decl.default = false

/-- What the getter of a field falls back to: the default that counts for its number, or else the
first value of its enum. -/
inductive FallsBack (ctx : Context) (P : Knowledge) (decls : List FieldDecl)
    (defaults : List (String × DefaultExpr)) (decl : FieldDecl) : Fallback → Prop where
  | nothing (h : decl.isRepeated = true ∨ decl.kind.isMessage = true ∨
        decl.kind = .bytes ∧ decl.default.isEmpty = true) : FallsBack ctx P decls defaults decl .nothing
  | default {other : FieldDecl} {d : String × DefaultExpr}
      (hother : lastDefault? decls decl.number = some other) (hd : d ∈ defaults)
      (hlinked : DefaultLinked P other d.2) : FallsBack ctx P decls defaults decl (.default d.1)
  | enum {node : NodeId} {e : EnumDecl} {v : EnumValueDecl} {r : Reference}
      (hnone : lastDefault? decls decl.number = none)
      (henum : ctx.arena.enum? (ctx.arena.target node) = some e) (hfirst : e.values.head? = some v)
      (hr : P decl.typeName node (.constant v.name) r) : FallsBack ctx P decls defaults decl (.enum r)
  | zero (hnone : lastDefault? decls decl.number = none)
      (hempty : decl.kind = .enum → ∃ node r, P decl.typeName node .class r ∧
        ∀ e, ctx.arena.enum? (ctx.arena.target node) = some e → e.values = []) :
      FallsBack ctx P decls defaults decl (.zero decl.kind)

/-- What is known of the expressions in the getter of a field. -/
structure GetterLinked (ctx : Context) (P : Knowledge) (decls : List FieldDecl)
    (defaults : List (String × DefaultExpr)) (decl : FieldDecl) (g : GetterPlan) : Prop where
  hint : ∃ hint, TypeHint ctx P decl hint ∧ (g.typeHint = hint ∨ g.typeHint = optionalHint hint)
  fallback : FallsBack ctx P decls defaults decl g.fallback

/-- What is known of the expressions for a member of a oneof. -/
structure MemberLinked (ctx : Context) (P : Knowledge) (decl : FieldDecl) (x : OneofMember) :
    Prop where
  name : x.name = decl.name
  number : x.number = decl.number
  hint : TypeHint ctx P decl x.typeHint
  type : TypeLinked P decl.namedType? x.type?

/-- What is known of the expressions in the plan of a message class: after the getters of the oneofs
there is one for every field, every number with a default has its constant, and every oneof has a
member for each of its fields. -/
structure MessagePlan.Expressions (ctx : Context) (P : Knowledge) (m : MessageNode)
    (p : MessagePlan) : Prop where
  getters : Forall₂ (GetterLinked ctx P m.decl.fields p.defaults) m.decl.fields
    (p.getters.drop p.groups.length)
  defaults : ∃ d, p.defaults = d.map (·.2) ∧ Tabulated (fun decl d => DefaultLinked P decl d.2)
    (lastDefault? m.decl.fields) d
  oneofs : ∃ d, p.oneofs = d.map (·.2) ∧ Tabulated
    (fun decls g => Forall₂ (MemberLinked ctx P) decls g.members) (oneofMembers? m.decl.fields) d

/-- Whether an extension is a member of a message set. -/
def Context.isSetMember (ctx : Context) (node extendee : NodeId) : Bool :=
  ctx.arena.fullName (ctx.arena.target extendee) == messageSetType &&
    (ctx.arena.typeName node).getLast? == some messageSetExtension

/-- The declarations of extensions. -/
def Context.extensionDecls (ctx : Context) (nodes : List NodeId) : List (NodeId × FieldDecl) :=
  nodes.filterMap fun node => (ctx.arena.extension? node).map (node, ·)

/-- What is known of the expressions for an extension, and of what is registered for it. -/
structure ExtensionLinked (ctx : Context) (P : Knowledge) (node : NodeId) (decl : FieldDecl)
    (e : ExtensionPlan) (entries : List Registration) : Prop where
  name : e.variableName = ctx.arena.extensionVariable node
  type : ∃ extendee r?, P decl.extendee extendee .class e.extended ∧
    TypeLinked P decl.givenType? r? ∧
    entries = if ctx.isSetMember node extendee then [.messageSet r? decl.number e.name] else []

/-- What is known of the expressions in the plan of a module. -/
structure ModulePlan.Expressions (ctx : Context) (P : Knowledge) (f : FileNode) (p : ModulePlan) :
    Prop where
  messages : ∀ node ∈ f.messages, ∀ m, ctx.arena.message? node = some m →
    m.decl.isMapEntry = false → ∃ c ∈ p.messages, c.name = ctx.arena.camelName node ∧
      c.indexes = ctx.arena.indexes node ∧ c.Expressions ctx P m
  extensions : ∃ planned : List (ExtensionPlan × List Registration),
    p.extensions = planned.map (·.1) ∧
    (∀ r? number name, .messageSet r? number name ∈ p.registrations ↔
      .messageSet r? number name ∈ planned.flatMap (·.2)) ∧
    Forall₂ (fun d x => ExtensionLinked ctx P d.1 d.2 x.1 x.2)
      (ctx.extensionDecls (allExtensions ctx f)) planned

section

variable {ctx : Context} (h : ∀ T node aspect r, P T node aspect r → Q T node aspect r)
include h

theorem TypeLinked.imp {name? : Option String} {r? : Option Reference} (hr : TypeLinked P name? r?) :
    TypeLinked Q name? r? :=
  rel_imp (fun _ _ => Exists.imp fun _ => h _ _ _ _) hr

theorem DefaultLinked.imp {e : DefaultExpr} (he : DefaultLinked P decl e) : DefaultLinked Q decl e := by
  refine ⟨fun hkind hlabel => ?_, he.other⟩
  obtain ⟨node, r, he, hr⟩ := he.label hkind hlabel
  exact ⟨node, r, he, h _ _ _ _ hr⟩

theorem FallsBack.imp {defaults : List (String × DefaultExpr)} {x : Fallback}
    (hx : FallsBack ctx P decls defaults decl x) : FallsBack ctx Q decls defaults decl x := by
  cases hx with
  | nothing hx => exact .nothing hx
  | default hother hd hlinked => exact .default hother hd (hlinked.imp h)
  | enum hnone henum hfirst hr => exact .enum hnone henum hfirst (h _ _ _ _ hr)
  | zero hnone hempty =>
    refine .zero hnone fun hkind => ?_
    obtain ⟨node, r, hr, hvalues⟩ := hempty hkind
    exact ⟨node, r, h _ _ _ _ hr, hvalues⟩

theorem MemberLinked.imp {x : OneofMember} (hx : MemberLinked ctx P decl x) :
    MemberLinked ctx Q decl x :=
  ⟨hx.name, hx.number, hx.hint.imp ctx h, hx.type.imp h⟩

theorem MessagePlan.Expressions.imp (hp : p.Expressions ctx P m) : p.Expressions ctx Q m where
  getters := hp.getters.imp fun _ _ hg =>
    ⟨hg.hint.imp fun _ => And.imp_left (·.imp ctx h), hg.fallback.imp h⟩
  defaults := hp.defaults.imp fun _ => And.imp_right (·.imp fun _ _ => (·.imp h))
  oneofs := hp.oneofs.imp fun _ => And.imp_right (·.imp fun _ _ => (·.imp fun _ _ => (·.imp h)))

theorem ExtensionLinked.imp {e : ExtensionPlan} {entries : List Registration}
    (he : ExtensionLinked ctx P node decl e entries) : ExtensionLinked ctx Q node decl e entries := by
  obtain ⟨extendee, r?, hextended, htype, hentries⟩ := he.type
  exact ⟨he.name, extendee, r?, h _ _ _ _ hextended, htype.imp h, hentries⟩

theorem ModulePlan.Expressions.imp {p : ModulePlan} (hp : p.Expressions ctx P f) :
    p.Expressions ctx Q f where
  messages node hnode m hm hentry := by
    obtain ⟨c, hc, hname, hindexes, hP⟩ := hp.messages node hnode m hm hentry
    exact ⟨c, hc, hname, hindexes, hP.imp h⟩
  extensions := by
    obtain ⟨planned, hp, hentries, hall⟩ := hp.extensions
    exact ⟨planned, hp, hentries, hall.imp fun _ _ => (·.imp h)⟩

end

namespace Planner

/-! ## Fields -/

section

variable {ctx : Context} {file : NodeId}

/-- Whether what plans tell about a type is told of a node that its name means. -/
def Meant (ctx : Context) (file : NodeId) (P : Knowledge) (typeName : String) (t : TypeUse) : Prop :=
  ∃ node, t = typeUse ctx file node ∧ P typeName node .class t.reference

theorem meant_of_typeReference {t : TypeUse} (h : typeReference ctx file typeName s = .ok t s') :
    Meant ctx file (Refers ctx file s'.usedFiles) typeName t := by
  obtain ⟨node, entries, hresolve, rfl, hused⟩ := typeReference_ok h
  exact ⟨node, rfl, ⟨⟨entries, hresolve⟩, hused⟩, trivial, rfl⟩

/-- What is known of a field when its names are computed. -/
structure Bound (ctx : Context) (file : NodeId) (P : Knowledge) (decl : FieldDecl)
    (b : FieldBinding) : Prop where
  same : b.decl = decl
  hint : TypeHint ctx P decl b.typeHint
  type : Option.Rel (Meant ctx file P) decl.namedType? b.type?
  tag : ∃ proto3, tagOf proto3 decl b.type? = .ok b.tag

theorem Bound.imp (h : ∀ T node aspect r, P T node aspect r → Q T node aspect r)
    (hb : Bound ctx file P decl b) : Bound ctx file Q decl b :=
  ⟨hb.same, hb.hint.imp ctx h,
    rel_imp (fun _ _ => Exists.imp fun _ => And.imp_right (h _ _ _ _)) hb.type, hb.tag⟩

theorem Bound.meant (hb : Bound ctx file P decl b) {t : TypeUse} (ht : b.type? = some t) :
    Meant ctx file P decl.typeName t := by
  obtain ⟨name, hname, hmeant⟩ := exists_of_rel_right hb.type ht
  obtain ⟨_, hsame⟩ := Option.ite_none_right_eq_some.mp hname
  cases hsame
  exact hmeant

theorem Bound.typeLinked (hb : Bound ctx file P decl b) :
    TypeLinked P decl.namedType? (b.type?.map (·.reference)) := by
  cases ht : b.type? with
  | none =>
    rw [eq_none_of_rel hb.type ht]
    exact .none
  | some t =>
    obtain ⟨name, hname, node, _, hr⟩ := exists_of_rel_right hb.type ht
    rw [hname]
    exact .some ⟨node, hr⟩

theorem bindAs_ok {attr getter : String} {entries? : Option (FieldEntry × FieldEntry)}
    (h : bindAs proto3 decl attr getter hint type? entries? s = .ok b s')
    (hhint : TypeHint ctx P decl hint)
    (htype : Option.Rel (Meant ctx file P) decl.namedType? type?) :
    s = s' ∧ (b.attr = attr ∧ b.getter = getter) ∧ Bound ctx file P decl b := by
  obtain ⟨tag, t, hstep, h⟩ := bind_ok.mp h
  obtain ⟨htag, rfl⟩ := ofExcept_ok.mp hstep
  obtain ⟨rfl, rfl⟩ := pure_ok.mp h
  exact ⟨rfl, ⟨rfl, rfl⟩, rfl, hhint, htype, proto3, htag⟩

/-- A field is bound to the type that its name means, and so are the keys and values of a map. -/
theorem bindField_ok : ∀ {depth : Nat} {proto3 : Bool} {decl : FieldDecl} {attr getter : String}
    {s s' : PlanState} {b : FieldBinding}, bindField ctx file depth proto3 decl attr getter s = .ok b s' →
      (b.attr = attr ∧ b.getter = getter) ∧ Bound ctx file (Refers ctx file s'.usedFiles) decl b
  | 0, _, _, _, _, _, _, _, h => by cases h
  | depth + 1, _, decl, _, _, s, s', b, h => by
    obtain ⟨type?, t, htype, h⟩ := bind_ok.mp h
    rcases fieldType?_ok htype with ⟨hdecl, rfl⟩ | ⟨hdecl, type, rfl, hreference⟩
    · obtain ⟨rfl, hb⟩ := bindAs_ok h (.plain hdecl) (by simp [FieldDecl.namedType?, hdecl])
      exact hb
    · obtain ⟨node, rfl, hr⟩ := meant_of_typeReference hreference
      have hmeant {P : Knowledge} (hr : P decl.typeName node .class (typeUse ctx file node).reference) :
          Option.Rel (Meant ctx file P) decl.namedType? (some (typeUse ctx file node)) := by
        rw [FieldDecl.namedType?, if_pos hdecl]
        exact .some ⟨node, rfl, hr⟩
      rcases hentry : (typeUse ctx file node).mapFields? with _ | ⟨key, value, entryProto3⟩
      · simp only [Option.bind_some, hentry] at h
        obtain ⟨rfl, hb⟩ := bindAs_ok h (.named hdecl hr) (hmeant hr)
        exact hb
      · simp only [Option.bind_some, hentry] at h
        obtain ⟨keyBinding, u, hkey, h⟩ := bind_ok.mp h
        obtain ⟨valueBinding, v, hvalue, h⟩ := bind_ok.mp h
        have hgrows := (growing ctx file).bindField _ _ _ _ trivial (fun _ => trivial) hkey
        have hgrows' := (growing ctx file).bindField _ _ _ _ trivial (fun _ => trivial) hvalue
        have hr' := hr.mono ctx file (List.Subset.trans hgrows.used hgrows'.used)
        have hkeyHint := (bindField_ok hkey).2.hint.imp ctx fun _ _ _ _ hx =>
          hx.mono ctx file hgrows'.used
        obtain ⟨rfl, hb⟩ := bindAs_ok h
          (.map hdecl hr' hentry hkeyHint (bindField_ok hvalue).2.hint) (hmeant hr')
        exact hb

theorem bindFields_ok : ∀ {decls : List FieldDecl} {a a' : Name.Allocator}
    {s s' : PlanState} {bs : List FieldBinding},
    bindFields ctx file proto3 a decls s = .ok (bs, a') s' →
      Forall₂ (Bound ctx file (Refers ctx file s'.usedFiles)) decls bs
  | [], a, a', s, s', bs, h => by
    obtain ⟨hpair, _⟩ := pure_ok.mp h
    cases hpair
    exact .nil
  | decl :: decls, a, a', s, s', bs, h => by
    obtain ⟨⟨attr, getter, a₁⟩, t, _, h⟩ := bind_ok.mp h
    obtain ⟨b, u, hb, h⟩ := bind_ok.mp h
    obtain ⟨⟨rest, a₂⟩, v, hrest, h⟩ := bind_ok.mp h
    obtain ⟨hpair, rfl⟩ := pure_ok.mp h
    cases hpair
    have hgrows := (growing ctx file).bindFields proto3 _ _ (fun _ _ => trivial) hrest
    exact .cons ((bindField_ok hb).2.imp fun _ _ _ _ hx => hx.mono ctx file hgrows.used)
      (bindFields_ok hrest)

/-! ## Defaults -/

theorem defaultExpr_spec {module? : Option String} {constants : String} {e? : Option DefaultExpr}
    (hdefault : decl.default.isEmpty = false) (h : decl.defaultExpr module? constants = .ok e?) :
    ∃ e, e? = some e ∧ ∀ r, e = .constant r ↔ (decl.kind = .enum ∧ isSpecialNumber decl.default = false) ∧
      r = { module?, name := constants ++ decl.default } := by
  unfold FieldDecl.defaultExpr at h
  unfold isSpecialNumber
  rw [if_neg (by simp [hdefault])] at h
  cases hkind : decl.kind <;> simp only [hkind] at h
  case enum =>
    repeat' split at h
    all_goals
      cases h
      exact ⟨_, rfl, fun r => by simp_all [eq_comm (a := r)]⟩
  all_goals
    repeat' split at h
    all_goals
      first
      | cases h; done
      | cases h
        exact ⟨_, rfl, fun r => by simp⟩

theorem mem_of_lookupLast? {key : String} {pairs : List (String × Int)} {number : Int}
    (h : lookupLast? key pairs = some number) : (key, number) ∈ pairs := by
  obtain ⟨before, after, hsplit, _⟩ := lookup_eq_some_iff.mp h
  rw [← mem_reverse, hsplit]
  exact mem_append_right _ mem_cons_self

theorem label_of_tag {name? : Option String} {values? : Option (List (String × Int))}
    (h : decl.tag proto3 name? values? = .ok tag) (hkind : decl.kind = .enum)
    (hdefault : decl.default.isEmpty = false) :
    ∃ values, values? = some values ∧ ∃ number, (decl.default, number) ∈ values := by
  have hsome : decl.default?.isSome = true := by
    cases hnone : decl.default? with
    | none => simp [FieldDecl.default, hnone] at hdefault
    | some text => rfl
  obtain ⟨default?, hshown, _⟩ := bind_eq_ok.mp h
  rw [FieldDecl.shownDefault?, if_pos hsome] at hshown
  obtain ⟨text, htext, _⟩ := bind_eq_ok.mp hshown
  unfold FieldDecl.tagDefault at htext
  simp only [hkind] at htext
  cases hvalues : values? with
  | none =>
    rw [hvalues] at htext
    cases htext
  | some values =>
    rw [hvalues, Option.bind_some] at htext
    cases hlook : lookupLast? decl.default values with
    | none =>
      rw [hlook] at htext
      cases htext
    | some number =>
      exact ⟨values, rfl, number, mem_of_lookupLast? hlook⟩

theorem enumOf?_eq_some {name : String} {values : List (String × Int)}
    (h : enumOf? ctx node = some (name, values)) :
    ∃ e, ctx.arena.enum? (ctx.arena.target node) = some e ∧ e.numbers = values := by
  obtain ⟨e, henum, heq⟩ := Option.map_eq_some_iff.mp h
  exact ⟨e, henum, congrArg Prod.snd heq⟩

theorem hasAspect_of_mem {name label : String} {values : List (String × Int)} {number : Int}
    (h : enumOf? ctx node = some (name, values)) (hmem : (label, number) ∈ values) :
    HasAspect ctx.arena node (.constant label) := by
  obtain ⟨e, henum, rfl⟩ := enumOf?_eq_some h
  obtain ⟨v, hv, hpair⟩ := mem_map.mp hmem
  exact ⟨e, henum, v, hv, congrArg Prod.fst hpair⟩

/-- What is planned for the default of a field, which is nothing if it has none. -/
theorem defaultConstant_ok {d? : Option (String × DefaultExpr)}
    (hb : Bound ctx file (Refers ctx file used) decl b)
    (h : defaultConstant className b s = .ok d? s') :
    Option.Rel (fun decl d => DefaultLinked (Refers ctx file used) decl d.2)
      (if decl.default.isEmpty then none else some decl) d? := by
  obtain rfl := hb.same
  unfold defaultConstant at h
  split at h
  · rename_i hempty
    cases h
    rw [if_pos hempty]
    exact .none
  · rename_i hdefault
    rw [if_neg hdefault]
    rw [Bool.not_eq_true] at hdefault
    -- The tag of the field has the number of the label, which is looked up in the enum.
    have hlabel (hkind : b.decl.kind = .enum) : ∃ node, b.type? = some (typeUse ctx file node) ∧
        (enumOf? ctx node).isSome ∧
        Refers ctx file used b.decl.typeName node (.constant b.decl.default)
          ((typeUse ctx file node).constant b.decl.default) := by
      obtain ⟨proto3, htag⟩ := hb.tag
      obtain ⟨values, hvalues, number, hmem⟩ := label_of_tag htag hkind hdefault
      obtain ⟨⟨name, _⟩, htype, rfl⟩ := Option.map_eq_some_iff.mp hvalues
      obtain ⟨t, ht, henum⟩ := Option.bind_eq_some_iff.mp htype
      obtain ⟨node, rfl, hr⟩ := hb.meant ht
      exact ⟨node, ht, Option.isSome_of_eq_some henum, hr.sees, hasAspect_of_mem henum hmem, rfl⟩
    dsimp only at h
    split at h
    · rename_i hnone
      obtain ⟨hkind, hnone⟩ := Bool.and_eq_true_iff.mp hnone
      obtain ⟨node, ht, henum, _⟩ := hlabel (beq_iff_eq.mp hkind)
      rw [ht, Option.filter_some, if_pos (by exact henum)] at hnone
      cases hnone
    · obtain ⟨expr?, t, hstep, h⟩ := bind_ok.mp h
      obtain ⟨hexpr, rfl⟩ := ofExcept_ok.mp hstep
      obtain ⟨e, rfl, hconstant⟩ := defaultExpr_spec hdefault hexpr
      cases h
      refine .some ⟨fun hkind hspecial => ?_, fun r hr => ((hconstant r).mp hr).1⟩
      obtain ⟨node, ht, henum, hr⟩ := hlabel hkind
      refine ⟨node, _, (hconstant _).mpr ⟨⟨hkind, hspecial⟩, ?_⟩, hr⟩
      rw [ht, Option.filter_some, if_pos (by exact henum)]
      rfl

theorem lastDefault?_concat (seen : List FieldDecl) (decl : FieldDecl) (number : Int) :
    lastDefault? (seen ++ [decl]) number =
      if decl.number == number && !decl.default.isEmpty then some decl else lastDefault? seen number := by
  rw [lastDefault?, reverse_append, reverse_singleton, singleton_append, find?_cons]
  split <;> simp_all [lastDefault?]

theorem isEmpty_of_lastDefault? (hdecl : decl ∈ decls) (h : lastDefault? decls decl.number = none) :
    decl.default.isEmpty = true := by
  simpa using find?_eq_none.mp h decl (mem_reverse.mpr hdecl)

theorem defaultConstants_ok : ∀ (seen : List FieldDecl) {decls : List FieldDecl} {bs : List FieldBinding}
    {defaults result : Dictionary Int (String × DefaultExpr)} {s s' : PlanState},
    Forall₂ (Bound ctx file (Refers ctx file used)) decls bs →
    Tabulated (fun decl d => DefaultLinked (Refers ctx file used) decl d.2) (lastDefault? seen) defaults →
    defaultConstants className defaults bs s = .ok result s' →
    Tabulated (fun decl d => DefaultLinked (Refers ctx file used) decl d.2)
      (lastDefault? (seen ++ decls)) result
  | seen, [], _, defaults, result, s, s', .nil, hdefaults, h => by
    obtain ⟨rfl, _⟩ := pure_ok.mp h
    rwa [append_nil]
  | seen, decl :: decls, b :: bs, defaults, result, s, s', .cons hb hbs, hdefaults, h => by
    obtain ⟨default?, t, hfirst, h⟩ := bind_ok.mp h
    have hlinked := defaultConstant_ok hb hfirst
    rw [append_cons]
    cases hempty : decl.default.isEmpty with
    | true =>
      rw [if_pos hempty] at hlinked
      cases hlinked
      refine defaultConstants_ok _ hbs ?_ h
      have hsame : lastDefault? (seen ++ [decl]) = lastDefault? seen :=
        funext fun number => by simp [lastDefault?_concat, hempty]
      rwa [hsame]
    | false =>
      rw [hempty] at hlinked
      cases hlinked with
      | some hlinked =>
        refine defaultConstants_ok _ hbs (hdefaults.set hlinked fun number => ?_) h
        rw [lastDefault?_concat, hempty, hb.same, Bool.not_false, Bool.and_true]

/-! ## Oneofs and getters -/

theorem groupAt_ok {decls : List OneofDecl} {groups : Groups} {a : Name.Allocator} {index : Int}
    {g : OneofGroup} {a' : Name.Allocator} (h : groupAt className decls groups a index s = .ok (g, a') s') :
    groups.get? index = some g ∨ (groups.get? index = none ∧
      g.members = [] ∧ g.discriminator = s!"is{className}_{Name.camel g.attr}") := by
  unfold groupAt at h
  cases hget : groups.get? index with
  | some group =>
    rw [hget] at h
    obtain ⟨hpair, _⟩ := pure_ok.mp h
    cases hpair
    exact .inl rfl
  | none =>
    rw [hget] at h
    cases hdecl : indexed? decls index with
    | none =>
      rw [hdecl] at h
      cases h
    | some decl =>
      rw [hdecl] at h
      obtain ⟨⟨attr, getter, a₁⟩, t, _, h⟩ := bind_ok.mp h
      obtain ⟨hpair, _⟩ := pure_ok.mp h
      cases hpair
      exact .inr ⟨rfl, rfl, rfl⟩

theorem oneofMembers?_concat (seen : List FieldDecl) (decl : FieldDecl) (index : Int) :
    oneofMembers? (seen ++ [decl]) index =
      if decl.inOneof && decl.oneofIndex == index then some ((oneofMembers? seen index).getD [] ++ [decl])
      else oneofMembers? seen index := by
  unfold oneofMembers?
  rw [filter_append, filter_singleton]
  split
  · rename_i hmember
    rw [hmember]
    cases seen.filter fun decl => decl.inOneof && decl.oneofIndex == index <;>
      simp [Option.filter_some]
  · rename_i hother
    simp [hother]

theorem groupFields_ok {oneofs : List OneofDecl} : ∀ (seen : List FieldDecl) {decls : List FieldDecl}
    {bs : List FieldBinding} {taken : List String} {groups result : Groups} {a : Name.Allocator}
    {s s' : PlanState}, Forall₂ (Bound ctx file P) decls bs →
    Tabulated (fun decls g => Forall₂ (MemberLinked ctx P) decls g.members) (oneofMembers? seen) groups →
    groupFields className oneofs taken groups a bs s = .ok result s' →
    Tabulated (fun decls g => Forall₂ (MemberLinked ctx P) decls g.members)
      (oneofMembers? (seen ++ decls)) result
  | seen, [], _, taken, groups, result, a, s, s', .nil, hgroups, h => by
    obtain ⟨rfl, _⟩ := pure_ok.mp h
    rwa [append_nil]
  | seen, decl :: decls, b :: bs, taken, groups, result, a, s, s', .cons hb hbs, hgroups, h => by
    rw [append_cons]
    have hsame := hb.same
    unfold groupFields at h
    split at h
    · rename_i hin
      obtain ⟨⟨g, a₁⟩, t, hg, h⟩ := bind_ok.mp h
      rw [hsame] at hin
      have hold : Forall₂ (MemberLinked ctx P) ((oneofMembers? seen decl.oneofIndex).getD []) g.members := by
        rw [hsame] at hg
        rcases groupAt_ok hg with hsome | ⟨hnone, hmembers, _⟩
        · obtain ⟨_, hseen, hmembers⟩ := exists_of_rel_right (hgroups.rel decl.oneofIndex) hsome
          rwa [hseen]
        · rw [eq_none_of_rel (hgroups.rel decl.oneofIndex) hnone, hmembers]
          exact .nil
      have hmember : MemberLinked ctx P decl
          { name := b.decl.name, number := b.decl.number, kind := b.decl.kind, attr := b.attr
            variant := Name.unique s!"{className}_{Name.camel b.attr}" taken
            type? := b.type?.map (·.reference), typeHint := b.typeHint } := by
        obtain rfl := hsame
        exact ⟨rfl, rfl, hb.hint, hb.typeLinked⟩
      refine groupFields_ok _ hbs (hgroups.set (rel_append hold (.cons hmember .nil)) fun index => ?_) h
      rw [oneofMembers?_concat, hin, hsame, Bool.true_and]
      split
      · rename_i hindex
        rw [beq_iff_eq.mp hindex]
      · rfl
    · rename_i hnot
      refine groupFields_ok _ hbs ?_ h
      have hkeep : oneofMembers? (seen ++ [decl]) = oneofMembers? seen :=
        funext fun index => by simp [oneofMembers?_concat, ← hsame, hnot]
      rwa [hkeep]

/-- A getter has the names and the type hint of its field, and falls back to nothing, to the default
for its number or to what its type provides. -/
theorem fieldGetter_spec (proto3 : Bool) (groups : Groups) (variants : Dictionary Int String)
    (defaults : Dictionary Int (String × DefaultExpr)) (b : FieldBinding) :
    let g := fieldGetter proto3 groups variants defaults b
    (g.name = b.getter ∧ g.test.attr = b.attr) ∧ (g.typeHint = b.typeHint ∨ g.typeHint = optionalHint b.typeHint) ∧
      (g.fallback = .nothing ∧ b.defaultsToNothing = true ∨
        g.fallback = match defaults.get? b.decl.number with
          | some (name, _) => .default name
          | none => fallback b) := by
  have hhint {c : Bool} : (if c then optionalHint b.typeHint else b.typeHint) = b.typeHint ∨
      (if c then optionalHint b.typeHint else b.typeHint) = optionalHint b.typeHint := by
    cases c
    · exact .inl rfl
    · exact .inr rfl
  unfold fieldGetter
  dsimp only
  split
  · exact ⟨⟨rfl, rfl⟩, hhint, .inr rfl⟩
  · split
    · rename_i hnothing
      exact ⟨⟨rfl, rfl⟩, hhint, .inl ⟨rfl, hnothing⟩⟩
    · split <;> exact ⟨⟨rfl, rfl⟩, hhint, .inr rfl⟩

/-- What its type provides for a field without a default. -/
theorem fallsBack_fallback {defaults : List (String × DefaultExpr)}
    (hb : Bound ctx file (Refers ctx file used) decl b) (hempty : decl.default.isEmpty = true)
    (hnone : lastDefault? decls decl.number = none) :
    FallsBack ctx (Refers ctx file used) decls defaults decl (fallback b) := by
  obtain rfl := hb.same
  unfold fallback
  split
  · rename_i hkind
    exact .nothing (.inr (.inl (by rw [hkind]; rfl)))
  · rename_i hkind
    exact .nothing (.inr (.inl (by rw [hkind]; rfl)))
  · rename_i hkind
    exact .nothing (.inr (.inr ⟨hkind, hempty⟩))
  · rename_i hkind
    have hnames : b.decl.namedType? = some b.decl.typeName := if_pos (by simp [FieldDecl.namesType, hkind])
    obtain ⟨t, ht, node, rfl, hr⟩ := exists_of_rel_left hb.type hnames
    split
    · rename_i constant hfirst
      rw [ht, Option.bind_some] at hfirst
      obtain ⟨⟨_, values⟩, henum, hfirst⟩ := Option.bind_eq_some_iff.mp hfirst
      obtain ⟨v, hv, rfl⟩ := Option.map_eq_some_iff.mp hfirst
      obtain ⟨e, he, rfl⟩ := enumOf?_eq_some henum
      obtain ⟨value, hvalue, rfl⟩ := Option.map_eq_some_iff.mp ((head?_map ..).symm.trans hv)
      exact .enum hnone he hvalue ⟨hr.sees, ⟨e, he, value, mem_of_mem_head? hvalue, rfl⟩, rfl⟩
    · rename_i hfirst
      rw [← hkind]
      refine .zero hnone fun _ => ⟨node, _, hr, fun e he => ?_⟩
      simpa [ht, typeUse, enumOf?, he, EnumDecl.numbers] using hfirst
  · rename_i hkind
    exact .zero hnone fun h => absurd h hkind

theorem getterLinked_fieldGetter {groups : Groups} {variants : Dictionary Int String}
    {defaults : Dictionary Int (String × DefaultExpr)} (hdecl : decl ∈ decls)
    (hb : Bound ctx file (Refers ctx file used) decl b)
    (hdefaults : Tabulated (fun decl d => DefaultLinked (Refers ctx file used) decl d.2)
      (lastDefault? decls) defaults) :
    GetterLinked ctx (Refers ctx file used) decls (defaults.map (·.2)) decl
      (fieldGetter proto3 groups variants defaults b) := by
  obtain ⟨_, hhint, hfallback⟩ := fieldGetter_spec proto3 groups variants defaults b
  refine ⟨⟨b.typeHint, hb.hint, hhint⟩, ?_⟩
  obtain rfl := hb.same
  rcases hfallback with ⟨hnothing, hwhy⟩ | hfallback
  · rw [hnothing]
    refine .nothing ?_
    simp only [FieldBinding.defaultsToNothing, Bool.or_eq_true, Bool.and_eq_true, beq_iff_eq,
      Option.isNone_iff_eq_none, or_assoc] at hwhy
    exact hwhy.imp_right (.imp_right (.imp_right fun hnone => by simp [FieldDecl.default, hnone]))
  · rw [hfallback]
    have hrel := hdefaults.rel b.decl.number
    cases hget : defaults.get? b.decl.number with
    | none =>
      have hnone := eq_none_of_rel hrel hget
      exact fallsBack_fallback hb (isEmpty_of_lastDefault? hdecl hnone) hnone
    | some d =>
      obtain ⟨other, hother, hlinked⟩ := exists_of_rel_right hrel hget
      exact .default hother (mem_map.mpr ⟨_, Dictionary.mem_of_get? hget, rfl⟩) hlinked

/-! ## Messages -/

theorem map_snd_withPositions {α : Type} (items : List α) : (withPositions items).map (·.2) = items :=
  map_snd_zip (by simp)

theorem map_entry_filterMap (bindings : List FieldBinding) (path : Nat × FieldBinding → String) :
    ((withPositions bindings).filterMap fun p => if p.2.decl.inOneof then none
      else some (FieldPlan.mk (path p) p.2.entry)).map (·.entry) =
      (bindings.filter (!·.decl.inOneof)).map (·.entry) := by
  conv_rhs => rw [← map_snd_withPositions bindings, filter_map, map_map]
  rw [map_filterMap, ← filterMap_eq_map, filterMap_filter]
  refine filterMap_congr fun p _ => ?_
  cases hp : p.2.decl.inOneof <;> simp [hp]

theorem planMessage_steps (h : planMessage ctx file node m s = .ok p s') :
    ∃ proto3 bindings a groups defaults s₁ s₂ s₃,
      bindFields ctx file proto3 {} m.decl.fields s = .ok (bindings, a) s₁ ∧
      groupFields (ctx.arena.camelName node) m.decl.oneofs
        ((m.nested ++ m.enums).map ctx.arena.camelName) [] a bindings s₁ = .ok groups s₂ ∧
      defaultConstants (ctx.arena.camelName node) [] bindings s₂ = .ok defaults s₃ ∧
      s₃.Grows file s' ∧
      (m.isGroup = false → ∃ symbol, .message symbol ∈ s'.offered file node ∧ symbol.name = p.name) ∧
      p.name = ctx.arena.camelName node ∧ p.indexes = ctx.arena.indexes node ∧
      p.oneofs = groups.map (·.2) ∧ p.defaults = defaults.map (·.2) ∧
      p.getters = groups.map (fun g => groupGetter g.2) ++ bindings.map
        (fieldGetter proto3 groups (variantsByNumber groups) defaults) ∧
      p.fields.map (·.entry) = (bindings.filter (!·.decl.inOneof)).map (·.entry) := by
  obtain ⟨⟨bindings, a⟩, s₁, hbind, h⟩ := bind_ok.mp h
  obtain ⟨groups, s₂, hgroups, h⟩ := bind_ok.mp h
  obtain ⟨defaults, s₃, hdefaults, h⟩ := bind_ok.mp h
  refine ⟨_, bindings, a, groups, defaults, s₁, s₂, s₃, hbind, hgroups, hdefaults, ?_⟩
  dsimp only at h
  have hlast {q p : MessagePlan} {t : PlanState} (h : (do
      defaults.forM fun d => offer file node (.const d.2.1)
      pure q : Planner MessagePlan) t = .ok p s') : q = p ∧ t.Grows file s' := by
    obtain ⟨_, u, hforM, h⟩ := bind_ok.mp h
    obtain ⟨rfl, rfl⟩ := pure_ok.mp h
    exact ⟨rfl, Grows.forM (fun _ => Grows.offer _ _) _ hforM⟩
  split at h
  · obtain ⟨_, t, hoffer, h⟩ := bind_ok.mp h
    obtain ⟨rfl, hgrows⟩ := hlast h
    have hoffered := offered_offer hoffer file node
    rw [if_pos rfl] at hoffered
    refine ⟨(Grows.offer _ _ hoffer).trans hgrows, fun _ => ?_, rfl, rfl, ?_, rfl, ?_,
      map_entry_filterMap _ _⟩
    · exact ⟨_, hgrows.offered node (hoffered ▸ mem_append_right _ mem_cons_self), rfl⟩
    · simp [MessagePlan.oneofs]
    · simp
  · rename_i hgroup
    obtain ⟨rfl, hgrows⟩ := hlast h
    refine ⟨hgrows, fun hnot => absurd hnot (by simpa using hgroup), rfl, rfl, ?_, rfl, ?_,
      map_entry_filterMap _ _⟩
    · simp [MessagePlan.oneofs]
    · simp

theorem planMessage_ok (h : planMessage ctx file node m s = .ok p s') :
    p.Expressions ctx (Refers ctx file s'.usedFiles) m := by
  obtain ⟨proto3, bindings, a, groups, defaults, s₁, s₂, s₃, hbind, hgroups, hdefaults, hgrows, _, _,
    _, honeofs, hconstants, hgetters, _⟩ := planMessage_steps h
  have hused : s₁.usedFiles ⊆ s'.usedFiles :=
    List.Subset.trans
      ((growing ctx file).groupFields _ _ _ _ _ _ (fun _ _ _ _ => trivial) hgroups).used
      (List.Subset.trans
        ((growing ctx file).defaultConstants _ _ _ (fun _ _ => trivial) hdefaults).used hgrows.used)
  have hbound := (bindFields_ok hbind).imp fun _ _ hb =>
    hb.imp fun _ _ _ _ hr => hr.mono ctx file hused
  have hconstant := defaultConstants_ok [] hbound (.nil fun _ => rfl) hdefaults
  have hgroup := groupFields_ok [] hbound (.nil fun _ => rfl) hgroups
  have hlength : p.groups.length = groups.length := by
    have := congrArg List.length honeofs
    simpa [MessagePlan.oneofs] using this
  refine ⟨?_, ⟨defaults, hconstants, hconstant⟩, groups, honeofs, hgroup⟩
  rw [hgetters, hlength, ← length_map (fun g => groupGetter g.2), drop_left, forall₂_map_right_iff,
    hconstants]
  have hall := (forall₂_and_left _ _).mpr ⟨fun _ (hdecl : _ ∈ m.decl.fields) => hdecl, hbound⟩
  exact hall.imp fun decl b hb => getterLinked_fieldGetter hb.1 hb.2 hconstant

end

end Planner

end Protobind
