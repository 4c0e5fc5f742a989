import Protobind.Proofs.Decoding

/-!
# Well-formed classes

The constructor of a class stores each attribute once, under a name that the codec does not look up
in messages; then a message is read and written by the table of its class
(`Record.Clear.layout_eq`), and blank after its constructor
(`MessageType.StoresApart.blank_initialized`). The names in tables and in the functions for oneofs
mean classes of the right sort (`Registry.WellFormed`).
-/

namespace Protobind

open List Registry Decode MessageType Record

variable {reg : Registry} {id : ClassId} {t : MessageType} {m : Message} {attr : String} {f : Field}
  {group : OneofSlot} {member : VariantMember} {number : Int} {pairs : List (String × Value)}
  {table : List Field}

/-! ## Attributes -/

namespace Record

theorem get?_set (m : Message) (attr a : String) (v : Value) :
    (m.set attr v).get? a = if attr == a then some v else m.get? a :=
  Dictionary.get?_set attr a v m.attrs

theorem erase_eq_self (h : m.get? attr = none) : m.erase attr = m := by
  have hkeys : ∀ p ∈ m.attrs, p.1 ≠ attr := by
    unfold get? at h
    generalize m.attrs = attrs at h
    induction attrs with
    | nil => exact forall_mem_nil _
    | cons q rest ih =>
      unfold Dictionary.get? at h
      split at h
      · cases h
      · rename_i hne
        intro p hp
        rcases mem_cons.mp hp with rfl | hp
        · simpa using hne
        · exact ih h p hp
  have hfilter : Dictionary.erase attr m.attrs = m.attrs :=
    filter_eq_self.mpr fun p hp => by simpa using hkeys p hp
  unfold erase
  rw [hfilter]

end Record

/-- The names that the codec looks up in a message before it turns to its class. -/
def reservedAttrs : List String :=
  ["reset", "_fields", "_oneofs", "oneof_funcs", "extension_range_array", extensionsAttr,
   unknownAttr, dictionaryAttr]

theorem ne_of_free {a : String} (h : attr ∉ reservedAttrs) (ha : a ∈ reservedAttrs) : (attr == a) = false := by
  rw [beq_eq_false_iff_ne]
  rintro rfl
  exact h ha

namespace Record

/-- The message with other records of extensions. -/
abbrev keeping (m : Message) (ext : RawMap) : Message := { m with extensions? := some ext }

theorem keeping_eq {ext : RawMap} (h : m.extensions? = some ext) : m.keeping ext = m := by
  rw [keeping, ← h]

theorem store_eq_set (h : attr ∉ reservedAttrs) (m : Message) (v : Value) :
    m.store attr v = m.set attr v := by
  simp [store, storeOne, ne_of_free h (a := dictionaryAttr) (by decide),
    ne_of_free h (a := extensionsAttr) (by decide), ne_of_free h (a := unknownAttr) (by decide)]

theorem own?_eq_get? (h : attr ∉ reservedAttrs) (m : Message) : m.own? attr = m.get? attr := by
  simp [own?, ownOne?, ne_of_free h (a := dictionaryAttr) (by decide),
    ne_of_free h (a := extensionsAttr) (by decide), ne_of_free h (a := unknownAttr) (by decide)]

theorem store_no_extensions (h : m.get? extensionsAttr = none) :
    m.store extensionsAttr (.map []) = m.keeping [] := by
  show { m.erase extensionsAttr with extensions? := some [] } = _
  rw [erase_eq_self h]

theorem store_unknown (h : m.get? unknownAttr = none) (raw : Bytes) :
    m.store unknownAttr (.bytes raw) = { m with unknown? := some raw } := by
  show { m.erase unknownAttr with unknown? := some raw } = _
  rw [erase_eq_self h]

/-- Whether a message has no attribute of a name that the codec looks up. -/
def Clear (m : Message) : Prop := ∀ attr ∈ reservedAttrs, m.get? attr = none

theorem Clear.set (hm : m.Clear) (h : attr ∉ reservedAttrs) (v : Value) : (m.set attr v).Clear := by
  intro a ha
  have hne : attr ≠ a := fun he => h (he ▸ ha)
  rw [get?_set, if_neg (by simpa using hne)]
  exact hm a ha

theorem storeAll_cons (m : Message) (p : String × Value) (pairs : List (String × Value)) :
    m.storeAll (p :: pairs) = (m.store p.1 p.2).storeAll pairs := rfl

/-- Sets attributes one after another. -/
def setAll (m : Message) (pairs : List (String × Value)) : Message :=
  { m with attrs := pairs.foldl (fun attrs p => Dictionary.set p.1 p.2 attrs) m.attrs }

theorem storeAll_eq_setAll : ∀ {m : Message}, (∀ p ∈ pairs, p.1 ∉ reservedAttrs) →
    m.storeAll pairs = m.setAll pairs := by
  induction pairs with
  | nil => exact fun _ => rfl
  | cons p pairs ih =>
    intro m h
    rw [storeAll_cons, store_eq_set (h p mem_cons_self), ih fun q hq => h q (mem_cons_of_mem _ hq)]
    rfl

theorem get?_setAll_of_not_mem {a : String} : ∀ {m : Message}, a ∉ pairs.map (·.1) →
    (m.setAll pairs).get? a = m.get? a := by
  induction pairs with
  | nil => exact fun _ => rfl
  | cons p pairs ih =>
    intro m ha
    rw [map_cons, mem_cons, not_or] at ha
    refine (ih (m := m.set p.1 p.2) ha.2).trans ?_
    rw [get?_set, if_neg (by simpa using Ne.symm ha.1)]

theorem get?_setAll : ∀ {m : Message}, (pairs.map (·.1)).Nodup →
    ∀ p ∈ pairs, (m.setAll pairs).get? p.1 = some p.2 := by
  induction pairs with
  | nil => exact fun _ p hp => absurd hp not_mem_nil
  | cons q pairs ih =>
    intro m hnodup p hp
    rw [map_cons, nodup_cons] at hnodup
    rcases mem_cons.mp hp with rfl | hp
    · refine (get?_setAll_of_not_mem (m := m.set p.1 p.2) hnodup.1).trans ?_
      rw [get?_set, if_pos (by simp)]
    · exact ih (m := m.set q.1 q.2) hnodup.2 p hp

theorem Clear.setAll (hm : m.Clear) (h : ∀ p ∈ pairs, p.1 ∉ reservedAttrs) : (m.setAll pairs).Clear := by
  intro attr hattr
  rw [get?_setAll_of_not_mem fun hmem => ?_, hm attr hattr]
  obtain ⟨p, hp, rfl⟩ := mem_map.mp hmem
  exact h p hp hattr

end Record

/-! ## Constructors -/

/-- What is stored for a parameter that no argument is given for. -/
def Param.start (p : Param) : Value := if p.default.isNull then p.whenNull else p.default

theorem bindArguments_nil (params : List Param) :
    bindArguments params [] = params.map fun p => (p.attr, p.start) := by
  induction params with
  | nil => rfl
  | cons p params ih =>
    rw [map_cons, ← ih]
    rfl

namespace MessageType

/-- The attributes that the constructor of a class stores. -/
def storedAttrs (t : MessageType) : List String := t.params.map (·.attr)

/-- What the constructor of a class stores when it is called without arguments. -/
def initialPairs (t : MessageType) : List (String × Value) := t.params.map fun p => (p.attr, p.start)

theorem initialPairs_attrs (t : MessageType) : t.initialPairs.map (·.1) = t.storedAttrs := by
  unfold initialPairs storedAttrs
  rw [map_map]
  rfl

/-- Whether a class stores each attribute once, and none under a name that the codec looks up. -/
structure StoresApart (t : MessageType) : Prop where
  nodup : t.storedAttrs.Nodup
  free : ∀ attr ∈ t.storedAttrs, attr ∉ reservedAttrs

/-- Whether a message holds what the constructor of a class stores when it is called without
arguments. -/
structure Blank (t : MessageType) (m : Message) : Prop where
  stored : ∀ p ∈ t.params, m.get? p.attr = some p.start
  clear : m.Clear
  extensions : t.hasExtensions = true → m.extensions? = some []
  unknown : t.keepsUnknown = true → m.unknown? = some []

namespace StoresApart

variable (ht : t.StoresApart) (hm : m.Clear)
include ht

theorem initialPairs_free : ∀ p ∈ t.initialPairs, p.1 ∉ reservedAttrs := by
  intro p hp
  refine ht.free p.1 ?_
  rw [← t.initialPairs_attrs]
  exact mem_map_of_mem hp

include hm

/-- The constructor stores what its parameters start with, and makes the stores of the records
empty. -/
theorem initialized_eq : initialized t [] m =
      { m.setAll t.initialPairs with
        extensions? := if t.hasExtensions then some [] else m.extensions?
        unknown? := if t.keepsUnknown then some [] else m.unknown? } := by
  have hclear := hm.setAll ht.initialPairs_free
  unfold initialized
  rw [bindArguments_nil]
  show (if t.keepsUnknown then
      (if t.hasExtensions then (m.storeAll t.initialPairs).store extensionsAttr (.map [])
        else m.storeAll t.initialPairs).store unknownAttr (.bytes [])
    else if t.hasExtensions then (m.storeAll t.initialPairs).store extensionsAttr (.map [])
      else m.storeAll t.initialPairs) = _
  rw [storeAll_eq_setAll ht.initialPairs_free, store_no_extensions (hclear extensionsAttr (by decide))]
  have hstored : ∀ extensions?,
      ({ m.setAll t.initialPairs with extensions? } : Message).get? unknownAttr = none :=
    fun _ => hclear unknownAttr (by decide)
  cases t.hasExtensions <;> cases t.keepsUnknown <;>
    simp only [if_true, if_false, Bool.false_eq_true, store_unknown, hstored] <;> rfl

theorem blank_initialized : t.Blank (initialized t [] m) := by
  rw [ht.initialized_eq hm]
  refine ⟨fun p hp => ?_, hm.setAll ht.initialPairs_free, fun h => if_pos h, fun h => if_pos h⟩
  exact get?_setAll (by rw [t.initialPairs_attrs]; exact ht.nodup) (p.attr, p.start) (mem_map_of_mem hp)

theorem type_initialized : (initialized t [] m).type = m.type := by
  rw [ht.initialized_eq hm]
  rfl

end StoresApart

end MessageType

/-! ## Calls of classes -/

theorem Registry.class?_of_messageType? (h : reg.messageType? id = some t) :
    reg.class? id = some (.message t) := by
  unfold messageType? at h
  split at h
  · rename_i hclass
    cases h
    exact hclass
  · cases h

theorem Registry.class?_of_enumType? {t : EnumType} (h : reg.enumType? id = some t) :
    reg.class? id = some (.enum t) := by
  unfold enumType? at h
  split at h
  · rename_i hclass
    cases h
    exact hclass
  · cases h

theorem Registry.class?_of_variantType? {t : VariantType} (h : reg.variantType? id = some t) :
    reg.class? id = some (.variant t) := by
  unfold variantType? at h
  split at h
  · rename_i hclass
    cases h
    exact hclass
  · cases h

theorem Registry.apply_enum {t : EnumType} (h : reg.enumType? id = some t) (n : Int) :
    reg.apply (.type id) (.int n) = .ok (.enum id n) := by
  unfold apply call
  simp only [class?_of_enumType? h]
  rfl

/-- The message that the constructor of a class makes without arguments. -/
abbrev MessageType.empty (t : MessageType) (id : ClassId) : Message :=
  initialized t [] { type := id, attrs := [] }

theorem Registry.instantiate_message (h : reg.messageType? id = some t) (hcall : t.callFault? [] = none) :
    reg.instantiate (.type id) = .ok (.message (t.empty id)) := by
  unfold instantiate call
  simp only [class?_of_messageType? h]
  unfold keywords construct constructOn
  simp only [h, hcall, bind, Except.bind, pure, Except.pure]

theorem Registry.instantiate_of_fault {fault : Fault} (h : reg.messageType? id = some t)
    (hfault : t.callFault? [] = some fault) :
    reg.instantiate (.type id) = .error fault := by
  unfold instantiate call
  simp only [class?_of_messageType? h]
  unfold keywords construct constructOn
  simp only [h, hfault, bind, Except.bind]

theorem VariantType.constructorFault?_of_null {t : VariantType}
    (h : t.constructorFault? .null = none) (v : Value) : t.constructorFault? v = none := by
  unfold VariantType.constructorFault? at h ⊢
  split at h
  · cases h
  · rename_i hstored
    rw [if_neg hstored]
    split at h
    · cases h
    · cases h
    · cases h
    · cases h
    · rfl

theorem VariantType.constructorFault?_null {t : VariantType} {v : Value} (h : t.constructorFault? v = none)
    (hv : ∀ entries, v ≠ .map entries) : t.constructorFault? .null = none := by
  unfold VariantType.constructorFault? at h ⊢
  split at h
  · cases h
  · rename_i hstored
    rw [if_neg hstored]
    split at h
    · cases h
    · cases h
    · cases h
    · split at h
      · exact absurd rfl (hv _)
      · cases h
    · rfl

/-! ## Layouts -/

/-- The layout of the messages of a class. -/
def Decode.Layout.ofType (t : MessageType) : Layout where
  table := t.fields
  codec? := t.codec?
  ranges := t.ranges

/-- Whether the table that data is read by and the ranges of a class are those that it declares. -/
structure MessageType.Settled (t : MessageType) : Prop where
  index : ∀ table, t.index? = some table → table = t.fields
  ranges : t.displaced? = none

namespace Record.Clear

variable (hm : m.Clear)
include hm

theorem tableOf_eq (t : MessageType) : t.tableOf m = .ok t.fields := by
  unfold tableOf
  rw [hm "_fields" (by decide)]

theorem codecOf_eq (t : MessageType) : t.codecOf m = .ok t.codec? := by
  unfold codecOf
  rw [hm "oneof_funcs" (by decide)]

theorem oneofsOf_eq (t : MessageType) : t.oneofsOf m = .ok t.oneofs := by
  unfold oneofsOf
  rw [hm "_oneofs" (by decide)]

theorem extensionStore?_eq : m.extensionStore? = m.extensions?.map .records := by
  unfold extensionStore?
  rw [hm extensionsAttr (by decide)]

theorem addUnknown_eq (raw : Bytes) :
    m.addUnknown raw = .ok { m with unknown? := m.unknown?.map (· ++ raw) } := by
  unfold addUnknown
  rw [hm unknownAttr (by decide)]

theorem keep_cases {ranges : List FieldRange} {raw : Bytes} {m' : Message}
    (h : keep ranges m number raw = .ok m') :
    (inRanges number ranges = true ∧ ∃ ext, m.extensions? = some ext ∧ m' = { m with
        extensions? := some (Dictionary.set number ((Dictionary.get? number ext).getD [] ++ raw) ext) }) ∨
      (inRanges number ranges = false ∧ m' = { m with unknown? := m.unknown?.map (· ++ raw) }) := by
  unfold keep at h
  split at h
  · rename_i hrange
    rw [hm.extensionStore?_eq] at h
    cases hext : m.extensions? with
    | none => rw [hext] at h; cases h
    | some ext =>
      rw [hext] at h
      cases h
      exact .inl ⟨hrange, ext, rfl, rfl⟩
  · rename_i hrange
    rw [hm.addUnknown_eq] at h
    cases h
    exact .inr ⟨by simpa using hrange, rfl⟩

theorem writtenUnknown_eq : m.writtenUnknown = .ok (m.unknown?.getD []) := by
  unfold writtenUnknown
  rw [hm unknownAttr (by decide)]

theorem layout_eq (hs : t.Settled) (htype : m.HasType reg t) :
    layout reg m = .ok (Layout.ofType t) := by
  have hindex : t.indexOf m = .ok t.fields := by
    unfold indexOf
    cases h : t.index? with
    | none => exact hm.tableOf_eq t
    | some table => rw [hs.index table h]
  have hranges : t.rangesOf m = .ok t.ranges := by
    unfold MessageType.rangesOf
    rw [hm "extension_range_array" (by decide), hs.ranges]
  unfold layout
  simp only [htype]
  rw [hindex, hm.codecOf_eq, hranges]
  rfl

end Record.Clear

/-! ## Well-formed classes -/

/-- Whether the type name of a table entry means what the kind of the entry asks for. -/
structure Slot.Resolves (reg : Registry) (slot : Slot) : Prop where
  known : ∃ kind, slot.kind = .known kind
  message : slot.kind.isMessage = true → ∃ name id t, slot.typeName? = some name ∧
    Dictionary.get? name reg.messageTypes = some (.type id) ∧ reg.messageType? id = some t
  enum : ∀ name b, slot.kind = .known .enum → slot.typeName? = some name →
    Dictionary.get? name reg.enumTypes = some b → ∃ id t, b = .type id ∧ reg.enumType? id = some t

/-- Whether the type names of a table entry mean what they should. The keys of a map are single
values that a dictionary takes as keys. -/
def Field.Resolves (reg : Registry) : Field → Prop
  | .plain slot => slot.Resolves reg
  | .map _ (.plain key) (.plain val) =>
    key.Resolves reg ∧ key.kind.isMessage = false ∧ key.tag.repeated = false ∧ val.Resolves reg
  | .map .. => False

theorem Field.Resolves.map_plain {slot : Slot} {key val : Field} (h : (Field.map slot key val).Resolves reg) :
    ∃ k x, key = .plain k ∧ val = .plain x := by
  cases key <;> cases val <;> first | exact ⟨_, _, rfl, rfl⟩ | exact h.elim

/-- Whether the names that the functions for a oneof use for a member mean what they should. -/
structure VariantMember.Resolves (reg : Registry) (member : VariantMember) : Prop where
  variant : ∃ id t, member.variant = .ok (.type id) ∧ reg.variantType? id = some t
  message : member.kind.isMessage = true →
    ∃ id t, member.type = .ok (.type id) ∧ reg.messageType? id = some t
  enum : member.kind = .enum → ∃ id t, member.type = .ok (.type id) ∧ reg.enumType? id = some t

theorem Slot.Resolves.enumValue {slot : Slot} (h : slot.Resolves reg) (hkind : slot.kind = .known .enum)
    (n : Int) : ∃ v, reg.enumValue slot.typeName? n = .ok v ∧ v.asInt = .ok n ∧ v.isKey = true ∧
      v.isNull = false ∧ (slot.typeName? = none → v = .int n) := by
  unfold Registry.enumValue
  split
  · rename_i b hb
    obtain ⟨name, hname, hb⟩ := Option.bind_eq_some_iff.mp hb
    obtain ⟨id, t, rfl, ht⟩ := h.enum name b hkind hname hb
    exact ⟨_, reg.apply_enum ht _, rfl, rfl, rfl, fun hnone => by cases hname.symm.trans hnone⟩
  · exact ⟨_, rfl, rfl, rfl, rfl, fun _ => rfl⟩

theorem VariantMember.slot_resolves (reg : Registry) (h : member.kind.isMessage = false) :
    member.slot.Resolves reg where
  known := ⟨member.kind, rfl⟩
  message := fun hmessage => by cases h.symm.trans hmessage
  enum := fun name b _ hname => by cases hname

theorem VariantMember.Resolves.readStep_enum (h : member.Resolves reg) (hkind : member.kind = .enum) :
    ∃ id, ∀ nested bs, readStep reg nested member.type bs (OneofCase.ofKind member.kind).read =
      mapParse (fun n : Nat => .enum id (signed32 n)) (ofReader Varint.read) bs := by
  obtain ⟨id, t, hbound, ht⟩ := h.enum hkind
  refine ⟨id, fun nested bs => ?_⟩
  rw [hkind, hbound]
  simp only [OneofCase.ofKind, readStep, readSource, mapParse, ofReader_lift, ok_bind]
  cases ofReader Varint.read bs with
  | error fault => rfl
  | ok r => simp only [ok_bind, pure_eq_ok, convert, Value.asInt, apply_enum ht]

/-- Whether the attribute of a field may start with a value. -/
def Field.StartsWith : Field → Value → Prop
  | .plain slot, v =>
    if slot.tag.repeated then v = .null ∨ v = .list []
    else slot.kind.isMessage = true → v = .null
  | .map .., v => v = .null ∨ v = .map []

namespace MessageType

/-- The oneofs that the functions of a class know. -/
def groups (t : MessageType) : List OneofSlot := (t.codec?.map (·.groups)).getD []

/-- The attributes that the codec uses. -/
def codecAttrs (t : MessageType) : List String :=
  t.fields.map (·.slot.attr) ++ t.groups.map (·.attr)

/-- The numbers of the fields and of the members of the oneofs. -/
def numbers (t : MessageType) : List Int :=
  t.fields.map (·.number) ++ t.groups.flatMap fun group => group.members.map (·.number)

theorem mem_codecAttrs : attr ∈ t.codecAttrs ↔
    (∃ f ∈ t.fields, f.slot.attr = attr) ∨ ∃ group ∈ t.groups, group.attr = attr := by
  simp [codecAttrs]

theorem mem_numbers : number ∈ t.numbers ↔ (∃ f ∈ t.fields, f.number = number) ∨
    ∃ group ∈ t.groups, ∃ member ∈ group.members, member.number = number := by
  simp [numbers]

/-- Whether a class is as the codec expects it. -/
structure WellFormed (reg : Registry) (t : MessageType) : Prop extends t.StoresApart, t.Settled where
  fields : ∀ f ∈ t.fields, f.Resolves reg
  members : ∀ group ∈ t.groups, ∀ member ∈ group.members, member.Resolves reg
  numbered : ∀ n ∈ t.numbers, 0 < n ∧ n < 2305843009213693952
  numbersOnce : t.numbers.Nodup
  attrsOnce : t.codecAttrs.Nodup
  attrsFree : ∀ attr ∈ t.codecAttrs, attr ∉ reservedAttrs
  starts : ∀ f ∈ t.fields, ∀ p ∈ t.params, p.attr = f.slot.attr → f.StartsWith p.start
  extensible : t.ranges ≠ [] → t.hasExtensions = true
  set : t.isMessageSet = true → t.hasExtensions = true ∧ t.fields = [] ∧ t.codec? = none

end MessageType

/-- Whether all message classes are as the codec expects them. -/
def Registry.WellFormed (reg : Registry) : Prop :=
  ∀ id t, reg.messageType? id = some t → t.WellFormed reg

/-! ## Numbers -/

theorem find?_eq_of_nodup {α : Type} (key : α → Int) {as : List α} (h : (as.map key).Nodup) {a : α}
    (ha : a ∈ as) : as.find? (key · == key a) = some a := by
  induction as with
  | nil => cases ha
  | cons first rest ih =>
    rw [map_cons, nodup_cons] at h
    rw [find?_cons]
    rcases mem_cons.mp ha with rfl | ha
    · simp
    · have hne : key first ≠ key a := fun heq => h.1 (heq ▸ mem_map_of_mem ha)
      simp only [beq_eq_false_iff_ne.mpr hne]
      exact ih h.2 ha

theorem fieldNumbered?_eq (h : (table.map (·.number)).Nodup) (hf : f ∈ table) :
    fieldNumbered? f.number table = some f := by
  refine find?_eq_of_nodup Field.number ?_ (mem_reverse.mpr hf)
  rw [map_reverse]
  exact nodup_reverse.mpr h

theorem fieldNumbered?_eq_none (h : number ∉ table.map (·.number)) :
    fieldNumbered? number table = none := by
  refine find?_eq_none.mpr fun f hf heq => ?_
  have hnumber : f.number = number := by simpa using heq
  exact h (hnumber ▸ mem_map_of_mem (mem_reverse.mp hf))

theorem find?_number_eq_none {members : List VariantMember} (h : number ∉ members.map (·.number)) :
    members.find? (·.number == number) = none := by
  refine find?_eq_none.mpr fun member hmember heq => h ?_
  exact mem_map.mpr ⟨member, hmember, beq_iff_eq.mp heq⟩

theorem findByNumber?_eq {groups : List OneofSlot}
    (h : (groups.flatMap fun group => group.members.map (·.number)).Nodup) (hgroup : group ∈ groups)
    (hmember : member ∈ group.members) :
    findByNumber? member.number groups = some (group, member) := by
  induction groups with
  | nil => cases hgroup
  | cons first groups ih =>
    rw [flatMap_cons] at h
    have hdisjoint := disjoint_of_nodup_append h
    unfold findByNumber?
    rcases mem_cons.mp hgroup with rfl | hgroup
    · rw [find?_eq_of_nodup VariantMember.number (List.Nodup.of_append_left h) hmember]
    · rw [find?_number_eq_none fun hmem =>
        hdisjoint hmem (mem_flatMap.mpr ⟨group, hgroup, mem_map_of_mem hmember⟩)]
      exact ih (List.Nodup.of_append_right h) hgroup

theorem findByNumber?_eq_none {groups : List OneofSlot}
    (h : number ∉ groups.flatMap fun group => group.members.map (·.number)) :
    findByNumber? number groups = none := by
  induction groups with
  | nil => rfl
  | cons first groups ih =>
    rw [flatMap_cons, mem_append, not_or] at h
    unfold findByNumber?
    rw [find?_number_eq_none h.1]
    exact ih h.2

namespace MessageType.WellFormed

variable (h : t.WellFormed reg)
include h

theorem field_attr_free (hf : f ∈ t.fields) : f.slot.attr ∉ reservedAttrs :=
  h.attrsFree _ (mem_codecAttrs.mpr (.inl ⟨f, hf, rfl⟩))

theorem group_attr_free (hgroup : group ∈ t.groups) : group.attr ∉ reservedAttrs :=
  h.attrsFree _ (mem_codecAttrs.mpr (.inr ⟨group, hgroup, rfl⟩))

theorem field_eq_of_attr {g : Field} (hf : f ∈ t.fields) (hg : g ∈ t.fields) (heq : f.slot.attr = g.slot.attr) :
    f = g :=
  inj_on_of_nodup_map (List.Nodup.of_append_left h.attrsOnce) hf hg heq

theorem group_attr_ne (hgroup : group ∈ t.groups) (hf : f ∈ t.fields) : group.attr ≠ f.slot.attr := by
  intro heq
  have hdisjoint := disjoint_of_nodup_append h.attrsOnce
  exact hdisjoint (mem_map_of_mem hf) (heq ▸ mem_map_of_mem hgroup)

theorem number_of_field (hf : f ∈ t.fields) : IsNumber f.number :=
  h.numbered f.number (mem_numbers.mpr (.inl ⟨f, hf, rfl⟩))

theorem number_of_member (hgroup : group ∈ t.groups) (hmember : member ∈ group.members) :
    IsNumber member.number :=
  h.numbered member.number (mem_numbers.mpr (.inr ⟨group, hgroup, member, hmember, rfl⟩))

theorem fieldNumbered?_field (hf : f ∈ t.fields) : fieldNumbered? f.number t.fields = some f :=
  fieldNumbered?_eq (List.Nodup.of_append_left h.numbersOnce) hf

theorem fieldNumbered?_member (hgroup : group ∈ t.groups) (hmember : member ∈ group.members) :
    fieldNumbered? member.number t.fields = none :=
  fieldNumbered?_eq_none fun hmem => disjoint_of_nodup_append h.numbersOnce hmem
    (mem_flatMap.mpr ⟨group, hgroup, mem_map_of_mem hmember⟩)

theorem findByNumber?_member (hgroup : group ∈ t.groups) (hmember : member ∈ group.members) :
    findByNumber? member.number t.groups = some (group, member) :=
  findByNumber?_eq (List.Nodup.of_append_right h.numbersOnce) hgroup hmember

theorem mergeRecord_field (hf : f ∈ t.fields) (nested : Nested) (m : Message) (wire : Nat)
    (start rest : Bytes) :
    mergeRecord reg nested (.ofType t) m f.number.toNat wire start rest =
      mergeField reg nested m f wire rest := by
  have hcast : ((f.number.toNat : Nat) : Int) = f.number :=
    Int.toNat_of_nonneg (Int.le_of_lt (h.number_of_field hf).1)
  unfold mergeRecord
  rw [hcast, show (Layout.ofType t).table = t.fields from rfl, h.fieldNumbered?_field hf]

theorem mergeRecord_member (hgroup : group ∈ t.groups) (hmember : member ∈ group.members)
    (nested : Nested) (m : Message) (wire : Nat) (start rest : Bytes) :
    mergeRecord reg nested (.ofType t) m member.number.toNat wire start rest =
      mergeMember reg nested m group member wire rest := by
  have hcast : ((member.number.toNat : Nat) : Int) = member.number :=
    Int.toNat_of_nonneg (Int.le_of_lt (h.number_of_member hgroup hmember).1)
  have hfound : (t.codec?.bind fun codec => findByNumber? member.number codec.groups) =
      some (group, member) := by
    have hgroups := h.findByNumber?_member hgroup hmember
    unfold groups at hgroups
    cases hcodec : t.codec? with
    | none => rw [hcodec] at hgroups; cases hgroups
    | some codec => rw [hcodec] at hgroups; exact hgroups
  unfold mergeRecord
  rw [hcast, show (Layout.ofType t).table = t.fields from rfl, h.fieldNumbered?_member hgroup hmember]
  simp only [show (Layout.ofType t).codec? = t.codec? from rfl, hfound]

end MessageType.WellFormed

/-! ## Merging -/

theorem Decode.mergeSet_eq (hm : m.Clear) {ext : RawMap} (hext : m.extensions? = some ext)
    (bs : Bytes) :
    mergeSet m bs =
      match (MessageSet.decode ext bs).2 with
      | none => .done (m.keeping (MessageSet.decode ext bs).1) []
      | some e => .failed (.malformed e) (m.keeping (MessageSet.decode ext bs).1) := by
  unfold mergeSet
  rw [hm.extensionStore?_eq, hext]
  simp only [Option.map_some, MessageSet.decodeStore]
  cases (MessageSet.decode ext bs).2 <;> rfl

section

variable (ht : m.HasType reg t)
include ht

theorem merge_eq_mergeSet (hset : t.isMessageSet = true) (bs : Bytes) :
    merge reg m bs = mergeSet m bs := by
  unfold merge
  rw [if_pos (by simp [ht, hset])]

variable (hs : t.Settled) (hm : m.Clear)
include hs hm

theorem mergeFrom_of_clear (inGroup : Bool) (bs : Bytes) :
    mergeFrom reg bs.length inGroup m bs = records reg inGroup (.ofType t) m bs := by
  rw [mergeFrom_eq_records, hm.layout_eq hs ht]

theorem merge_of_clear (hset : t.isMessageSet = false) (bs : Bytes) :
    merge reg m bs = records reg false (.ofType t) m bs := by
  unfold merge
  rw [if_neg (by simp [ht, hset]), mergeFrom_of_clear ht hs hm]

end

end Protobind
