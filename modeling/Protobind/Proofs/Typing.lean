import Protobind.Proofs.Contents
import Protobind.Proofs.RawRecords
import Protobind.Proofs.Scalars

/-!
# Well-typed messages

When the tables of a class describe its messages (`MessageType.Regular`), and when the values of a
message are of the types that its tables ask for (`Registry.Typed`).
-/

namespace Protobind

open List Registry

variable {reg : Registry} {m : Message} {v : Value} {attr : String} {entries : List (Value × Value)}
  {items : List Value} {t : MessageType}

/-! ## Regular classes -/

/-- Whether a table entry has the wire type of its kind, and is packed or a group only where the
format has a form for that. -/
structure Slot.Regular (reg : Registry) (slot : Slot) : Prop extends slot.Resolves reg where
  wire : ∀ kind, slot.kind = .known kind → slot.tag.wireType = kind.encoding.wireType
  packed : slot.tag.packed = true → slot.kind.isPackable = true
  group : slot.kind = .known .group → ∀ name id t, slot.typeName? = some name →
    Dictionary.get? name reg.messageTypes = some (.type id) → reg.messageType? id = some t →
      t.isMessageSet = false

/-- Whether a table entry is regular. The entries of a map have one key and one value, with the
numbers one and two. -/
def Field.Regular (reg : Registry) : Field → Prop
  | .plain slot => slot.Regular reg
  | .map _ (.plain key) (.plain val) =>
    key.Regular reg ∧ key.kind.isMessage = false ∧ key.tag.repeated = false ∧ key.tag.number = 1 ∧
      val.Regular reg ∧ val.tag.repeated = false ∧ val.tag.number = 2
  | .map .. => False

theorem Field.Regular.map_plain {slot : Slot} {key val : Field} (h : (Field.map slot key val).Regular reg) :
    ∃ k x, key = .plain k ∧ val = .plain x := by
  cases key <;> cases val <;> first | exact ⟨_, _, rfl, rfl⟩ | exact h.elim

/-- Whether a field has a value also when it was never set: it is a field of single values, whose
absence is not told from zero. -/
def Slot.isImplicit (slot : Slot) : Bool := slot.tag.proto3 && !slot.kind.isMessage

theorem Slot.isMessage_eq {slot : Slot} {kind : Kind} (h : slot.kind = .known kind) :
    slot.kind.isMessage = kind.isMessage := by
  rw [h]
  rfl

theorem Slot.isMessage_of_isImplicit {slot : Slot} (h : slot.isImplicit = true) :
    slot.kind.isMessage = false := by
  simpa using (Bool.and_eq_true_iff.mp h).2

/-- Whether a value is the one that a field has when it was never set. -/
def Field.Unset : Field → Value → Prop
  | .plain slot, v =>
    if slot.tag.repeated then v = .list []
    else if slot.isImplicit then
      ∃ kind, slot.kind = .known kind ∧ kind.Accepts v ∧ v.truthy = false
    else v = .null
  | .map .., v => v = .map []

/-- Whether the variants of a oneof can be told apart: no two members have the same variant, and
none has the class that the variants have in common. -/
def OneofSlot.Separates (reg : Registry) (group : OneofSlot) : Prop :=
  ∀ member ∈ group.members, ∀ id vt, member.variant = .ok (.type id) →
    reg.variantType? id = some vt → ∀ other ∈ group.members,
      (other.variant = .ok (.type id) → other = member) ∧
        ∀ base, vt.base? = some base → other.variant ≠ .ok (.type base)

/-- Whether the tables of a class describe its messages. -/
structure MessageType.Regular (reg : Registry) (t : MessageType) : Prop extends
    t.WellFormed reg where
  entries : ∀ f ∈ t.fields, f.Regular reg
  unset : ∀ f ∈ t.fields, ∀ p ∈ t.params, p.attr = f.slot.attr → f.Unset p.start
  compared : t.oneofs = t.groups.map (·.attr)
  unsetOneofs : ∀ group ∈ t.groups, ∀ p ∈ t.params, p.attr = group.attr → p.start = .null
  separate : ∀ group ∈ t.groups, group.Separates reg
  groupMembers : ∀ group ∈ t.groups, ∀ member ∈ group.members, member.kind = .group →
    ∀ id t', member.type = .ok (.type id) → reg.messageType? id = some t' → t'.isMessageSet = false
  apart : ∀ n, inRanges n t.ranges = true → (0 < n ∧ n < 2305843009213693952) ∧ n ∉ t.numbers

/-- Whether the tables of all message classes describe their messages. -/
def Registry.Regular (reg : Registry) : Prop :=
  ∀ id t, reg.messageType? id = some t → t.Regular reg

/-! ## Well-typed values -/

section Takes

variable (reg : Registry) (accepts : Kind → Value → Prop)

/-- Whether a value is one that a table entry of single values asks for, where `accepts` says what the
kinds other than messages ask for. A message is of the very class that its type name is registered
for. -/
def Slot.Takes (slot : Slot) (v : Value) : Prop :=
  ∃ kind, slot.kind = .known kind ∧
    if kind.isMessage then
      ∃ inner name, v = .message inner ∧ slot.typeName? = some name ∧
        Dictionary.get? name reg.messageTypes = some (.type inner.type)
    else accepts kind v

/-- Whether a value is one that a member of a oneof asks for. -/
def VariantMember.Takes (member : VariantMember) (v : Value) : Prop :=
  if member.kind.isMessage then ∃ inner, v = .message inner ∧ member.type = .ok (.type inner.type)
  else accepts member.kind v

/-- Whether a value is a variant of a oneof, made by its constructor, that holds what the member asks
for. -/
def OneofSlot.Takes (group : OneofSlot) (v : Value) : Prop :=
  ∃ member ∈ group.members, ∃ id vt held, member.variant = .ok (.type id) ∧
    reg.variantType? id = some vt ∧ v = .variant id vt.stored held ∧
      vt.constructorFault? held = none ∧ member.Takes accepts held

end Takes

/-- Whether a value is one that a table entry of single values asks for. -/
abbrev Slot.Types (reg : Registry) (slot : Slot) : Value → Prop := slot.Takes reg Kind.Accepts

/-- Whether a value is one that a field asks for. -/
def Field.Types (reg : Registry) : Field → Value → Prop
  | .plain slot, v =>
    if slot.tag.repeated then ∃ items, v = .list items ∧ ∀ item ∈ items, slot.Types reg item
    else v = .null ∧ slot.tag.required = false ∧ slot.isImplicit = false ∨ slot.Types reg v
  | .map _ key val, v =>
    ∃ entries, v = .map entries ∧ DistinctKeys entries ∧
      ∀ k item, (k, item) ∈ entries → key.slot.Types reg k ∧ val.slot.Types reg item

/-- Whether a value is one that a member of a oneof asks for. -/
abbrev VariantMember.Types (member : VariantMember) : Value → Prop := member.Takes Kind.Accepts

/-- Whether a value is a variant of a oneof that holds what the member asks for. -/
abbrev OneofSlot.Types (reg : Registry) (group : OneofSlot) : Value → Prop :=
  group.Takes reg Kind.Accepts

/-- Whether raw records are those of an extension: one or more of its number, or the one record that
an item of a message set stands for. -/
def MessageType.KeepsRaw (t : MessageType) (number : Int) (raw : Bytes) : Prop :=
  if t.isMessageSet then
    ∃ data : Bytes, raw = MessageSet.rawRecord number data ∧ data.length < 18446744073709551616
  else raw ≠ [] ∧ RecordsOf (fun n => (n : Int) = number) raw

/-- Whether a message has the attributes and the stores of records that the constructor of a class
makes. -/
structure MessageType.Instance (t : MessageType) (m : Message) : Prop where
  attrs : ∀ attr, (m.get? attr).isSome = true ↔ attr ∈ t.storedAttrs
  extensions : m.extensions?.isSome = t.hasExtensions
  unknown : m.unknown?.isSome = t.keepsUnknown

/-- Whether a message is an instance of a class that can be called, with one entry for each extension
and whole records of numbers that are unknown. -/
structure MessageType.Built (t : MessageType) (m : Message) : Prop extends t.Instance m where
  constructs : t.callFault? [] = none
  numbersOnce : ∀ ext, m.extensions? = some ext → (ext.map (·.1)).Nodup
  unknownRecords : ∀ raw, m.unknown? = some raw → RecordsOf t.IsUnknown raw

/-- Whether a message is an instance of a class and holds what the tables of the class ask for. -/
structure MessageType.Types (reg : Registry) (t : MessageType) (m : Message) : Prop extends
    t.Built m where
  fields : ∀ f ∈ t.fields, ∀ v, m.get? f.slot.attr = some v → f.Types reg v
  oneofs : ∀ group ∈ t.groups, ∀ v, m.get? group.attr = some v → v = .null ∨ group.Types reg v
  extension : ∀ ext, m.extensions? = some ext → ∀ number raw, (number, raw) ∈ ext →
    inRanges number t.ranges = true ∧ t.KeepsRaw number raw

/-- Whether a message holds what the tables of its class ask for. -/
def Registry.Typed (reg : Registry) (m : Message) : Prop :=
  ∃ t, reg.messageType? m.type = some t ∧ t.Types reg m

/-- Whether a message of a class may have raw records under a number: the number is that of an
extension, or any type id in a message set. -/
def MessageType.Stores (t : MessageType) (number : Int) (raw : Bytes) : Prop :=
  (if t.isMessageSet then 0 ≤ number ∧ number < 18446744073709551616
    else inRanges number t.ranges = true) ∧ t.KeepsRaw number raw

/-- Whether a message is an instance of a class and holds what the encoder asks for. A message set may
hold items of any type. -/
structure MessageType.Keeps (reg : Registry) (t : MessageType) (m : Message) : Prop extends
    t.Built m where
  fields : ∀ f ∈ t.fields, ∀ v, m.get? f.slot.attr = some v → f.Types reg v
  oneofs : ∀ group ∈ t.groups, ∀ v, m.get? group.attr = some v → v = .null ∨ group.Types reg v
  extension : ∀ ext, m.extensions? = some ext → ∀ number raw, (number, raw) ∈ ext →
    t.Stores number raw

/-- Whether a message holds what the encoder asks for. -/
def Registry.Kept (reg : Registry) (m : Message) : Prop :=
  ∃ t, reg.messageType? m.type = some t ∧ t.Keeps reg m

theorem MessageType.Types.keeps (ht : t.Regular reg) (hm : t.Types reg m) : t.Keeps reg m where
  toBuilt := hm.toBuilt
  fields := hm.fields
  oneofs := hm.oneofs
  extension := fun ext hext number raw hmem => by
    obtain ⟨hrange, hraw⟩ := hm.extension ext hext number raw hmem
    refine ⟨?_, hraw⟩
    split
    · have := (ht.apart number hrange).1
      omega
    · exact hrange

theorem Registry.Typed.kept (hreg : reg.Regular) (hm : reg.Typed m) : reg.Kept m := by
  obtain ⟨t, ht, hm⟩ := hm
  exact ⟨t, ht, hm.keeps (hreg _ _ ht)⟩

/-- Whether the class of a message can be called without arguments. -/
def Registry.Constructs (reg : Registry) (m : Message) : Prop :=
  ∃ t, reg.messageType? m.type = some t ∧ t.callFault? [] = none

theorem Registry.Kept.constructs (hm : reg.Kept m) : reg.Constructs m := by
  obtain ⟨t, ht, hm⟩ := hm
  exact ⟨t, ht, hm.constructs⟩

/-! ## Weights -/

namespace Value

theorem weight_le_weightItems (h : v ∈ items) : v.weight ≤ weightItems items := by
  induction items with
  | nil => cases h
  | cons first rest ih =>
    unfold weightItems
    rcases mem_cons.mp h with rfl | h
    · omega
    · have := ih h
      omega

theorem weight_le_weightEntries {k : Value} (h : (k, v) ∈ entries) :
    k.weight ≤ weightEntries entries ∧ v.weight ≤ weightEntries entries := by
  induction entries with
  | nil => cases h
  | cons first rest ih =>
    obtain ⟨k', v'⟩ := first
    unfold weightEntries
    rcases mem_cons.mp h with heq | h
    · cases heq
      omega
    · have := ih h
      omega

theorem weight_le_weightAttrs {attrs : List (String × Value)} (h : Dictionary.get? attr attrs = some v) :
    v.weight ≤ weightAttrs attrs := by
  induction attrs with
  | nil => cases h
  | cons first rest ih =>
    obtain ⟨a, w⟩ := first
    unfold weightAttrs
    unfold Dictionary.get? at h
    split at h
    · cases h
      omega
    · have := ih h
      omega

end Value

theorem Record.weight_lt_of_get? (h : m.get? attr = some v) : v.weight < m.weight := by
  have hle := Value.weight_le_weightAttrs h
  have hweight : m.weight =
      Value.weightAttrs m.attrs + Value.rawWeight (m.extensions?.getD []) + 1 := by
    obtain ⟨type, attrs, extensions?, unknown?⟩ := m
    unfold Record.weight
    rw [Value.weight]
  omega

theorem Value.weight_le_of_items {item : Value} (h : v.items = .ok items) (hmem : item ∈ items)
    (hmessage : ∃ m, item = .message m) : item.weight ≤ v.weight := by
  obtain ⟨m, rfl⟩ := hmessage
  cases v with
  | list vs =>
    cases h
    have := weight_le_weightItems hmem
    rw [weight]
    omega
  | map entries =>
    cases h
    obtain ⟨⟨k, x⟩, he, heq⟩ := mem_map.mp hmem
    have := (weight_le_weightEntries he).1
    cases heq
    rw [weight]
    omega
  | text s =>
    cases h
    obtain ⟨c, _, heq⟩ := mem_map.mp hmem
    cases heq
  | bytes bs =>
    cases h
    obtain ⟨b, _, heq⟩ := mem_map.mp hmem
    cases heq
  | _ => cases h

theorem Value.eq_map_of_entries (h : v.entries = .ok entries) (hne : entries ≠ []) :
    v = .map entries := by
  unfold Value.entries at h
  split at h
  · cases h
    exact absurd rfl hne
  · split at h
    · cases h
      rfl
    · cases h

theorem Field.Holds.weight_le {f : Field} : ∀ {v : Value} {inner : Message}, f.Holds v inner →
    inner.weight ≤ v.weight := by
  induction f with
  | plain slot =>
    intro v inner h
    obtain ⟨_, h⟩ := h
    split at h
    · obtain ⟨items, hitems, hmem⟩ := h
      exact Value.weight_le_of_items hitems hmem ⟨inner, rfl⟩
    · rw [h]
      exact Nat.le_refl _
  | map slot key val ihKey ihVal =>
    intro v inner h
    obtain ⟨entries, k, item, hentries, hmem, h⟩ := h
    have hv := Value.eq_map_of_entries hentries (ne_nil_of_mem hmem)
    have hle := Value.weight_le_weightEntries hmem
    have hin : inner.weight ≤ k.weight ∨ inner.weight ≤ item.weight := h.imp ihKey ihVal
    rw [hv, Value.weight]
    omega

/-! ## Fresh messages -/

/-- Whether a message of a class holds nothing but what the constructor stores. -/
structure MessageType.Fresh (t : MessageType) (m : Message) : Prop extends t.Blank m where
  noExtensions : t.hasExtensions = false → m.extensions? = none
  noUnknown : t.keepsUnknown = false → m.unknown? = none

theorem MessageType.Fresh.extensions_eq (h : t.Fresh m) :
    m.extensions? = if t.hasExtensions then some [] else none := by
  cases hhas : t.hasExtensions with
  | true => exact h.extensions hhas
  | false => exact h.noExtensions hhas

theorem MessageType.Fresh.unknown_eq (h : t.Fresh m) :
    m.unknown? = if t.keepsUnknown then some [] else none := by
  cases hkeeps : t.keepsUnknown with
  | true => exact h.unknown hkeeps
  | false => exact h.noUnknown hkeeps

theorem MessageType.StoresApart.fresh_initialized (ht : t.StoresApart) (hm : m.Clear)
    (hext : t.hasExtensions = false → m.extensions? = none)
    (hunknown : t.keepsUnknown = false → m.unknown? = none) :
    t.Fresh (initialized t [] m) := by
  refine ⟨ht.blank_initialized hm, fun h => ?_, fun h => ?_⟩
  · rw [ht.initialized_eq hm]
    simp only [h, Bool.false_eq_true, if_false]
    exact hext h
  · rw [ht.initialized_eq hm]
    simp only [h, Bool.false_eq_true, if_false]
    exact hunknown h

theorem fresh_new (ht : t.StoresApart) (id : ClassId) :
    t.Fresh (t.empty id) ∧ (t.empty id).type = id := by
  have hclear : Record.Clear { type := id, attrs := [] } := fun _ _ => rfl
  exact ⟨ht.fresh_initialized hclear (fun _ => rfl) (fun _ => rfl), ht.type_initialized hclear⟩

namespace MessageType.Instance

variable (hm : t.Instance m)
include hm

theorem get?_eq_none (h : attr ∉ t.storedAttrs) : m.get? attr = none := by
  cases hv : m.get? attr with
  | none => rfl
  | some v => exact absurd ((hm.attrs attr).mp (by rw [hv]; rfl)) h

theorem get?_eq_some (h : attr ∈ t.storedAttrs) : ∃ v, m.get? attr = some v :=
  Option.isSome_iff_exists.mp ((hm.attrs attr).mpr h)

theorem clear (ht : t.StoresApart) : m.Clear :=
  fun attr hattr => hm.get?_eq_none fun hstored => ht.free attr hstored hattr

theorem eq_initialized (ht : t.StoresApart) (htype : m.HasType reg t) {start : Message}
    (h : reg.reset m = .ok start) :
    t.callFault? [] = none ∧ "__init__" ∉ t.storedAttrs ∧ start = initialized t [] m := by
  have hinit : "__init__" ∉ t.storedAttrs := by
    intro hstored
    obtain ⟨v, hv⟩ := hm.get?_eq_some hstored
    unfold reset at h
    rw [hv] at h
    simp at h
  unfold reset reconstruct constructOn at h
  rw [hm.clear ht "reset" (by decide), hm.get?_eq_none hinit] at h
  simp only [htype] at h
  cases hcall : t.callFault? [] with
  | some fault =>
    rw [hcall] at h
    simp at h
  | none =>
    simp only [hcall] at h
    cases h
    exact ⟨rfl, hinit, rfl⟩

theorem fresh_initialized (ht : t.StoresApart) : t.Fresh (initialized t [] m) := by
  refine ht.fresh_initialized (hm.clear ht) (fun h => ?_) (fun h => ?_)
  · have hsome := hm.extensions
    rw [h] at hsome
    simpa using hsome
  · have hsome := hm.unknown
    rw [h] at hsome
    simpa using hsome

theorem fresh_reset (ht : t.StoresApart) (htype : m.HasType reg t) {start : Message}
    (h : reg.reset m = .ok start) : t.Fresh start ∧ start.HasType reg t := by
  obtain ⟨-, -, rfl⟩ := hm.eq_initialized ht htype h
  exact ⟨hm.fresh_initialized ht, htype.of_eq (ht.type_initialized (hm.clear ht))⟩

/-- An instance can be emptied, unless an attribute takes the place of the constructor. -/
theorem reset_eq (ht : t.StoresApart) (htype : m.HasType reg t)
    (hcall : t.callFault? [] = none) (hinit : "__init__" ∉ t.storedAttrs) :
    ∃ start, reg.reset m = .ok start ∧ t.Fresh start ∧ start.type = m.type := by
  have hclear := hm.clear ht
  refine ⟨initialized t [] m, ?_, hm.fresh_initialized ht, ht.type_initialized hclear⟩
  unfold reset
  rw [hclear "reset" (by decide), hm.get?_eq_none hinit]
  unfold reconstruct constructOn
  simp only [htype, hcall]
  rfl

end MessageType.Instance

end Protobind
