import Protobind.Proofs.WholeRecords

/-!
# Old readers

A class that lacks some fields, members of oneofs and ranges of another one, but keeps unknown
records, stands for a program that was built before they were added. What it reads and writes again
is read by the larger class as an equal message (`survives_iff_faithful`).
-/

namespace Protobind

open List MessageType

variable {attr : String} {bs : Bytes} {codec : OneofCodec} {f : Field} {group : OneofSlot}
  {member : VariantMember} {n start m : Message} {part : Part} {reg : Registry} {v : Value}
  {values back : String → Value} {bytes : String → Bytes} {t t' : MessageType}

/-! ## Reduced classes -/

/-- Whether a member of a oneof has the number, the kind, the attribute and the type of another one. -/
def VariantMember.Matches (member other : VariantMember) : Prop :=
  member.number = other.number ∧ member.kind = other.kind ∧ member.attr = other.attr ∧
    member.type = other.type

/-- Whether a class has some of the fields, members of oneofs and ranges of another one, and keeps the
records of the rest as unknown ones. -/
structure MessageType.Reduces (t' t : MessageType) : Prop where
  fields : ∀ f ∈ t'.fields, f ∈ t.fields
  groups : ∀ group' ∈ t'.groups, ∃ group ∈ t.groups, group'.attr = group.attr ∧
    ∀ member' ∈ group'.members, ∃ member ∈ group.members, member'.Matches member
  ranges : ∀ n, inRanges n t'.ranges = true → inRanges n t.ranges = true
  unknown : t'.keepsUnknown = true
  plain : t'.isMessageSet = false

/-- Whether all messages of a class can be read and written by the names that the class has. -/
structure MessageType.Works (reg : Registry) (t : MessageType) : Prop where
  constructs : t.callFault? [] = none
  resets : "__init__" ∉ t.storedAttrs
  stores : ∀ attr ∈ t.codecAttrs, attr ∈ t.storedAttrs
  bound : ∀ codec, t.codec? = some codec → "isinstance" ∉ codec.rebound
  variants : ∀ group ∈ t.groups, ∀ member ∈ group.members, ∀ id vt, member.variant = .ok (.type id) →
    reg.variantType? id = some vt → vt.constructorFault? .null = none ∧ vt.Faithful member

section Tables

variable (ht : t.Regular reg)
include ht

theorem member_eq_of_number {other : OneofSlot} (hgroup : group ∈ t.groups)
    (hother : other ∈ t.groups) {member' : VariantMember} (hmember : member ∈ group.members)
    (hmember' : member' ∈ other.members) (heq : member'.number = member.number) :
    group = other ∧ member = member' := by
  have hfind := ht.findByNumber?_member hgroup hmember
  rw [← heq, ht.findByNumber?_member hother hmember'] at hfind
  cases hfind
  exact ⟨rfl, rfl⟩

variable (hreduces : t'.Reduces t)
include hreduces

theorem number_of_dropped_field (hf : f ∈ t.fields) (hdropped : f ∉ t'.fields) :
    f.number ∉ t'.numbers := by
  intro hmem
  rcases mem_numbers.mp hmem with ⟨f', hf', heq⟩ | ⟨group', hgroup', member', hmember', heq⟩
  · have hsame := inj_on_of_nodup_map (List.Nodup.of_append_left ht.numbersOnce)
      (hreduces.fields f' hf') hf heq
    exact hdropped (hsame ▸ hf')
  · obtain ⟨group, hgroup, _, hmembers⟩ := hreduces.groups group' hgroup'
    obtain ⟨member, hmember, hnumber, _⟩ := hmembers member' hmember'
    refine disjoint_of_nodup_append ht.numbersOnce (mem_map_of_mem hf)
      (mem_flatMap.mpr ⟨group, hgroup, mem_map.mpr ⟨member, hmember, ?_⟩⟩)
    rw [← hnumber, heq]

theorem number_of_dropped_member (hgroup : group ∈ t.groups) (hmember : member ∈ group.members)
    (hdropped : ∀ group' ∈ t'.groups, ∀ member' ∈ group'.members, member'.number ≠ member.number) :
    member.number ∉ t'.numbers := by
  intro hmem
  rcases mem_numbers.mp hmem with ⟨f', hf', heq⟩ | ⟨group', hgroup', member', hmember', heq⟩
  · exact disjoint_of_nodup_append ht.numbersOnce
      (heq ▸ mem_map_of_mem (hreduces.fields f' hf'))
      (mem_flatMap.mpr ⟨group, hgroup, mem_map_of_mem hmember⟩)
  · exact hdropped group' hgroup' member' hmember' heq

theorem inRanges_of_number {n : Int} (hn : n ∈ t.numbers) : inRanges n t'.ranges = false := by
  by_contra hrange
  exact (ht.apart n (hreduces.ranges n (by simpa using hrange))).2 hn

omit ht in
theorem not_mem_numbers {n : Int} (hn : n ∉ t.numbers) : n ∉ t'.numbers := by
  intro hmem
  refine hn (mem_numbers.mpr ?_)
  rcases mem_numbers.mp hmem with ⟨f', hf', hnumber⟩ | ⟨group', hgroup', member', hmember', rfl⟩
  · exact .inl ⟨f', hreduces.fields f' hf', hnumber⟩
  · obtain ⟨group, hgroup, _, hmembers⟩ := hreduces.groups group' hgroup'
    obtain ⟨member, hmember, hnumber, _⟩ := hmembers member' hmember'
    exact .inr ⟨group, hgroup, member, hmember, hnumber.symm⟩

omit ht in
theorem codecAttr_of_reduces (h : attr ∈ t'.codecAttrs) : attr ∈ t.codecAttrs := by
  refine mem_codecAttrs.mpr ?_
  rcases mem_codecAttrs.mp h with ⟨f', hf', hattr⟩ | ⟨group', hgroup', rfl⟩
  · exact .inl ⟨f', hreduces.fields f' hf', hattr⟩
  · obtain ⟨group, hgroup, hattr, _⟩ := hreduces.groups group' hgroup'
    exact .inr ⟨group, hgroup, hattr.symm⟩

end Tables

/-! ## Reading as the smaller class -/

/-- Whether some data is read into an attribute of a class, and written again from there. -/
def Taken (reg : Registry) (t : MessageType) (attr : String) (bs : Bytes) : Prop :=
  attr ∈ t.codecAttrs ∧ ∃ w, Restores reg t attr bs w

/-- Whether some data is kept as unknown records, and nothing is written of an attribute. -/
def Passed (reg : Registry) (t : MessageType) (attr : String) (bs : Bytes) : Prop :=
  RecordsOf t.IsUnknown bs ∧
    ∀ part ∈ t.parts reg, part.attr = attr → ∀ write, part.write write (t.startOf attr) = .ok []

section First

variable (hreg : reg.Regular) (ht : m.HasType reg t) (hm : t.Keeps reg m)
  (hfaithful : t.Faithful reg m) (hset : t.isMessageSet = false)
  {write : Writer}
  (hin : ∀ inner, reg.Writes m inner →
    (reg.Constructs inner ∧ Backed reg write inner) ∧ Whole reg write inner)
  (hclass' : t'.Regular reg) (hreduces : t'.Reduces t) (hworks : t'.Works reg)
include hreg ht hm hfaithful hset hin hclass' hreduces hworks

omit hfaithful in
/-- What is written of a field is taken by a class that has the field, and passed by any other. -/
theorem field_taken_or_passed (hf : f ∈ t.fields) (hv : m.get? f.slot.attr = some v)
    (hbs : f.part.write write v = .ok bs) (hlen : Short bs) :
    Taken reg t' f.slot.attr bs ∨ Passed reg t' f.slot.attr bs := by
  have hclass := hreg _ _ ht
  have hclear := hm.clear hclass.toStoresApart
  by_cases hf' : f ∈ t'.fields
  · have hpart : f.part ∈ t'.parts reg := mem_parts.mpr (.inl ⟨f, hf', rfl⟩)
    have hattr := codecAttr_of_part hpart
    obtain ⟨bs', hbs', hback⟩ := (field_back hreg hclass' write hf'
      (hclass'.unset_startOf hf' (hworks.stores _ hattr)) (hm.fields f hf v hv) fun inner hholds =>
        (hin inner (writes_of_field hclass ht hset hclear hf hv hholds)).1).restores hclass' hpart
    cases hbs.symm.trans hbs'
    obtain ⟨w, _, hw⟩ := hback hlen
    exact .inl ⟨hattr, w, hw⟩
  · refine .inr ⟨?_, fun part' hpart' heq => ?_⟩
    · have hnumber := hclass.number_of_field hf
      refine (records_fieldOf hreg ht hm.takes hset (fun inner h => (hin inner h).2) hf hv hbs hlen).imp
        fun n hn => ?_
      rw [IsUnknown, hn]
      exact ⟨by omega, number_of_dropped_field hclass hreduces hf hf',
        inRanges_of_number hclass hreduces (mem_numbers.mpr (.inl ⟨f, hf, rfl⟩))⟩
    · rcases mem_parts.mp hpart' with ⟨f', hf'', rfl⟩ | ⟨codec', hcodec', group', hgroup', rfl⟩
      · exact absurd (hclass.field_eq_of_attr (hreduces.fields f' hf'') hf heq ▸ hf'') hf'
      · obtain ⟨group, hgroup, hattr, _⟩ := hreduces.groups group' (group_of_codec hcodec' hgroup')
        exact absurd (hattr.symm.trans heq) (hclass.group_attr_ne hgroup hf)

/-- What is written of a oneof is taken by a class that has the member, and passed by any other. -/
theorem oneof_taken_or_passed (hcodec : t.codec? = some codec) (hgroup : group ∈ codec.groups)
    (hv : m.get? group.attr = some v) (hbs : (group.part reg codec).write write v = .ok bs)
    (hlen : Short bs) : Taken reg t' group.attr bs ∨ Passed reg t' group.attr bs := by
  have hclass := hreg _ _ ht
  have hmem := group_of_codec hcodec hgroup
  -- A oneof of the smaller class writes nothing while none of its members is set.
  have hempty : ∀ part' ∈ t'.parts reg, part'.attr = group.attr → ∀ write,
      part'.write write (t'.startOf group.attr) = .ok [] := by
    intro part' hpart' heq write
    rcases mem_parts.mp hpart' with ⟨f', hf', rfl⟩ | ⟨codec', hcodec', group', hgroup', rfl⟩
    · exact absurd heq.symm (hclass.group_attr_ne hmem (hreduces.fields f' hf'))
    · have hmem' := group_of_codec hcodec' hgroup'
      rw [← show group'.attr = group.attr from heq,
        hclass'.startOf_group hmem' (hworks.stores _ (codecAttr_of_part hpart'))]
      rfl
  rcases member_of_oneof hclass ht hm.takes hfaithful hset hcodec hgroup hv with
    rfl | ⟨member, hmember, held, hheld, heq, hwrites⟩
  · cases hbs
    exact .inr ⟨.nil, hempty⟩
  have hsingle : Encode.single write member.slot held = .ok bs := heq.symm.trans hbs
  by_cases hknown : ∃ group' ∈ t'.groups, ∃ member' ∈ group'.members, member'.number = member.number
  · obtain ⟨group', hmem', member', hmember', hnumber⟩ := hknown
    obtain ⟨other, hother, hattr, hmembers⟩ := hreduces.groups group' hmem'
    obtain ⟨second, hsecond, hmatches⟩ := hmembers member' hmember'
    obtain ⟨rfl, rfl⟩ := member_eq_of_number hclass hmem hother hmember hsecond
      (hmatches.1.symm.trans hnumber)
    obtain ⟨_, hkind, hname, htype⟩ := hmatches
    -- The smaller class has a variant of its own, which holds the same value.
    obtain ⟨codec', hcodec', hgroup'⟩ := codec_of_group hmem'
    obtain ⟨id, vt, hvariant, hvt⟩ := (hclass'.members group' hmem' member' hmember').variant
    obtain ⟨hfault, hnames⟩ := hworks.variants group' hmem' member' hmember' id vt hvariant hvt
    have hbound := hworks.bound codec' hcodec'
    have hfind := hclass'.findMember_eq hmem' hmember' hvariant hvt held
    have hread := member_eq hvt hnames held
    have hheld' : member'.Types held := by
      unfold VariantMember.Takes at hheld
      unfold VariantMember.Types VariantMember.Takes
      rwa [hkind, htype]
    have hpart : group'.part reg codec' ∈ t'.parts reg :=
      mem_parts.mpr (.inr ⟨codec', hcodec', group', hgroup', rfl⟩)
    have hattr' : group'.attr ∈ t'.codecAttrs := codecAttr_of_part hpart
    have hback := oneof_back hreg write hclass' hmem' (fun _ => hbound)
      (.inr ⟨member', hmember', id, vt, held, hvariant, hvt, rfl,
        VariantType.constructorFault?_of_null hfault held, hheld'⟩)
      (fun other hother id vt _ hvariant hvt _ => (hworks.variants group' hmem' other hother id vt hvariant hvt).2)
      (by
        rintro other held' hfind' hread' hmessage inner rfl
        cases hfind.symm.trans hfind'
        cases hread.symm.trans hread'
        exact (hin inner (hwrites (hkind ▸ hmessage) inner rfl)).1)
    rw [← hclass'.startOf_group hmem' (hworks.stores _ hattr')] at hback
    obtain ⟨bs', hbs', hback⟩ := hback.restores hclass' hpart
    have hslot : member'.slot = member.slot := by
      unfold VariantMember.slot
      rw [hnumber, hkind, hname]
    rw [show (group'.part reg codec').write write _ = _ from oneofValue_eq write rfl hbound hfind hread,
      hslot, hsingle] at hbs'
    cases hbs'
    obtain ⟨w, _, hw⟩ := hback hlen
    exact .inl ⟨hattr ▸ hattr', w, hattr ▸ hw⟩
  · push Not at hknown
    refine .inr ⟨.single ?_ (record_of_member hclass hmem hmember hheld hsingle hlen
      fun hmessage inner hinner => (hin inner (hwrites hmessage inner hinner)).2), hempty⟩
    have hnumber := hclass.number_of_member hmem hmember
    rw [IsUnknown, show ((member.number.toNat : Nat) : Int) = member.number by omega]
    exact ⟨by omega, number_of_dropped_member hclass hreduces hmem hmember hknown,
      inRanges_of_number hclass hreduces (mem_numbers.mpr (.inr ⟨_, hmem, _, hmember, rfl⟩))⟩

theorem taken_or_passed (hpart : part ∈ t.parts reg) (hv : m.get? part.attr = some v)
    (hbs : part.write write v = .ok bs) (hlen : Short bs) :
    Taken reg t' part.attr bs ∨ Passed reg t' part.attr bs := by
  rcases mem_parts.mp hpart with ⟨f, hf, rfl⟩ | ⟨codec, hcodec, group, hgroup, rfl⟩
  · exact field_taken_or_passed hreg ht hm hset hin hclass' hreduces hworks hf hv hbs hlen
  · exact oneof_taken_or_passed hreg ht hm hfaithful hset hin hclass' hreduces hworks hcodec hgroup hv
      hbs hlen

end First

/-! ## The two readings -/

open Classical in
/-- Whether what is written of an attribute is taken by a class. -/
noncomputable def isTaken (reg : Registry) (t : MessageType) (bytes : String → Bytes) (attr : String) : Bool :=
  decide (Taken reg t attr (bytes attr))

theorem isTaken_iff : isTaken reg t bytes attr = true ↔ Taken reg t attr (bytes attr) := by
  simp [isTaken]

/-- What a reader of a smaller class writes: what it took, and then what it passed. -/
noncomputable def passedOn (reg : Registry) (t t' : MessageType) (m : Message) (bytes : String → Bytes) :
    Bytes :=
  (t'.codecAttrs.filter (isTaken reg t' bytes)).flatMap bytes ++
    (m.sortedExtensions.filter (inRanges ·.1 t'.ranges)).flatMap (·.2) ++
    ((t.codecAttrs.filter (!isTaken reg t' bytes ·)).flatMap bytes ++
      (m.sortedExtensions.filter (!inRanges ·.1 t'.ranges)).flatMap (·.2) ++ m.unknown?.getD [])

theorem flatMap_filter {α : Type} (p : α → Bool) (f : α → Bytes) (as : List α) :
    as.flatMap (fun a => if p a then f a else []) = (as.filter p).flatMap f := by
  induction as with
  | nil => rfl
  | cons a as ih => cases h : p a <;> simp [h, ih]

section Readings

variable (hreg : reg.Regular) (ht : m.HasType reg t) (hm : t.Keeps reg m)
  (hset : t.isMessageSet = false) (hreduces : t'.Reduces t)
include hreg ht hm hset hreduces

/-- The smaller class keeps the extensions that it has a range for. It passes the others and the unknown
records. -/
theorem merges_stores (hclass' : t'.Regular reg) (hn : n.Clear)
    (hext : t'.hasExtensions = true → n.extensions? = some []) {raw : Bytes}
    (hraw : n.unknown? = some raw) :
    Merges reg t' (m.extensionBytes ++ m.unknown?.getD []) n
      { n with
        extensions? := n.extensions?.map (· ++ m.sortedExtensions.filter (inRanges ·.1 t'.ranges))
        unknown? := some (raw ++ (m.sortedExtensions.filter (!inRanges ·.1 t'.ranges)).flatMap (·.2) ++
          m.unknown?.getD []) } := by
  have hpairs : Merges reg t' m.extensionBytes n _ :=
    merges_pairs m.sortedExtensions (fun p hp => by
      obtain ⟨hpos, hnew, _, hraw⟩ := extension_of_sorted hset (hreg _ _ ht) hm.extension hp
      exact ⟨hpos, not_mem_numbers hreduces hnew, hraw⟩) (Record.nodup_sortedExtensions hm.numbersOnce) n hn
      fun p _ hrange => by
        have hsome : t'.hasExtensions = true := by
          refine hclass'.extensible fun hnone => ?_
          rw [hnone] at hrange
          cases hrange
        exact ⟨[], hext hsome, by simp⟩
  have hrecords : RecordsOf
      (fun n => 0 < n ∧ (n : Int) ∉ t'.numbers ∧ inRanges (n : Int) t'.ranges = false)
      (m.unknown?.getD []) := by
    cases hunknown : m.unknown? with
    | none => exact .nil
    | some raw =>
      refine (hm.unknownRecords raw hunknown).imp fun n ⟨hpos, hnew, hrange⟩ =>
        ⟨hpos, not_mem_numbers hreduces hnew, ?_⟩
      by_contra h
      rw [hreduces.ranges n (by simpa using h)] at hrange
      cases hrange
  have hlast := hpairs.append (merges_unknown hrecords _ fun attr h => hn attr h)
  rw [hraw] at hlast
  exact hlast

omit ht hm hset in
theorem encode_passed (ht' : n.HasType reg t') (hn : n.Clear)
    (hparts : ∀ part ∈ t'.parts reg, ∃ w, n.get? part.attr = some w ∧ ∀ fuel, w.weight ≤ fuel →
      part.write (encodeMessage reg fuel) w =
        .ok (if isTaken reg t' bytes part.attr then bytes part.attr else []))
    (hext : n.extensionBytes = (m.sortedExtensions.filter (inRanges ·.1 t'.ranges)).flatMap (·.2))
    (hunknown : n.unknown? = some ((t.codecAttrs.filter (!isTaken reg t' bytes ·)).flatMap bytes ++
      (m.sortedExtensions.filter (!inRanges ·.1 t'.ranges)).flatMap (·.2) ++ m.unknown?.getD [])) :
    encode reg n = .ok (passedOn reg t t' m bytes) := by
  unfold encode
  rw [encodeMessage_of_parts (hreg _ _ ht') ht' hreduces.plain hn
      (fun attr => if isTaken reg t' bytes attr then bytes attr else []) hparts (Nat.le_refl _),
    flatMap_filter, hext, hunknown]
  rfl

/-- A reader of the smaller class takes what it knows and passes the rest, and writes both. -/
theorem first_reading {id : ClassId} (ht' : reg.messageType? id = some t') (hworks : t'.Works reg)
    (hold : ∀ attr ∈ t.codecAttrs, Taken reg t' attr (bytes attr) ∨ Passed reg t' attr (bytes attr))
    (hstart : t'.Fresh start) (htype : start.type = id) :
    ∃ n, merge reg start (t.codecAttrs.flatMap bytes ++ m.extensionBytes ++ m.unknown?.getD []) =
        .done n [] ∧ encode reg n = .ok (passedOn reg t t' m bytes) := by
  have hclass := hreg _ _ ht
  have hclass' := hreg _ _ ht'
  have hclassOf : reg.messageType? start.type = some t' := htype ▸ ht'
  have hget := fun attr (h : attr ∈ t'.codecAttrs) =>
    hstart.toBlank.get?_eq hclass'.toStoresApart (hworks.stores attr h)
  have hpassed : ∀ attr ∈ t.codecAttrs, isTaken reg t' bytes attr = false →
      Passed reg t' attr (bytes attr) := fun attr hattr h =>
    (hold attr hattr).resolve_left fun hyes => by
      rw [isTaken_iff.mpr hyes] at h
      cases h
  have hfree : ∀ attr ∈ t.codecAttrs.filter (isTaken reg t' bytes), attr ∉ reservedAttrs :=
    fun attr h => hclass.attrsFree attr (mem_filter.mp h).1
  have htaken := fun attr (h : isTaken reg t' bytes attr = true) => (isTaken_iff.mp h).2
  have : Nonempty Value := ⟨.null⟩
  choose! back hback using htaken
  have hmerges := merges_attrs (isTaken reg t' bytes) hclass.attrsOnce hstart.clear hclass.attrsFree
    (fun attr _ h => ⟨hget attr (isTaken_iff.mp h).1, (hback attr h).1⟩)
    fun attr hattr h => merges_unknown (hpassed attr hattr h).1
  rw [hstart.unknown hreduces.unknown] at hmerges
  have hclear : Record.Clear { start.fill (t.codecAttrs.filter (isTaken reg t' bytes)) back with
      unknown? := some ((t.codecAttrs.filter (!isTaken reg t' bytes ·)).flatMap bytes) } :=
    fun attr h => hstart.clear.fill hfree back attr h
  have hlast := hmerges.append
    (merges_stores hreg ht hm hset hreduces hclass' hclear (fun h => hstart.extensions h) rfl)
  rw [← append_assoc] at hlast
  refine ⟨_, merge_of_merges hclass' hclassOf hreduces.plain hstart.clear hlast,
    encode_passed hreg hreduces hclassOf (fun attr h => hclear attr h) (fun part' hpart' => ?_) ?_ rfl⟩
  · -- What was taken is written from its attribute, and of what was passed the attribute has nothing.
    have hattr' := codecAttr_of_part hpart'
    have hmem := codecAttr_of_reduces hreduces hattr'
    cases htaken : isTaken reg t' bytes part'.attr with
    | true =>
      exact ⟨_, (Record.get?_fill _).trans (if_pos (mem_filter.mpr ⟨hmem, htaken⟩)),
        (hback _ htaken).2 part' hpart' rfl⟩
    | false =>
      exact ⟨_, (Record.get?_fill _).trans ((if_neg (by simp [htaken])).trans (hget _ hattr')),
        fun fuel _ => (hpassed _ hmem htaken).2 part' hpart' rfl _⟩
  · unfold Record.extensionBytes
    refine congrArg (List.flatMap fun p : Int × Bytes => p.2) ?_
    show sortByNumber ((start.extensions?.map (· ++ _)).getD []) = _
    rw [hstart.extensions_eq]
    cases hsome : t'.hasExtensions with
    | true => exact sortByNumber_eq_self ((pairwise_sortByNumber _).sublist filter_sublist)
    | false =>
      have hranges : t'.ranges = [] := by
        by_contra h
        rw [hclass'.extensible h] at hsome
        cases hsome
      exact (filter_eq_nil_iff.mpr fun p _ => by simp [hranges, inRanges]).symm

/-- The larger class reads what the smaller one took and passed as an equal message. -/
theorem second_reading (hfaithful : t.Faithful reg m) (hclass' : t'.Regular reg)
    (hvalues : ∀ attr ∈ t.codecAttrs, m.get? attr = some (values attr))
    (hback : ∀ attr ∈ t.codecAttrs, EqualTo reg (values attr) (back attr) ∧
      Restores reg t attr (bytes attr) (back attr))
    (hstart : t.Fresh start) (htype : start.type = m.type) :
    ∃ m', merge reg start (passedOn reg t t' m bytes) = .done m' [] ∧
      EqualTo reg (.message m) (.message m') ∧ m'.unknown? = m.unknown? := by
  have hclass := hreg _ _ ht
  have hget := fun attr (h : attr ∈ t.codecAttrs) =>
    hstart.toBlank.get?_eq hclass.toStoresApart (hfaithful.stores attr h)
  obtain ⟨hstartExt, hstartUnknown⟩ := hstart.stores hm.toInstance
  have hnodup := Record.nodup_sortedExtensions hm.numbersOnce
  have hperm := filter_append_perm (fun p : Int × Bytes => inRanges p.1 t'.ranges) m.sortedExtensions
  have htaken : ∀ attr ∈ t'.codecAttrs.filter (isTaken reg t' bytes), attr ∈ t.codecAttrs :=
    fun attr h => codecAttr_of_reduces hreduces (mem_filter.mp h).1
  -- First come the attributes that were taken, with the extensions that were kept behind them.
  have hfirst := restored_back hreg ht hm hset hstart.clear hback
    (hclass'.attrsOnce.filter (isTaken reg t' bytes))
    (fun attr h => ⟨htaken attr h, hget attr (htaken attr h)⟩)
    (filter_sublist (p := fun p : Int × Bytes => inRanges p.1 t'.ranges)) hstartExt
    (List.Nodup.sublist (filter_sublist.map _) hnodup)
  have hclear₁ : Record.Clear { start.fill (t'.codecAttrs.filter (isTaken reg t' bytes)) back with
      extensions? := m.extensions?.map fun _ =>
        [] ++ m.sortedExtensions.filter (inRanges ·.1 t'.ranges) } := fun attr h =>
    hstart.clear.fill (fun attr h => hclass.attrsFree attr (htaken attr h)) back attr h
  -- Then come those that were passed, with the other extensions and the unknown records.
  have hsecond := restored_back hreg ht hm hset hclear₁ hback
    (hclass.attrsOnce.filter (!isTaken reg t' bytes ·))
    (fun attr h => ⟨(mem_filter.mp h).1, (Record.get?_fill attr).trans ((if_neg fun h' => by
      simp [(mem_filter.mp h').2] at h).trans (hget attr (mem_filter.mp h).1))⟩)
    (filter_sublist (p := fun p : Int × Bytes => !inRanges p.1 t'.ranges)) rfl
    ((hperm.map (·.1)).nodup_iff.mpr hnodup)
  have hclear₂ := hclear₁.fill (fun attr (h : attr ∈ t.codecAttrs.filter (!isTaken reg t' bytes ·)) =>
    hclass.attrsFree attr (mem_filter.mp h).1) back
  have hall := hfirst.append (hsecond.append (unknown_back hm (fun attr h => hclear₂ attr h) hstartUnknown))
  refine ⟨_, merge_of_merges hclass (ht.of_eq htype) hset hstart.clear hall,
    equalTo_message hclass ht hm.toInstance hfaithful.compares htype (fun attr h => hclear₂ attr h)
      (fun attr hattr => rel_of_eq_some (hvalues attr hattr) ((Record.get?_fill attr).trans ?_)
        (hback attr hattr).1) hm.numbersOnce (Record.perm_extensions hperm), rfl⟩
  cases htaken : isTaken reg t' bytes attr with
  | true =>
    refine (if_neg (by simp [htaken])).trans ((Record.get?_fill attr).trans (if_pos ?_))
    exact mem_filter.mpr ⟨(isTaken_iff.mp htaken).1, htaken⟩
  | false => exact if_pos (mem_filter.mpr ⟨hattr, by rw [htaken]; rfl⟩)

end Readings

/-! ## Nothing is lost -/

/-- Whether a message can be written, what is written can be read into a message of another class and
written again, and what that writes can be read into a third message, which is equal to the first one
then, with the same unknown records. The two targets are emptied first. -/
def Registry.Survives (reg : Registry) (m old into : Message) : Prop :=
  ∃ bs start n bs' start' m', encode reg m = .ok bs ∧ reg.reset old = .ok start ∧
    merge reg start bs = .done n [] ∧ encode reg n = .ok bs' ∧ reg.reset into = .ok start' ∧
    merge reg start' bs' = .done m' [] ∧
    equalValues reg false (.message m) (.message m') = .ok true ∧ m'.unknown? = m.unknown?

/-- A well-typed message of any depth survives a reader of a smaller class exactly when it makes the
round trip: no attribute takes the place of the constructor of its class, and it and the messages inside
are stored, written and compared by the names that their classes have. The smaller class may be any that
lacks some of the fields, members of oneofs and ranges, keeps unknown records, and can be read and
written itself. -/
theorem survives_iff_faithful {reg : Registry} (hreg : reg.Regular) {m old into : Message}
    (hm : reg.Throughout reg.Typed m) {t t' : MessageType} (ht : reg.messageType? m.type = some t)
    (hset : t.isMessageSet = false) (ht' : reg.messageType? old.type = some t')
    (hreduces : t'.Reduces t) (hworks : t'.Works reg) (hold : t'.Instance old) (hinto : t.Instance into)
    (htype : into.type = m.type)
    (hshort : ∀ bs, encode reg m = .ok bs → bs.length < 18446744073709551616) :
    reg.Survives m old into ↔ "__init__" ∉ t.storedAttrs ∧ reg.Throughout reg.Faithful m := by
  have hclass := hreg _ _ ht
  have hclass' := hreg _ _ ht'
  constructor
  · rintro ⟨bs, _, _, _, start', m', hwritten, _, _, _, hreset, _, hequal, _⟩
    refine ⟨fun hstored => ?_, Registry.throughout_of_step (fun m => faithful_of_shown hreg)
      ⟨hm, ⟨_, bs, hwritten⟩, _, _, hequal⟩⟩
    obtain ⟨v, hv⟩ := hinto.get?_eq_some hstored
    unfold Registry.reset at hreset
    rw [hv] at hreset
    simp at hreset
  · rintro ⟨hinit, hfaithful⟩
    have hkept : reg.Throughout reg.Kept m := fun inner hpath => (hm inner hpath).kept hreg
    obtain ⟨t₁, ht₁, hkeeps⟩ := hkept.here
    cases ht.symm.trans ht₁
    have hclear := hkeeps.clear hclass.toStoresApart
    obtain ⟨fuel, hfuel⟩ := Nat.exists_eq_add_one.mpr m.weight_pos
    have hin : ∀ inner, reg.Writes m inner → (reg.Constructs inner ∧
        Backed reg (encodeMessage reg fuel) inner) ∧ Whole reg (encodeMessage reg fuel) inner := by
      intro inner hwrites
      have hlt := weight_lt_of_writes hclass hkeeps.oneofs ht hclear hwrites
      have hkept' := hkept.inside hwrites
      have hfaithful' := hfaithful.inside hwrites
      exact ⟨⟨hkept'.here.constructs, backed_of_kept hreg fuel inner (by omega) hkept' hfaithful'⟩,
        records_encodeMessage hreg fuel inner fun m hpath =>
          (hkept' m hpath).imp fun _ h => ⟨h.1, h.2.takes⟩⟩
    obtain ⟨values, bytes, hvalues, hbytes, hwritten, hback⟩ :=
      attrs_back hreg ht hkeeps (hfaithful.here t ht) hset fun inner h => (hin inner h).1
    have hencode : encode reg m = Encode.message reg (encodeMessage reg fuel) m := by
      unfold encode
      rw [hfuel]
      rfl
    rw [← hencode] at hwritten
    have hlen := (Short.left (hshort _ hwritten)).left
    obtain ⟨back, hback⟩ := hback hlen
    obtain ⟨start, hreset, hfresh, hstart⟩ :=
      hold.reset_eq hclass'.toStoresApart ht' hworks.constructs hworks.resets
    obtain ⟨n, hfirst, hsecond⟩ := first_reading hreg ht hkeeps hset hreduces ht' hworks
      (fun attr h => by
        rw [← t.parts_attrs reg] at h
        obtain ⟨part, hpart, rfl⟩ := mem_map.mp h
        have hattr := codecAttr_of_part hpart
        exact taken_or_passed hreg ht hkeeps (hfaithful.here t ht) hset hin hclass' hreduces hworks hpart
          (hvalues _ hattr) (hbytes part hpart)
          (hlen.of_flatMap hattr)) hfresh hstart
    obtain ⟨start', hreset', hfresh', hstart'⟩ :=
      hinto.reset_eq hclass.toStoresApart (Record.HasType.of_eq ht htype) hkeeps.constructs hinit
    obtain ⟨m', hmerge, hequal, hunknown⟩ := second_reading hreg ht hkeeps hset hreduces
      (hfaithful.here t ht) hclass' hvalues hback hfresh' (hstart'.trans htype)
    exact ⟨_, start, n, _, start', m', hwritten, hreset, hfirst, hsecond, hreset', hmerge, hequal.holds,
      hunknown⟩

/-- A class of single values, each with a name, a kind and a number, that keeps unknown records. -/
def noteType (entries : List (String × Kind × Int)) (ranges? : Option (List FieldRange)) : MessageType where
  name := "Note"
  fields := entries.map fun e => .plain
    { attr := e.1, kind := .known e.2.1
      tag := { text := "", wireType := e.2.1.encoding.wireType, number := e.2.2, repeated := false,
               required := false, name := e.1 } }
  params := entries.map fun e => { name := e.1, attr := e.1 }
  ranges?
  hasExtensions := ranges?.isSome
  keepsUnknown := true

theorem regular_noteType {entries : List (String × Kind × Int)} {ranges? : Option (List FieldRange)}
    (hentries : ∀ e ∈ entries, e.2.1.isMessage = false ∧ e.2.1 ≠ .enum ∧ e.1 ∉ reservedAttrs ∧
      IsNumber e.2.2) (hnames : (entries.map (·.1)).Nodup)
    (hnumbers : (entries.map (·.2.2)).Nodup)
    (hapart : ∀ n, inRanges n (ranges?.getD []) = true → IsNumber n ∧ n ∉ entries.map (·.2.2)) :
    (noteType entries ranges?).Regular reg := by
  have hattrs : (noteType entries ranges?).codecAttrs = entries.map (·.1) := by
    simp [noteType, codecAttrs, groups, Function.comp_def, Field.slot]
  have hnums : (noteType entries ranges?).numbers = entries.map (·.2.2) := by
    simp [noteType, numbers, groups, Function.comp_def, Field.number, Field.slot]
  have hstored : (noteType entries ranges?).storedAttrs = entries.map (·.1) := by
    simp [noteType, storedAttrs, Function.comp_def]
  have hfree : ∀ attr ∈ entries.map (·.1), attr ∉ reservedAttrs := by
    intro attr h
    obtain ⟨e, he, rfl⟩ := mem_map.mp h
    exact (hentries e he).2.2.1
  have hregular : ∀ f ∈ (noteType entries ranges?).fields, f.Regular reg := by
    intro f hf
    obtain ⟨e, he, rfl⟩ := mem_map.mp hf
    obtain ⟨hplain, henum, _⟩ := hentries e he
    refine
      { known := ⟨_, rfl⟩, message := fun h => ?_, enum := fun _ _ h => ?_, wire := ?_,
        packed := fun h => ?_, group := fun h => ?_ }
    · exact absurd (hplain.symm.trans h) (by simp)
    · exact absurd (SlotKind.known.inj h) henum
    · rintro kind ⟨⟩
      rfl
    · cases h
    · rw [SlotKind.known.inj h] at hplain
      cases hplain
  have hunset : ∀ f ∈ (noteType entries ranges?).fields, f.Unset .null := by
    intro f hf
    obtain ⟨e, he, rfl⟩ := mem_map.mp hf
    exact rfl
  have hstart : ∀ p ∈ (noteType entries ranges?).params, p.start = .null := by
    intro p hp
    obtain ⟨e, he, rfl⟩ := mem_map.mp hp
    rfl
  refine
    { nodup := hstored ▸ hnames, free := hstored ▸ hfree, index := fun _ h => ?_, ranges := rfl,
      fields := ?_, members := fun _ h => ?_, numbered := ?_, numbersOnce := hnums ▸ hnumbers,
      attrsOnce := hattrs ▸ hnames, attrsFree := hattrs ▸ hfree, starts := ?_, extensible := ?_,
      set := fun h => ?_, entries := hregular, unset := ?_, compared := rfl,
      unsetOneofs := fun _ h => ?_, separate := fun _ h => ?_, groupMembers := fun _ h => ?_,
      apart := hnums ▸ hapart }
  · cases h
  · intro f hf
    obtain ⟨e, he, rfl⟩ := mem_map.mp hf
    exact (hregular _ hf).toResolves
  · cases h
  · rw [hnums]
    intro n hn
    obtain ⟨e, he, rfl⟩ := mem_map.mp hn
    exact (hentries e he).2.2.2
  · intro f hf p hp _
    obtain ⟨e, he, rfl⟩ := mem_map.mp hf
    exact fun _ => hstart p hp
  · intro h
    cases ranges? with
    | none => exact absurd rfl h
    | some _ => rfl
  · cases h
  · intro f hf p hp _
    rw [hstart p hp]
    exact hunset f hf
  · cases h
  · cases h
  · cases h

/-- Notes, and notes as a program knows them that was built before they had a text and extensions. -/
def noteRegistry : Registry where
  classes :=
    #[.message (noteType [("id", .int32, 1), ("text", .string, 2)] (some [⟨100, 199⟩])),
      .message (noteType [("id", .int32, 1)] none)]

def note : Message where
  type := 0
  attrs := [("id", .int 5), ("text", .text "ab")]
  extensions? := some [(100, [162, 6, 1, 120])]
  unknown? := some [24, 7]

def emptyNote : Message where
  type := 0
  attrs := [("id", .null), ("text", .null)]
  extensions? := some []
  unknown? := some []

theorem regular_noteRegistry : noteRegistry.Regular := by
  rintro (_ | _ | id) t ht
  · cases ht
    refine regular_noteType (by decide) (by decide) (by decide) fun n hn => ?_
    simp only [inRanges, Option.getD_some, any_cons, any_nil, Bool.or_false, Bool.and_eq_true,
      decide_eq_true_eq] at hn
    refine ⟨by omega, ?_⟩
    simp only [map_cons, map_nil, mem_cons, not_mem_nil, or_false]
    omega
  · cases ht
    exact regular_noteType (by decide) (by decide) (by decide) fun n hn => by cases hn
  · cases ht

theorem typed_note : noteRegistry.Typed note := by
  refine ⟨_, rfl, ?_⟩
  refine
    { attrs := fun _ => Dictionary.isSome_get?, extensions := rfl, unknown := rfl, constructs := rfl,
      numbersOnce := ?_, unknownRecords := ?_, fields := ?_, oneofs := fun _ h => ?_, extension := ?_ }
  · rintro ext ⟨⟩
    decide
  · rintro raw ⟨⟩
    have hrecord : IsRecord 3 [24, 7] := ⟨0, [7], by decide, rfl, rfl⟩
    exact .single ⟨by decide, by decide, rfl⟩ hrecord
  · intro f hf v hv
    rcases mem_pair.mp hf with rfl | rfl
    · cases hv
      exact .inr ⟨.int32, rfl, 5, rfl, by decide⟩
    · cases hv
      exact .inr ⟨.string, rfl, "ab", rfl⟩
  · cases h
  · rintro ext ⟨⟩ number raw hmem
    cases mem_singleton.mp hmem
    have hrecord : IsRecord 100 [162, 6, 1, 120] := ⟨2, [1, 120], by decide, rfl, rfl⟩
    exact ⟨rfl, by simp, .single rfl hrecord⟩

/-- No message is inside a note. -/
theorem throughout_note {p : Message → Prop} (hp : p m) (htype : m.type = 0) (hm : m.Clear) :
    noteRegistry.Throughout p m := by
  refine Registry.throughout_iff.mpr ⟨hp, ?_⟩
  rintro inner ⟨t, ht, _, h⟩
  rw [htype] at ht
  cases ht
  rw [hm.tableOf_eq, hm.codecOf_eq] at h
  rcases h with ⟨_, f, v, ⟨⟩, hf, _, hholds⟩ | ⟨_, _, _, ⟨⟩, _⟩
  rcases mem_pair.mp hf with rfl | rfl
  · cases hholds.1
  · cases hholds.1

theorem faithful_note (htype : m.type = 0) : noteRegistry.Faithful m := by
  intro t ht
  rw [htype] at ht
  cases ht
  exact ⟨by decide, by decide, fun _ h => by cases h⟩

theorem survives_note :
    encode noteRegistry note = .ok [8, 5, 18, 2, 97, 98, 162, 6, 1, 120, 24, 7] ∧
      noteRegistry.Survives note { type := 1, attrs := [("id", .null)], unknown? := some [] } note := by
  have hwritten : encode noteRegistry note = .ok [8, 5, 18, 2, 97, 98, 162, 6, 1, 120, 24, 7] := rfl
  obtain ⟨t, ht, htyped⟩ := typed_note
  cases ht
  have hclear := htyped.clear (regular_noteRegistry 0 _ rfl).toStoresApart
  refine ⟨hwritten, (survives_iff_faithful regular_noteRegistry (throughout_note typed_note rfl hclear) rfl rfl rfl
    ?_ ?_ ?_ htyped.toInstance rfl fun bs hbs => ?_).mpr
      ⟨by decide, throughout_note (faithful_note rfl) rfl hclear⟩⟩
  · refine ⟨fun f hf => ?_, fun _ h => ?_, fun _ h => ?_, rfl, rfl⟩
    · cases mem_singleton.mp hf
      exact mem_cons_self
    · cases h
    · cases h
  · exact ⟨rfl, by decide, by decide, fun _ h => (by cases h), fun _ h => (by cases h)⟩
  · exact ⟨fun _ => Dictionary.isSome_get?, rfl, rfl⟩
  · cases hwritten.symm.trans hbs
    decide

end Protobind
