import Protobind.Proofs.Reordering

/-!
# Truncated data

Reading a value takes exactly what skipping it takes (`decoding_stops_where_skipping_does`), so data
falls apart into records in one way only. If it is cut between two of them, what is left is read; if
it is cut anywhere else, the missing bytes are noticed (`truncation_rejected`).
-/

namespace Protobind

open List WireType Varint Reader

variable {α σ : Type} {m m' : Message} {v current : Value} {ext ext' : RawMap}
  {tag number wire : Nat} {bs rest raw value d : Bytes} {l : Layout} {member : VariantMember}
  {r : Reader α} {reg : Registry} {s s' : σ} {slot : Slot}

/-- Whether the tags of the fields of all message classes fit their kinds. -/
def Registry.Tagged (reg : Registry) : Prop :=
  ∀ id t, reg.messageType? id = some t → ∀ f ∈ t.fields, f.Tagged

theorem Registry.Regular.tagged (hreg : reg.Regular) : reg.Tagged := by
  intro id t ht f hf
  have hentry := (hreg id t ht).entries f hf
  cases f with
  | plain slot => exact hentry.wire
  | map slot key val => trivial

open Decode in
theorem Registry.Tagged.reads (htagged : reg.Tagged) (hwf : reg.WellFormed) : reg.ReadsTagged := by
  intro m l h
  unfold layout at h
  split at h
  · cases h
  · rename_i t ht
    obtain ⟨table, htable, h⟩ := bind_eq_ok.mp h
    obtain ⟨codec?, -, h⟩ := bind_eq_ok.mp h
    obtain ⟨ranges, -, h⟩ := bind_eq_ok.mp h
    cases h
    have hsub : table = t.fields ∨ table = [] := by
      unfold MessageType.indexOf at htable
      split at htable
      · rename_i table' hindex
        cases htable
        exact .inl ((hwf _ _ ht).index _ hindex)
      · unfold MessageType.tableOf at htable
        split at htable
        · cases htable
          exact .inl rfl
        · obtain ⟨items, -, htable⟩ := bind_eq_ok.mp htable
          split at htable
          · cases htable
            exact .inr rfl
          · cases htable
    intro f hf
    rcases hsub with rfl | rfl
    · exact htagged _ _ ht f hf
    · cases hf

/-- Skipping a value in a buffer moves the cursor to what follows the value. -/
theorem Buffer.read_skipped {b : Buffer} (h : Skipped wire b.unread rest) :
    ∃ j ≤ b.data.length, b.data.drop j = rest ∧ b.read (skipValue wire) = (.ok (), { b with cursor := j }) := by
  obtain ⟨used, hused, -⟩ := local_skipValue wire _ _ _ h
  have hsuffix : rest <:+ b.data := List.IsSuffix.trans ⟨used, hused.symm⟩ (drop_suffix b.cursor b.data)
  refine ⟨b.data.length - rest.length, Nat.sub_le _ _, (suffix_iff_eq_drop.mp hsuffix).symm, ?_⟩
  unfold Skipped at h
  simp only [Buffer.read, h]

open Decode in
/-- A value that is read ends where it is skipped to: whatever the kind and the label of its field, whichever
member of a oneof it is, and whatever is nested in it. -/
theorem decoding_stops_where_skipping_does {reg : Registry} (hreads : reg.ReadsTagged) (fuel : Nat)
    (b : Buffer) (wire : Nat) :
    (∀ f : Field, f.Tagged → ∀ current v rest,
        field reg (nestedReaders reg fuel) f wire current b.unread = .done v rest →
          ∃ j ≤ b.data.length, b.data.drop j = rest ∧
            b.read (skipValue wire) = (.ok (), { b with cursor := j })) ∧
      ∀ m group member m' rest,
        mergeMember reg (nestedReaders reg fuel) m group member wire b.unread = .done m' rest →
          ∃ j ≤ b.data.length, b.data.drop j = rest ∧
            b.read (skipValue wire) = (.ok (), { b with cursor := j }) := by
  have hn : (nestedReaders reg fuel).LocalIf True := reads_boundedReaders (fun _ => hreads) fuel
  refine ⟨fun f hf current v rest h => ?_, fun m group member m' rest h => ?_⟩
  · exact Buffer.read_skipped ((local_field hn fun _ => hf) h |>.skipped trivial)
  · exact Buffer.read_skipped ((local_mergeMember hn h).skipped trivial)

/-- A field that holds a tree as a group. -/
def treeGroup : Field :=
  .plain { attr := "g", kind := .known .group, typeName? := some "u.U",
           tag := { text := "", wireType := .startGroup, number := 9, repeated := false, required := false,
                    name := "g" } }

open Decode in
/-- A group with a number, an unknown group and a member of a oneof in it. -/
theorem decoding_stops_where_skipping_does_treeGroup :
    ∃ v, field (treeRegistry "v") (nestedReaders (treeRegistry "v") 9) treeGroup 3 .null
        [8, 5, 75, 76, 26, 2, 97, 98, 76, 1] = .done v [1] ∧
      (Buffer.mk [75, 8, 5, 75, 76, 26, 2, 97, 98, 76, 1] 1).read (skipValue 3) =
        (.ok (), ⟨[75, 8, 5, 75, 76, 26, 2, 97, 98, 76, 1], 10⟩) := by
  have hreg : (treeRegistry "v").Regular := regular_treeRegistry (by decide)
  have hreads := hreg.tagged.reads fun id t h => (hreg id t h).toWellFormed
  have htagged : treeGroup.Tagged := by rintro kind ⟨⟩; rfl
  refine ⟨_, rfl, ?_⟩
  obtain ⟨j, hj, hdrop, hskip⟩ := (decoding_stops_where_skipping_does hreads 9
    ⟨[75, 8, 5, 75, 76, 26, 2, 97, 98, 76, 1], 1⟩ 3).1 treeGroup htagged .null _ [1] rfl
  obtain rfl : j = 10 := by
    have hlength := congrArg List.length hdrop
    simp at hlength hj
    omega
  exact hskip

namespace MessageSet

open Decode

theorem skipped_readItem (fuel : Nat) : ∀ {id? : Option Nat} {data? : Option Bytes} {bs rest : Bytes}
    {found : Option Nat × Option Bytes}, readItem fuel id? data? bs = .ok found rest →
      Skipped startGroup.code bs rest := by
  induction fuel with
  | zero => intro id? data? bs rest found h; cases h
  | succ fuel ih =>
    intro id? data? bs rest found h
    obtain ⟨key, behind, hkey, h⟩ := bind_ok.mp h
    split at h
    · rename_i hend
      cases h
      refine skipped_groupEnd hkey ?_
      simp only [recordKey, item, code] at hend ⊢
      omega
    split at h
    · rename_i hid
      have hwire : key % 8 = varint.code := by
        simp only [recordKey, typeId, code] at hid ⊢
        omega
      obtain ⟨id, rest', hread, h⟩ := bind_ok.mp h
      refine skipped_group hkey (by rw [hwire]; decide) ?_ (ih h)
      rw [hwire]
      exact takes_read.skips hread
    split at h
    · rename_i hdata
      have hwire : key % 8 = bytes.code := by
        simp only [recordKey, payload, code] at hdata ⊢
        omega
      obtain ⟨data, rest', hread, h⟩ := bind_ok.mp h
      refine skipped_group hkey (by rw [hwire]; decide) ?_ (ih h)
      rw [hwire]
      exact takes_readRun.skips hread
    · obtain ⟨_, rest', hskip, h⟩ := bind_ok.mp h
      refine skipped_group hkey (fun hend => ?_) hskip (ih h)
      rw [hend] at hskip
      cases hskip

theorem skipped_readEntry (hkey : read bs = .ok tag value)
    (h : readEntry ext bs = .ok ext' rest) : Skipped (tag % 8) value rest := by
  rw [readEntry_eq] at h
  simp only [hkey] at h
  split at h
  · rename_i hitem
    have hwire : tag % 8 = startGroup.code := by
      simp only [recordKey, item, code] at hitem ⊢
      omega
    split at h
    · rename_i hfound
      cases h
      rw [hwire]
      exact skipped_readItem _ hfound
    · cases h
    · cases h
  · split at h
    · rename_i hskip
      cases h
      exact hskip
    · cases h

end MessageSet

/-! ## Cuts -/

theorem isRecord_of_skipped (hkey : read raw = .ok tag value) (hvalue : Skipped (tag % 8) value []) :
    IsRecord (tag / 8) raw :=
  ⟨tag % 8, value, Nat.mod_lt _ (by decide), by rw [Nat.div_add_mod' tag 8]; exact hkey, hvalue⟩

/-- No record is the beginning of another one. -/
theorem IsRecord.eq_of_begins {number' : Nat} {raw' : Bytes} (h : IsRecord number raw)
    (h' : IsRecord number' raw') (hbegins : raw <+: raw') : raw = raw' := by
  obtain ⟨wire, value, hwire, hkey, hskip⟩ := h
  obtain ⟨wire', value', hwire', hkey', hskip'⟩ := h'
  obtain ⟨behind, rfl⟩ := hbegins
  rw [local_read.append hkey] at hkey'
  obtain ⟨htag, rfl⟩ := EStateM.Result.ok.inj hkey'
  obtain rfl : wire = wire' := by omega
  rw [(local_skipValue _).append hskip] at hskip'
  have hnil : behind = [] := (EStateM.Result.ok.inj hskip').2
  rw [hnil, append_nil]

/-- A sequence of whole records. -/
def WholeRecords (bs : Bytes) : Prop := RecordsOf (fun _ => True) bs

/-- Behind a record there are whole records exactly if there are whole records from it on. -/
theorem wholeRecords_append (h : IsRecord number raw) :
    WholeRecords (raw ++ bs) ↔ WholeRecords bs := by
  refine ⟨fun hall => ?_, .cons trivial h⟩
  generalize hdata : raw ++ bs = data at hall
  cases hall with
  | nil => exact absurd (append_eq_nil_iff.mp hdata).1 h.ne_nil
  | @cons number' raw' rest _ h' hrest =>
    have heq : raw = raw' := by
      rcases prefix_or_prefix_of_prefix (hdata ▸ prefix_append raw bs)
        (prefix_append raw' rest) with hbegins | hbegins
      · exact h.eq_of_begins h' hbegins
      · exact (h'.eq_of_begins h hbegins).symm
    subst heq
    rw [append_cancel_left hdata]
    exact hrest

/-- Whether a record of some data ends at a position, or the first one begins there. -/
def IsBoundary (d : Bytes) (k : Nat) : Prop := WholeRecords (d.take k) ∧ WholeRecords (d.drop k)

/-- Whether a byte string is a record that turns a state into another one, whatever follows it, and is
malformed when it is cut. -/
structure Piece {σ : Type} (read : σ → Bytes → Outcome σ) (s : σ) (raw : Bytes) (s' : σ) : Prop where
  record : ∃ number, IsRecord number raw
  onward : ∀ more, read s (raw ++ more) = read s' more
  strict : ∀ part, part <+: raw → part ≠ [] → part ≠ raw → Decode.RejectsInto (read s part)

theorem Run.imp {ρ : Type} {step step' : σ → ρ → σ → Prop}
    (himp : ∀ s r s', step s r s' → step' s r s') {rs : List ρ} (h : Run step s rs s') :
    Run step' s rs s' := by
  induction h with
  | nil => exact .nil
  | cons h _ ih => exact .cons (himp _ _ _ h) ih

/-- Whether data is a sequence of records that can be read up to the end of each of them, and is
malformed when it is cut anywhere else. -/
def CutsAtRecords (read : Bytes → Outcome σ) (d : Bytes) : Prop :=
  WholeRecords d ∧ ∀ k ≤ d.length, (IsBoundary d k ∧ ∃ s, read (d.take k) = .done s []) ∨
      (¬ IsBoundary d k ∧ Decode.RejectsInto (read (d.take k)))

theorem CutsAtRecords.map {τ : Type} {read : Bytes → Outcome σ} (h : CutsAtRecords read d)
    (f : σ → τ) : CutsAtRecords (fun bs => (read bs).map f) d := by
  refine ⟨h.1, fun k hk => ?_⟩
  rcases h.2 k hk with ⟨hboundary, s, hdone⟩ | ⟨hboundary, e, s, hbad⟩
  · exact .inl ⟨hboundary, f s, by simp only [hdone, Outcome.map]⟩
  · exact .inr ⟨hboundary, e, f s, by simp only [hbad, Outcome.map]⟩

/-- Records that are read one after the other can be cut only between two of them. -/
theorem Run.cutsAtRecords {read : σ → Bytes → Outcome σ} {rs : List Bytes}
    (h : Run (Piece read) s rs s') (hnil : ∀ s, read s [] = .done s []) :
    CutsAtRecords (read s) rs.flatten := by
  induction h with
  | @nil s =>
    refine ⟨.nil, fun k _ => .inl ⟨⟨?_, ?_⟩, s, ?_⟩⟩
    · rw [flatten_nil, take_nil]
      exact .nil
    · rw [flatten_nil, drop_nil]
      exact .nil
    · rw [flatten_nil, take_nil]
      exact hnil _
  | @cons s s₁ s' raw rs h _ ih =>
    obtain ⟨number, hrecord⟩ := h.record
    obtain ⟨hwhole, ih⟩ := ih
    rw [flatten_cons]
    have hall := (wholeRecords_append hrecord).mpr hwhole
    refine ⟨hall, fun k hk => ?_⟩
    rcases Nat.lt_or_ge k raw.length with hcut | hcut
    · rcases Nat.eq_zero_or_pos k with rfl | hpos
      · exact .inl ⟨⟨.nil, hall⟩, s, hnil s⟩
      -- The cut falls into the first record.
      · have htake : (raw ++ rs.flatten).take k = raw.take k := take_append_of_le_length (by omega)
        have hpart : raw.take k <+: raw := take_prefix k raw
        have hshort : (raw.take k).length = k := by rw [length_take]; omega
        have hne : raw.take k ≠ raw := fun heq => by rw [heq] at hshort; omega
        refine .inr ⟨fun hboundary => ?_, ?_⟩
        · have hfirst := hboundary.1
          rw [htake] at hfirst
          generalize raw.take k = part at hfirst hpart hshort hne
          cases hfirst with
          | nil => simp at hshort; omega
          | @cons number' raw' rest _ h' _ =>
            have hraw := h'.eq_of_begins hrecord ((prefix_append raw' rest).trans hpart)
            have hle := hpart.length_le
            rw [length_append, hraw] at hle hshort
            omega
        · rw [htake]
          exact h.strict _ hpart (fun heq => by rw [heq] at hshort; simp at hshort; omega) hne
    · obtain ⟨j, rfl⟩ : ∃ j, k = raw.length + j := ⟨k - raw.length, by omega⟩
      have htake : (raw ++ rs.flatten).take (raw.length + j) = raw ++ rs.flatten.take j :=
        take_length_add_append j
      have hdrop : (raw ++ rs.flatten).drop (raw.length + j) = rs.flatten.drop j :=
        drop_length_add_append j
      rw [length_append] at hk
      rw [IsBoundary, htake, hdrop, h.onward, wholeRecords_append hrecord]
      exact ih j (by omega)

/-! ## Messages -/

section Messages

open Decode

variable (hwf : reg.WellFormed) (htagged : reg.Tagged)

include hwf htagged

/-- A record that is merged ends where it is seen to end, and not before. -/
theorem piece_of_step {t : MessageType} (ht : ∀ f ∈ t.fields, f.Tagged) (h : Step reg t m raw m') :
    Piece (records reg false (.ofType t)) m raw m' := by
  obtain ⟨⟨tag, value, hkey, hend⟩, hnext⟩ := h
  have hl : True → (Layout.ofType t).Tagged := fun _ => ht
  obtain ⟨tag', key, value', hraw, hkey', hskipped, hfront⟩ :=
    local_nextRecord (reads_readers fun _ => htagged.reads hwf) hl hnext
  rw [append_nil] at hraw hskipped
  refine ⟨⟨tag' / 8, isRecord_of_skipped (hraw ▸ hkey' value') (hskipped trivial)⟩, fun more => ?_,
    fun part hpart hempty hne => ?_⟩
  · refine records_append ?_ more
    rw [records_next hkey, step_of_read hkey, if_neg hend, hnext]
    exact records_nil
  · obtain ⟨e, s, hbad⟩ := hfront.strict part (hraw ▸ hpart) (hraw ▸ hne)
    cases hread : read part with
    | error e rest =>
      cases part with
      | nil => exact absurd rfl hempty
      | cons b bs => exact ⟨e, m, by rw [records_cons, step, hread]⟩
    | ok tag' rest =>
      obtain ⟨behind, rfl⟩ := hpart
      have hsame := local_read.append hread behind
      rw [hkey] at hsame
      cases hsame
      exact ⟨e, s, by rw [records_next hread, step_of_read hread, if_neg hend, hbad]⟩

end Messages

namespace MessageSet

open Decode

/-- Reads a message set into extensions. -/
def readInto (ext : Dictionary Int Bytes) (bs : Bytes) : Outcome (Dictionary Int Bytes) :=
  match decode ext bs with
  | (ext, none) => .done ext []
  | (ext, some e) => .failed (.malformed e) ext

theorem piece_of_entry (h : readEntry ext raw = .ok ext' []) : Piece readInto ext raw ext' := by
  refine ⟨?_, fun more => ?_, fun part hpart hempty hne => ?_⟩
  · cases hkey : read raw with
    | error e rest => rw [readEntry_eq, hkey] at h; cases h
    | ok tag value => exact ⟨_, isRecord_of_skipped hkey (skipped_readEntry hkey h)⟩
  · unfold readInto
    rw [decode_of_readEntry ((local_readEntry ext).append h more), nil_append]
  · obtain ⟨used, hraw, hfront⟩ := (local_readEntry ext).front h
    rw [append_nil] at hraw
    obtain ⟨e, rest, hbad⟩ := hfront.strict part (hraw ▸ hpart) (hraw ▸ hne)
    cases part with
    | nil => exact absurd rfl hempty
    | cons b bs => exact ⟨e, ext, by rw [readInto, decode_of_refused hbad]⟩

theorem readInto_nil (ext : RawMap) : readInto ext [] = .done ext [] := rfl

theorem exists_run_of_readInto (h : readInto ext d = .done ext' []) :
    ∃ rs : List Bytes, rs.flatten = d ∧ Run (Piece readInto) ext rs ext' := by
  induction hn : d.length using Nat.strongRecOn generalizing d ext with
  | ind n ih =>
    cases d with
    | nil =>
      cases h
      exact ⟨[], rfl, .nil⟩
    | cons b bs =>
      cases hentry : readEntry ext (b :: bs) with
      | error e rest => rw [readInto, decode_of_refused hentry] at h; cases h
      | ok next rest =>
        rw [readInto, decode_of_readEntry hentry] at h
        obtain ⟨rs, hrs, hrun⟩ := ih rest.length (hn ▸ readEntry_length_lt hentry) h rfl
        obtain ⟨used, hused, hmore⟩ := local_readEntry ext _ _ _ hentry
        have hone := hmore []
        rw [append_nil] at hone
        exact ⟨used :: rs, by rw [flatten_cons, hrs, hused], .cons (piece_of_entry hone) hrun⟩

theorem mergeSet_eq_map (hm : m.Clear) (hext : m.extensions? = some ext) (bs : Bytes) :
    mergeSet m bs = (readInto ext bs).map m.keeping := by
  rw [mergeSet_eq hm hext]
  unfold readInto
  rcases decode ext bs with ⟨ext', _ | e⟩ <;> rfl

end MessageSet

open Decode in
/-- Data that was read is a sequence of records. What is left of it when it is cut is read if the cut
falls between two records, and is malformed if it falls anywhere else: into a key, a length or a value, or
between the records of a group or of an item. -/
theorem truncation_rejected {reg : Registry} (hwf : reg.WellFormed) (htagged : reg.Tagged)
    {into start m : Message} {t : MessageType} (ht : reg.messageType? into.type = some t)
    (hinto : t.Instance into) (hreset : reg.reset into = .ok start) {d : Bytes}
    (hread : merge reg start d = .done m []) :
    WholeRecords d ∧ ∀ k ≤ d.length,
      (IsBoundary d k → ∃ m', merge reg start (d.take k) = .done m' []) ∧
        (¬ IsBoundary d k → ∃ e m', merge reg start (d.take k) = .failed (.malformed e) m') := by
  have hclass := hwf _ _ ht
  obtain ⟨⟨hblank, -, -⟩, ht⟩ := hinto.fresh_reset hclass.toStoresApart ht hreset
  have hcut : CutsAtRecords (merge reg start) d := by
    by_cases hset : t.isMessageSet = true
    · have hmerge (bs : Bytes) : merge reg start bs =
          (MessageSet.readInto [] bs).map fun ext => { start with extensions? := some ext } := by
        rw [merge_eq_mergeSet ht hset]
        exact MessageSet.mergeSet_eq_map hblank.clear (hblank.extensions (hclass.set hset).1) bs
      rw [hmerge] at hread
      obtain ⟨ext, hext, -⟩ := map_eq_done hread
      rw [funext hmerge]
      obtain ⟨rs, rfl, hrun⟩ := MessageSet.exists_run_of_readInto hext
      exact (hrun.cutsAtRecords MessageSet.readInto_nil).map _
    · have hmerge := merge_of_clear ht hclass.toSettled hblank.clear (by simpa using hset)
      rw [hmerge] at hread
      rw [funext hmerge]
      obtain ⟨rs, rfl, hrun⟩ := exists_run_of_records hread
      have hpieces := hrun.imp fun _ _ _ h => piece_of_step hwf htagged (htagged _ _ ht) h
      exact hpieces.cutsAtRecords fun m => records_nil
  refine ⟨hcut.1, fun k hk => ⟨fun h => ?_, fun h => ?_⟩⟩
  · exact ((hcut.2 k hk).resolve_right fun h' => h'.1 h).2
  · exact ((hcut.2 k hk).resolve_left fun h' => h h'.1).2

/-- A group is cut behind a record inside it. -/
theorem truncation_rejected_tree :
    merge (treeRegistry "v") (treeBlank "v") [75, 26, 0, 76, 26, 2, 97, 98] =
        .done (treeWord "v" .null) [] ∧
      ∃ e m, merge (treeRegistry "v") (treeBlank "v") [75, 26, 0] = .failed (.malformed e) m := by
  have hread : merge (treeRegistry "v") (treeBlank "v") [75, 26, 0, 76, 26, 2, 97, 98] =
      .done (treeWord "v" .null) [] := rfl
  obtain ⟨t, ht, hinto⟩ := typed_treeLeaf v_free rfl
  have hreg := regular_treeRegistry v_free
  obtain ⟨-, hcuts⟩ := truncation_rejected (fun id t h => (hreg id t h).toWellFormed) hreg.tagged ht
    hinto.toInstance rfl hread
  refine ⟨hread, (hcuts 3 (by decide)).2 fun hboundary => ?_⟩
  obtain ⟨m, hdone⟩ := (hcuts 3 (by decide)).1 hboundary
  have hbad : merge (treeRegistry "v") (treeBlank "v") [75, 26, 0] =
      .failed (.malformed .endInVarint) (treeBlank "v") := rfl
  cases hbad.symm.trans hdone

end Protobind
