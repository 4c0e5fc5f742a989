import Protobind.Proofs.DecodeTyping

/-!
# The message set format

A message set keeps one length-delimited record for each type id. It is written as items in
ascending order of their ids, which are read back as the same records (`MessageSet.decode_encode`).
However items were spelled, what they leave behind is such records (`MessageSet.single_decode`).
-/

namespace Protobind.MessageSet

variable {ext : RawMap}

/-- Whether a dictionary has, under different ids of 64 bits, one length-delimited record each. The key of a
record has the id as far as it fits into 64 bits itself. -/
def Single (ext : Dictionary Int Bytes) : Prop :=
  (ext.map (·.1)).Nodup ∧ ∀ p ∈ ext, (0 ≤ p.1 ∧ p.1 < 18446744073709551616) ∧
    ∃ data : Bytes, p.2 = writeKey p.1 .bytes ++ writeRun data ∧ data.length < 18446744073709551616

theorem decode_encode (h : Single ext) :
    ∃ bs, encode ext = .ok bs ∧ decode [] bs = (sortByNumber ext, none) := by
  have hperm := perm_sortByNumber ext
  obtain ⟨bs, hwritten, hread⟩ := decode_writeItems (sortByNumber ext) fun p hp => h.2 p (hperm.mem_iff.mp hp)
  exact ⟨bs, hwritten, hread [] ((hperm.map (·.1)).nodup_iff.mpr h.1)⟩

/-- The records that are read are those that a class of message sets may keep. -/
theorem single_decode (d : Bytes) : Single (decode [] d).1 := by
  have hset : ({ name := "", isMessageSet := true } : MessageType).isMessageSet = true := rfl
  obtain ⟨hnodup, hstores⟩ := extensions_decodeEntries hset d.length [] d
    ⟨List.nodup_nil, fun _ _ hmem => absurd hmem List.not_mem_nil⟩
  refine ⟨hnodup, fun p hp => ?_⟩
  have hraw := hstores p.1 p.2 hp
  simp only [MessageType.Stores, MessageType.KeepsRaw, if_true] at hraw
  exact hraw

/-- Single records under any ids are written as a message set that is read back as the same dictionary. So
is every dictionary that some data was read as: whatever stood in the data beside its items, and whichever
of their members were repeated or in another order. -/
theorem encode_roundTrip :
    (∀ ext, Single ext → ∃ bs ext', encode ext = .ok bs ∧ decode [] bs = (ext', none) ∧ ext'.Perm ext) ∧
      ∀ d ext, decode [] d = (ext, none) →
        ∃ bs ext', encode ext = .ok bs ∧ decode [] bs = (ext', none) ∧ ext'.Perm ext := by
  have hback (ext : Dictionary Int Bytes) (h : Single ext) :
      ∃ bs ext', encode ext = .ok bs ∧ decode [] bs = (ext', none) ∧ ext'.Perm ext := by
    obtain ⟨bs, hwritten, hread⟩ := decode_encode h
    exact ⟨bs, _, hwritten, hread, perm_sortByNumber ext⟩
  refine ⟨hback, fun d ext hread => hback ext ?_⟩
  have hsingle := single_decode d
  rwa [hread] at hsingle

/-- A foreign field; an item with its members in the wrong order and two ids; another item of the id that
counts; and an item whose id is too large for a key. -/
def foreignItems : Bytes :=
  [32, 1] ++ [11, 26, 1, 7, 16, 5, 16, 6, 12] ++ [11, 16, 6, 26, 0, 12] ++
    [11, 16, 255, 255, 255, 255, 255, 255, 255, 255, 255, 1, 26, 1, 9, 12]

theorem encode_roundTrip_foreignItems :
    ∃ ext, decode [] foreignItems = (ext, none) ∧ ext.map (·.1) = [6, 18446744073709551615] ∧
      ∃ bs ext', encode ext = .ok bs ∧ decode [] bs = (ext', none) ∧ ext'.Perm ext := by
  have hread : decode [] foreignItems = ((decode [] foreignItems).1, none) := by decide +kernel
  exact ⟨_, hread, by decide +kernel, encode_roundTrip.2 _ _ hread⟩

end Protobind.MessageSet
