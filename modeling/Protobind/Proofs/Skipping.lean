import Protobind.Message.MessageSet
import Protobind.Proofs.Wire

/-!
# Skipped records and message sets

Skipping a record depends on its bytes only, not on what follows. Groups, items and entries are read
with fuel; the number of bytes that are left is never used up (`skipGroup_fuel`,
`MessageSet.readItem_fuel`, `MessageSet.decodeEntries_fuel`).
-/

namespace Protobind

open List Varint Reader

/-- The records that are kept of each extension. -/
abbrev RawMap := Dictionary Int Bytes

/-- Two amounts of fuel for as many steps as there are bytes. Without bytes no step is taken, and
what a step leaves is shorter. -/
theorem fuel_induction {P : Nat → Nat → Bytes → Prop} (nil : ∀ fuel fuel', P fuel fuel' [])
    (cons : ∀ {fuel fuel' b bs}, (∀ rest : Bytes, rest.length ≤ bs.length → P fuel fuel' rest) →
      P (fuel + 1) (fuel' + 1) (b :: bs)) :
    ∀ fuel fuel' bs, bs.length ≤ fuel → bs.length ≤ fuel' → P fuel fuel' bs
  | fuel, fuel', [], _, _ => nil fuel fuel'
  | 0, _, _ :: _, h, _ | _, 0, _ :: _, _, h => absurd h (by simp)
  | _ + 1, _ + 1, _ :: _, h, h' => cons fun rest hrest => fuel_induction nil cons _ _ rest
    (Nat.le_trans hrest (Nat.le_of_succ_le_succ h)) (Nat.le_trans hrest (Nat.le_of_succ_le_succ h'))

/-! ## Groups -/

theorem skipGroup_succ (fuel : Nat) (bs : Bytes) : skipGroup (fuel + 1) bs =
      match read bs with
      | .ok key rest =>
        if key % 8 = WireType.endGroup.code then .ok () rest
        else
          match skipValueWith (skipGroup fuel) (key % 8 : Nat) rest with
          | .ok _ rest => skipGroup fuel rest
          | .error e rest => .error e rest
      | .error e rest => .error e rest := by
  rw [skipGroup, bind_apply]
  cases read bs with
  | error e rest => rfl
  | ok key rest =>
    simp only
    split
    · rfl
    · rw [bind_apply]
      cases skipValueWith (skipGroup fuel) (key % 8 : Nat) rest <;> rfl

theorem skipValueWith_cases (wire : Int) : (∀ group, skipValueWith group wire = group) ∨
      ∃ skip : Reader Unit, skip.Local ∧ ∀ group, skipValueWith group wire = skip := by
  have hunit : Local (pure () : Reader Unit) := local_pure ()
  unfold skipValueWith
  split
  · exact .inr ⟨_, local_read.seqRight hunit, fun _ => rfl⟩
  split
  · exact .inr ⟨_, (local_takeBytes 8).seqRight hunit, fun _ => rfl⟩
  split
  · exact .inr ⟨_, local_readRun.seqRight hunit, fun _ => rfl⟩
  split
  · exact .inr ⟨_, (local_takeBytes 4).seqRight hunit, fun _ => rfl⟩
  split
  · exact .inl fun _ => rfl
  · exact .inr ⟨_, fun bs a rest h => (by cases h), fun _ => rfl⟩

/-- Skipping a group takes a front part of the data that is not empty; any fuel from the length of
that part on suffices, and nothing behind it has any influence. -/
theorem skipGroup_local (fuel : Nat) : ∀ bs rest, skipGroup fuel bs = .ok () rest →
    ∃ used, bs = used ++ rest ∧ ∀ fuel' more, used.length ≤ fuel' →
      skipGroup fuel' (used ++ more) = .ok () more := by
  induction fuel with
  | zero => intro bs rest h; cases h
  | succ fuel ih =>
    intro bs rest h
    obtain ⟨key, rest₁, hkey, hbody⟩ := bind_ok.mp h
    have hshort := length_lt_of_read hkey
    obtain ⟨keyBytes, rfl, hkeyBytes⟩ := local_read bs key rest₁ hkey
    have hpos : 0 < keyBytes.length := by rw [length_append] at hshort; omega
    split at hbody
    · rename_i hend
      cases hbody
      refine ⟨keyBytes, rfl, fun fuel' more hle => ?_⟩
      obtain ⟨b, rfl⟩ : ∃ b, fuel' = b + 1 := ⟨fuel' - 1, by omega⟩
      simp only [skipGroup_succ, hkeyBytes, if_pos hend]
    · rename_i hend
      obtain ⟨_, rest₂, hvalue, hbody⟩ := bind_ok.mp hbody
      obtain ⟨tailBytes, rfl, htail⟩ := ih rest₂ rest hbody
      -- The value is skipped with any fuel that suffices for its own bytes.
      obtain ⟨valueBytes, rfl, hvalueBytes⟩ : ∃ valueBytes,
          rest₁ = valueBytes ++ (tailBytes ++ rest) ∧ ∀ b more, valueBytes.length ≤ b →
            skipValueWith (skipGroup b) (key % 8 : Nat) (valueBytes ++ more) = .ok () more := by
        rcases skipValueWith_cases (key % 8 : Nat) with hgroup | ⟨skip, hskip, heq⟩
        · rw [hgroup] at hvalue
          obtain ⟨used, hused, hmore⟩ := ih rest₁ _ hvalue
          exact ⟨used, hused, fun b more hle => by rw [hgroup]; exact hmore b more hle⟩
        · rw [heq] at hvalue
          obtain ⟨used, hused, hmore⟩ := hskip rest₁ _ _ hvalue
          exact ⟨used, hused, fun b more _ => by rw [heq]; exact hmore more⟩
      refine ⟨keyBytes ++ (valueBytes ++ tailBytes), by simp only [append_assoc],
        fun fuel' more hle => ?_⟩
      simp only [length_append] at hle
      obtain ⟨b, rfl⟩ : ∃ b, fuel' = b + 1 := ⟨fuel' - 1, by omega⟩
      simp only [skipGroup_succ, append_assoc, hkeyBytes, if_neg hend]
      rw [hvalueBytes b _ (by omega)]
      exact htail b more (by omega)

theorem local_skipValue (wire : Int) : Local (skipValue wire) := by
  intro bs a rest h
  unfold skipValue at h ⊢
  rcases skipValueWith_cases wire with hgroup | ⟨skip, hskip, heq⟩
  · rw [hgroup] at h
    obtain ⟨used, rfl, hmore⟩ := skipGroup_local _ bs rest h
    refine ⟨used, rfl, fun more => ?_⟩
    simp only [hgroup]
    exact hmore _ more (by rw [length_append]; omega)
  · rw [heq] at h
    obtain ⟨used, rfl, hmore⟩ := hskip bs a rest h
    exact ⟨used, rfl, fun more => by simp only [heq]; exact hmore more⟩

/-- Fuel of as many records as there are bytes is never used up. -/
theorem skipGroup_fuel : ∀ fuel fuel' bs, bs.length ≤ fuel → bs.length ≤ fuel' →
    skipGroup fuel bs = skipGroup fuel' bs := by
  refine fuel_induction (fun fuel fuel' => ?_) fun {fuel fuel' b bs} ih => ?_
  · cases fuel <;> cases fuel' <;> rfl
  · rw [skipGroup_succ, skipGroup_succ]
    cases hkey : read (b :: bs) with
    | error e rest => rfl
    | ok key rest =>
      have hshort := Nat.le_of_lt_succ (length_lt_of_read hkey)
      have hvalue : skipValueWith (skipGroup fuel) (key % 8 : Nat) rest =
          skipValueWith (skipGroup fuel') (key % 8 : Nat) rest := by
        rcases skipValueWith_cases (key % 8 : Nat) with hgroup | ⟨skip, _, heq⟩
        · rw [hgroup, hgroup]
          exact ih rest hshort
        · rw [heq, heq]
      simp only [hvalue]
      split
      · rfl
      · cases hskip : skipValueWith (skipGroup fuel') (key % 8 : Nat) rest with
        | error e rest' => rfl
        | ok _ rest' =>
          refine ih rest' (Nat.le_trans ?_ hshort)
          rcases skipValueWith_cases (key % 8 : Nat) with hgroup | ⟨skip, hlocal, heq⟩
          · rw [hgroup] at hskip
            obtain ⟨used, rfl, _⟩ := skipGroup_local _ _ _ hskip
            rw [length_append]
            omega
          · rw [heq] at hskip
            exact hlocal.length_le hskip

/-! ## Message sets -/

namespace MessageSet

theorem readItem_succ (fuel : Nat) (id? : Option Nat) (data? : Option Bytes) (bs : Bytes) :
    readItem (fuel + 1) id? data? bs =
      match read bs with
      | .ok key rest =>
        if key = recordKey item .endGroup then .ok (id?, data?) rest
        else if key = recordKey typeId .varint then
          match read rest with
          | .ok id rest => readItem fuel (some id) data? rest
          | .error e rest => .error e rest
        else if key = recordKey payload .bytes then
          match readRun rest with
          | .ok data rest => readItem fuel id? (some data) rest
          | .error e rest => .error e rest
        else
          match skipValue (key % 8 : Nat) rest with
          | .ok _ rest => readItem fuel id? data? rest
          | .error e rest => .error e rest
      | .error e rest => .error e rest := by
  rw [readItem, bind_apply]
  cases read bs with
  | error e rest => rfl
  | ok key rest =>
    simp only
    split
    · rfl
    split
    · rw [bind_apply]
      cases read rest <;> rfl
    split
    · rw [bind_apply]
      cases readRun rest <;> rfl
    · rw [bind_apply]
      cases skipValue (key % 8 : Nat) rest <;> rfl

theorem local_readItem (fuel : Nat) : ∀ id? data?, (readItem fuel id? data?).Local := by
  induction fuel with
  | zero => exact fun id? data? bs found rest h => by cases h
  | succ fuel ih =>
    intro id? data?
    refine local_read.bind fun key => ?_
    split
    · exact local_pure _
    split
    · exact local_read.bind fun id => ih _ _
    split
    · exact local_readRun.bind fun data => ih _ _
    · exact (local_skipValue _).bind fun _ => ih _ _

theorem readItem_fuel : ∀ fuel fuel' bs, bs.length ≤ fuel → bs.length ≤ fuel' →
    ∀ id? data?, readItem fuel id? data? bs = readItem fuel' id? data? bs := by
  refine fuel_induction (fun fuel fuel' id? data? => ?_) fun {fuel fuel' b bs} ih id? data? => ?_
  · cases fuel <;> cases fuel' <;> rfl
  · rw [readItem_succ, readItem_succ]
    cases hkey : read (b :: bs) with
    | error e rest => rfl
    | ok key rest =>
      have hshort := Nat.le_of_lt_succ (length_lt_of_read hkey)
      simp only
      split
      · rfl
      split
      · cases hid : read rest with
        | error e rest' => rfl
        | ok id rest' =>
          have := length_lt_of_read hid
          exact ih rest' (by omega) _ _
      split
      · cases hdata : readRun rest with
        | error e rest' => rfl
        | ok data rest' =>
          have := length_lt_of_readRun hdata
          exact ih rest' (by omega) _ _
      · cases hskip : skipValue (key % 8 : Nat) rest with
        | error e rest' => rfl
        | ok _ rest' =>
          have := (local_skipValue _).length_le hskip
          exact ih rest' (by omega) _ _

theorem readEntry_eq (extensions : RawMap) (bs : Bytes) : readEntry extensions bs =
      match read bs with
      | .ok key rest =>
        if key = recordKey item .startGroup then
          match readItem rest.length none none rest with
          | .ok (some id, some data) rest =>
            .ok (extensions.set (id : Int) (rawRecord id data)) rest
          | .ok _ rest => .error .incompleteItem rest
          | .error e rest => .error e rest
        else
          match skipValue (key % 8 : Nat) rest with
          | .ok _ rest => .ok extensions rest
          | .error e rest => .error e rest
      | .error e rest => .error e rest := by
  rw [readEntry, bind_apply]
  cases read bs with
  | error e rest => rfl
  | ok key rest =>
    simp only
    split
    · show ((readItem rest.length none none >>= _) : Reader _) rest = _
      rw [bind_apply]
      cases readItem rest.length none none rest with
      | error e rest' => rfl
      | ok found rest' =>
        obtain ⟨id?, data?⟩ := found
        cases id? <;> cases data? <;> rfl
    · rw [bind_apply]
      cases skipValue (key % 8 : Nat) rest <;> rfl

theorem local_readEntry (ext : RawMap) : (readEntry ext).Local := by
  intro bs ext' rest h
  obtain ⟨tag, behind, hkey, hbody⟩ := bind_ok.mp h
  obtain ⟨key, rfl, hread⟩ := local_read _ _ _ hkey
  split at hbody
  · rename_i hitem
    obtain ⟨found, _, hfound, hbody⟩ := (bind_ok (r := readItem behind.length none none)).mp hbody
    obtain ⟨_ | id, _ | data⟩ := found <;> cases hbody
    obtain ⟨used, hbehind, -⟩ := local_readItem _ _ _ _ _ _ hfound
    refine ⟨key ++ used, by rw [hbehind, append_assoc], fun more => ?_⟩
    -- The fuel is the length of the data: some that suffices for both is used in between.
    have hlarge := hfound
    rw [readItem_fuel _ (behind.length + more.length) _ (Nat.le_refl _) (by omega)] at hlarge
    obtain ⟨used', hbehind', hused⟩ := local_readItem _ _ _ _ _ _ hlarge
    obtain rfl : used = used' := append_cancel_right (hbehind.symm.trans hbehind')
    have hle : (used ++ more).length ≤ behind.length + more.length := by
      rw [hbehind, length_append, length_append]
      omega
    rw [readEntry_eq, append_assoc, hread]
    simp only [if_pos hitem]
    rw [readItem_fuel _ _ (used ++ more) (Nat.le_refl _) hle, hused]
  · rename_i hitem
    obtain ⟨_, _, hskip, hbody⟩ := bind_ok.mp hbody
    cases hbody
    obtain ⟨used, rfl, hused⟩ := local_skipValue _ _ _ _ hskip
    refine ⟨key ++ used, by rw [append_assoc], fun more => ?_⟩
    rw [readEntry_eq, append_assoc, hread]
    simp only [if_neg hitem, hused]

theorem readEntry_length_lt {ext ext' : RawMap} {bs rest : Bytes}
    (h : readEntry ext bs = .ok ext' rest) : rest.length < bs.length :=
  (local_readEntry ext).length_lt (fun _ _ h => by cases h) h

theorem decodeEntries_fuel : ∀ fuel fuel' bs, bs.length ≤ fuel → bs.length ≤ fuel' →
    ∀ extensions, decodeEntries fuel extensions bs = decodeEntries fuel' extensions bs := by
  refine fuel_induction (fun fuel fuel' _ => ?_) fun {fuel fuel' b bs} ih extensions => ?_
  · cases fuel <;> cases fuel' <;> rfl
  · rw [decodeEntries, decodeEntries]
    cases hentry : readEntry extensions (b :: bs) with
    | error e rest => rfl
    | ok extensions' rest =>
      exact ih rest (Nat.le_of_lt_succ (readEntry_length_lt hentry)) extensions'

end MessageSet

end Protobind
