import Mathlib.Data.List.Induction
import Mathlib.Data.List.Nodup
import Mathlib.Data.List.Perm.Basic
import Protobind.Message.ExtensionStore

/-!
# Computations with faults, sorted lists and dictionaries

How a computation that succeeds comes apart into its steps, and what sorting and dictionaries keep
of what is put into them.
-/

namespace Protobind

open List

variable {α β ε : Type} {d : Dictionary α β} {entries : List (Value × Value)} {i : Nat} {key : α}
  {pairs : List (Int × β)} {r : α → β → Prop} {value : β} {x : Except ε α}

/-! ## Computations with faults -/

theorem bind_eq_ok {f : α → Except ε β} {b : β} :
    (x >>= f) = .ok b ↔ ∃ a, x = .ok a ∧ f a = .ok b := by
  cases x with
  | error fault =>
    constructor
    · intro h; cases h
    · rintro ⟨a, h, _⟩; cases h
  | ok a =>
    constructor
    · intro h; exact ⟨a, rfl, h⟩
    · rintro ⟨_, ⟨⟩, h⟩; exact h

/-- Whether a computation gives something with a property is found out by running it. -/
instance decidableExistsOk {p : α → Prop} [DecidablePred p] :
    (x : Except ε α) → Decidable (∃ a, x = .ok a ∧ p a)
  | .ok a => decidable_of_iff (p a) (by simp)
  | .error _ => .isFalse (by simp)

instance decidableExistsResult {σ : Type} {p : α → Prop} [DecidablePred p] :
    (x : EStateM.Result ε σ α) → Decidable (∃ a s, x = .ok a s ∧ p a)
  | .ok a _ => decidable_of_iff (p a) (by simp)
  | .error _ _ => .isFalse (by simp)

theorem ok_bind (a : α) (f : α → Result β) : (Except.ok a >>= f) = f a := rfl

theorem pure_eq_ok (a : α) : (pure a : Result α) = .ok a := rfl

theorem mapError_eq_ok {ε' : Type} {f : ε → ε'} {r : α} : x.mapError f = .ok r ↔ x = .ok r := by
  cases x with
  | error e => constructor <;> intro h <;> cases h
  | ok r' => constructor <;> intro h <;> cases h <;> rfl

theorem mapM_eq_ok {f : α → Result β} :
    ∀ {as : List α} {bs : List β}, as.mapM f = .ok bs → Forall₂ (fun a b => f a = .ok b) as bs
  | [], bs, h => by
    rw [mapM_nil] at h
    cases h
    exact .nil
  | a :: as, bs, h => by
    rw [mapM_cons] at h
    obtain ⟨b, ha, h⟩ := bind_eq_ok.mp h
    obtain ⟨bs', has, h⟩ := bind_eq_ok.mp h
    cases h
    exact .cons ha (mapM_eq_ok has)

theorem exists_of_forall₂ :
    ∀ {as : List α} {bs : List β}, Forall₂ r as bs → ∀ {a}, a ∈ as → ∃ b ∈ bs, r a b
  | _, _, .cons hab htail, a, ha => by
    rcases mem_cons.mp ha with rfl | ha
    · exact ⟨_, mem_cons_self, hab⟩
    · obtain ⟨b, hb, hr⟩ := exists_of_forall₂ htail ha
      exact ⟨b, mem_cons_of_mem _ hb, hr⟩

theorem split_of_forall₂ {a : α} {as' : List α} :
    ∀ {as : List α} {bs : List β}, Forall₂ r (as ++ a :: as') bs →
      ∃ bs₁ b bs₂, bs = bs₁ ++ b :: bs₂ ∧ Forall₂ r as bs₁ ∧ r a b
  | [], _, .cons hab _ => ⟨[], _, _, rfl, .nil, hab⟩
  | _ :: _, _, .cons hab htail => by
    obtain ⟨bs₁, b, bs₂, rfl, hall, hr⟩ := split_of_forall₂ htail
    exact ⟨_ :: bs₁, b, bs₂, rfl, .cons hab hall, hr⟩

/-! ## Sorting -/

theorem perm_insertByNumber (p : Int × β) : ∀ pairs, (insertByNumber p pairs).Perm (p :: pairs)
  | [] => .refl _
  | q :: rest => by
    unfold insertByNumber
    split
    · exact .refl _
    · exact ((perm_insertByNumber p rest).cons q).trans (.swap p q rest)

theorem perm_sortByNumber (pairs : List (Int × β)) : (sortByNumber pairs).Perm pairs := by
  induction pairs with
  | nil => exact .refl _
  | cons p rest ih => exact (perm_insertByNumber p _).trans (ih.cons p)

theorem pairwise_insertByNumber (p : Int × β) (h : pairs.Pairwise (·.1 ≤ ·.1)) :
    (insertByNumber p pairs).Pairwise (·.1 ≤ ·.1) := by
  induction pairs with
  | nil => exact pairwise_singleton _ _
  | cons q rest ih =>
    obtain ⟨hle, hrest⟩ := pairwise_cons.mp h
    unfold insertByNumber
    split
    · rename_i hpq
      refine pairwise_cons.mpr ⟨fun r hr => ?_, h⟩
      rcases mem_cons.mp hr with rfl | hr
      · exact hpq
      · exact Int.le_trans hpq (hle r hr)
    · refine pairwise_cons.mpr ⟨fun r hr => ?_, ih hrest⟩
      rcases mem_cons.mp ((perm_insertByNumber p rest).mem_iff.mp hr) with rfl | hr
      · omega
      · exact hle r hr

theorem pairwise_sortByNumber (pairs : List (Int × β)) :
    (sortByNumber pairs).Pairwise (·.1 ≤ ·.1) := by
  induction pairs with
  | nil => exact .nil
  | cons p rest ih => exact pairwise_insertByNumber p ih

theorem sortByNumber_eq_self (h : pairs.Pairwise (·.1 ≤ ·.1)) : sortByNumber pairs = pairs := by
  induction pairs with
  | nil => rfl
  | cons p rest ih =>
    obtain ⟨hle, hrest⟩ := pairwise_cons.mp h
    show insertByNumber p (sortByNumber rest) = p :: rest
    rw [ih hrest]
    cases rest with
    | nil => rfl
    | cons q rest => exact if_pos (hle q mem_cons_self)

theorem sortByNumber_sortByNumber (pairs : List (Int × β)) :
    sortByNumber (sortByNumber pairs) = sortByNumber pairs :=
  sortByNumber_eq_self (pairwise_sortByNumber pairs)

theorem sortByNumber_eq_of_perm {sorted : List (Int × β)} (hsorted : sorted.Pairwise (·.1 < ·.1))
    (h : pairs.Perm sorted) : sortByNumber pairs = sorted := by
  have hperm := (perm_sortByNumber pairs).trans h
  have hapart : (sorted.map (·.1)).Nodup := pairwise_map.mpr (hsorted.imp Int.ne_of_lt)
  refine hperm.eq_of_pairwise (fun p q hp hq hle hge => ?_) (pairwise_sortByNumber pairs)
    (hsorted.imp Int.le_of_lt)
  exact inj_on_of_nodup_map hapart (hperm.mem_iff.mp hp) hq (Int.le_antisymm hle hge)

theorem Value.perm_insertSorted (v : Value) :
    ∀ {vs ws : List Value}, Value.insertSorted v vs = .ok ws → ws.Perm (v :: vs)
  | [], ws, h => by cases h; exact .refl _
  | w :: rest, ws, h => by
    obtain ⟨o, _, h⟩ := bind_eq_ok.mp h
    split at h
    · obtain ⟨ws', hi, h⟩ := bind_eq_ok.mp h
      cases h
      exact ((Value.perm_insertSorted v hi).cons w).trans (.swap v w rest)
    · cases h
      exact .refl _

theorem Value.perm_sorted : ∀ {vs ws : List Value}, Value.sorted vs = .ok ws → ws.Perm vs
  | [], ws, h => by cases h; exact .refl _
  | v :: vs, ws, h => by
    obtain ⟨ws', hs, h⟩ := bind_eq_ok.mp h
    exact (Value.perm_insertSorted v h).trans ((Value.perm_sorted hs).cons v)

/-! ## Dictionaries -/

namespace Dictionary

variable [BEq α] [LawfulBEq α]

theorem mem_set {p : α × β} (h : p ∈ d.set key value) : p = (key, value) ∨ p ∈ d := by
  induction d with
  | nil => exact .inl (mem_singleton.mp h)
  | cons first rest ih =>
    obtain ⟨k, v⟩ := first
    unfold Dictionary.set at h
    split at h
    · rename_i heq
      rcases mem_cons.mp h with rfl | h
      · exact .inl (by rw [beq_iff_eq.mp heq])
      · exact .inr (mem_cons_of_mem _ h)
    · rcases mem_cons.mp h with rfl | h
      · exact .inr mem_cons_self
      · exact (ih h).imp_right (mem_cons_of_mem _)

theorem nodup_set (h : (d.map (·.1)).Nodup) : ((d.set key value).map (·.1)).Nodup := by
  induction d with
  | nil => exact nodup_singleton _
  | cons first rest ih =>
    obtain ⟨k, v⟩ := first
    obtain ⟨hnot, hrest⟩ := nodup_cons.mp h
    unfold Dictionary.set
    split
    · exact nodup_cons.mpr ⟨hnot, hrest⟩
    · rename_i hne
      refine nodup_cons.mpr ⟨fun hmem => ?_, ih hrest⟩
      obtain ⟨p, hp, hk⟩ := mem_map.mp hmem
      rcases mem_set hp with rfl | hp
      · exact hne (beq_iff_eq.mpr hk.symm)
      · exact hnot (mem_map.mpr ⟨p, hp, hk⟩)

theorem mem_of_get? (h : get? key d = some value) : (key, value) ∈ d := by
  induction d with
  | nil => cases h
  | cons first rest ih =>
    obtain ⟨k, v⟩ := first
    unfold get? at h
    split at h
    · rename_i heq
      cases h
      rw [beq_iff_eq.mp heq]
      exact mem_cons_self
    · exact mem_cons_of_mem _ (ih h)

theorem get?_erase (key k : α) (d : Dictionary α β) :
    get? k (erase key d) = if key == k then none else get? k d := by
  induction d with
  | nil => simp [erase, get?]
  | cons first rest ih =>
    obtain ⟨k', v⟩ := first
    unfold erase at ih ⊢
    by_cases hkey : k' = key
    · subst hkey
      rw [filter_cons_of_neg (by simp), ih, get?]
      split <;> rfl
    · rw [filter_cons_of_pos (by simpa using hkey), get?, get?, ih]
      by_cases hk : k' = k
      · subst hk
        simp [Ne.symm hkey]
      · simp [hk]

theorem isSome_get? {d : Dictionary α β} : (get? key d).isSome = true ↔ key ∈ d.map (·.1) := by
  induction d with
  | nil => simp [get?]
  | cons p rest ih =>
    obtain ⟨k, v⟩ := p
    by_cases h : k = key
    · simp [get?, h]
    · simp [get?, h, Ne.symm h, ih]

theorem get?_eq_none {d : Dictionary α β} (h : key ∉ d.map (·.1)) : get? key d = none :=
  Option.not_isSome_iff_eq_none.mp (isSome_get?.not.mpr h)

theorem set_of_not_mem {d : Dictionary α β} (h : key ∉ d.map (·.1)) (v : β) :
    set key v d = d ++ [(key, v)] := by
  induction d with
  | nil => rfl
  | cons p rest ih =>
    rw [map_cons, mem_cons, not_or] at h
    unfold set
    rw [if_neg (by simpa using Ne.symm h.1), ih h.2]
    rfl

theorem get?_of_mem {v : β} {d : Dictionary α β} (hnodup : (d.map (·.1)).Nodup) (h : (key, v) ∈ d) :
    get? key d = some v := by
  induction d with
  | nil => cases h
  | cons p rest ih =>
    rw [map_cons, nodup_cons] at hnodup
    unfold get?
    rcases mem_cons.mp h with rfl | h
    · simp
    · have hne : p.1 ≠ key := fun heq => hnodup.1 (heq ▸ mem_map_of_mem h)
      rw [if_neg (by simpa using hne)]
      exact ih hnodup.2 h

variable {pairs more : List (α × β)}

theorem get?_ofPairs (key : α) (pairs : List (α × β)) :
    get? key (ofPairs pairs) = (pairs.reverse.find? (·.1 == key)).map (·.2) := by
  induction pairs using reverseRecOn with
  | nil => rfl
  | append_singleton pairs p ih =>
    have hset : ofPairs (pairs ++ [p]) = (ofPairs pairs).set p.1 p.2 := foldl_append
    rw [hset, get?_set, ih, reverse_append, reverse_singleton, singleton_append, find?_cons]
    cases p.1 == key <;> rfl

theorem mem_of_get?_ofPairs (h : get? key (ofPairs pairs) = some value) : (key, value) ∈ pairs := by
  rw [get?_ofPairs] at h
  obtain ⟨p, hp, rfl⟩ := Option.map_eq_some_iff.mp h
  obtain rfl : p.1 = key := eq_of_beq (find?_some hp :)
  exact mem_reverse.mp (mem_of_find?_eq_some hp)

theorem exists_get?_ofPairs (h : key ∈ pairs.map (·.1)) : ∃ v, get? key (ofPairs pairs) = some v := by
  obtain ⟨p, hp, rfl⟩ := mem_map.mp h
  have hfound : (pairs.reverse.find? (·.1 == p.1)).isSome = true :=
    find?_isSome.mpr ⟨p, mem_reverse.mpr hp, beq_self_eq_true _⟩
  rw [get?_ofPairs]
  exact Option.isSome_iff_exists.mp (Option.isSome_map.trans hfound)

theorem get?_ofPairs_append (h : key ∉ more.map (·.1)) :
    get? key (ofPairs (pairs ++ more)) = get? key (ofPairs pairs) := by
  have hnone : more.reverse.find? (·.1 == key) = none :=
    find?_eq_none.mpr fun p hp hkey => h (eq_of_beq hkey ▸ mem_map_of_mem (mem_reverse.mp hp))
  rw [get?_ofPairs, get?_ofPairs, reverse_append, find?_append, hnone, Option.none_or]

theorem get?_ofPairs_of_mem (hkeys : (pairs.map (·.1)).Nodup) (h : (key, value) ∈ pairs) :
    get? key (ofPairs pairs) = some value := by
  obtain ⟨before, after, rfl⟩ := append_of_mem h
  rw [map_append, map_cons] at hkeys
  rw [append_cons, get?_ofPairs_append (nodup_cons.mp (nodup_append.mp hkeys).2.1).1, get?_ofPairs]
  simp

end Dictionary

/-! ## Dictionaries of values -/

/-- Whether no key of a dictionary is there twice. -/
def DistinctKeys (entries : List (Value × Value)) : Prop :=
  entries.Pairwise fun a b => Value.sameKey a.1 b.1 = false

namespace Value

theorem sameKey_of_not_self {k : Value} (h : sameKey k k = false) (x : Value) :
    sameKey x k = false := by
  cases k with
  | null | nan | text _ | bytes _ => simp [sameKey] at h
  | bool _ | int _ | enum _ _ => simp [sameKey, asInt] at h
  | float d =>
    have hnan : d.isNaN = true := by
      simpa [sameKey, Double.equal] using h
    cases x <;> simp [sameKey, asInt, Double.equal, Double.equalInt, hnan]
  | _ => cases x <;> simp [sameKey, asInt]

theorem valueOf?_eq_of_mem (hd : DistinctKeys entries) {e : Value × Value} (he : e ∈ entries)
    {w : Value} (hw : valueOf? e.1 entries = some w) : w = e.2 := by
  induction entries with
  | nil => cases he
  | cons first rest ih =>
    obtain ⟨hfirst, hrest⟩ := pairwise_cons.mp hd
    rw [valueOf?] at hw
    rcases mem_cons.mp he with rfl | he
    · by_cases hself : sameKey e.1 e.1 = true
      · rw [if_pos hself] at hw
        cases hw
        rfl
      · rw [if_neg hself] at hw
        have hnone : ∀ others : List (Value × Value), valueOf? e.1 others = none := by
          intro others
          induction others with
          | nil => rfl
          | cons other others ih =>
            rw [valueOf?, sameKey_of_not_self (by simpa using hself)]
            exact ih
        rw [hnone] at hw
        cases hw
    · have hne := hfirst e he
      rw [hne] at hw
      exact ih hrest he hw

theorem valueOf?_of_part {key part : Value} (h : (Value.map entries).part key = .ok part) :
    valueOf? key entries = some part := by
  simp only [Value.part] at h
  split at h
  · cases h
  · split at h
    · cases h
      assumption
    · cases h

theorem asInt_of_position {length : Nat} {key : Value} (h : position length key = .ok i) :
    ∃ n, key.asInt = .ok n := by
  obtain ⟨n, hn, _⟩ := bind_eq_ok.mp h
  exact ⟨n, hn⟩

theorem mem_of_getD {items : List Value} {raw : Bytes} (h : items.getD i .null = .bytes raw) :
    .bytes raw ∈ items := by
  rw [getD_eq_getElem?_getD] at h
  rcases Option.getD_eq_iff.mp h with h | ⟨_, h⟩
  · exact mem_of_getElem? h
  · cases h

end Value

end Protobind
