import Mathlib.Data.List.ProdSigma
import Protobind.Proofs.PackageNames

/-!
# Batches of names

The names of a batch get the same number of underscores behind them, the least for which none of
them is set aside or was handed out before (`Allocator.allocate_eq`). So all names that are ever
handed out differ.
-/

namespace Protobind.Name

open List

variable {a : Allocator} {batch : List String} {k : Nat}

namespace Allocator

theorem isUsed_iff {name : String} : a.isUsed name = true ↔ name ∈ a.used := contains_iff_mem

theorem isFree_iff : a.isFree batch k = true ↔ ∀ name ∈ batch, underscored name k ∉ a.used := by
  simp [isFree, ← isUsed_iff]

theorem isFree_eq_false : a.isFree batch k = false ↔ ∃ name ∈ batch, underscored name k ∈ a.used := by
  simp [← Bool.not_eq_true, isFree_iff]

theorem isFree_leastBelow (a : Allocator) (batch : List String) :
    a.isFree batch (leastBelow (a.used.length * batch.length) (a.isFree batch)) = true := by
  -- a number that is not free is blocked by a used name together with a name of the batch
  rw [← length_product]
  refine free_leastBelow (a.used ×ˢ batch) _ (fun p k => underscored p.2 k = p.1) (fun k hk => ?_)
    fun p i j hi hj => underscored_injective p.2 (hi.trans hj.symm)
  obtain ⟨name, hname, hused⟩ := isFree_eq_false.mp hk
  exact ⟨(underscored name k, name), mem_product.mpr ⟨hused, hname⟩, rfl⟩

theorem underscored_left_injective (k : Nat) : Function.Injective (underscored · k) :=
  fun _ _ h => (String.append_left_inj _).mp h

theorem allocate_eq (a : Allocator) (h : batch.Nodup) : ∃ k,
    a.allocate batch =
        .ok (batch.map (underscored · k), ⟨a.used ++ batch.map (underscored · k)⟩) ∧
      (∀ name ∈ batch, underscored name k ∉ a.used) ∧
      ∀ j < k, ∃ name ∈ batch, underscored name j ∈ a.used := by
  refine ⟨_, if_pos h, isFree_iff.mp (isFree_leastBelow a batch), fun j hj => ?_⟩
  exact isFree_eq_false.mp (taken_of_lt_leastBelow hj)

theorem allocate_eq_error (a : Allocator) (h : ¬ batch.Nodup) : a.allocate batch = .error ⟨batch⟩ :=
  if_neg h

/-- The allocator after batches that were asked for one after another, and all names that it has
handed out for them. A batch that is refused leaves the allocator as it is. -/
def serve (a : Allocator) : List (List String) → Allocator × List String
  | [] => (a, [])
  | batch :: batches =>
    match a.allocate batch with
    | .ok (names, a') => ((serve a' batches).1, names ++ (serve a' batches).2)
    | .error _ => serve a batches

theorem serve_concat (a : Allocator) (history : List (List String)) (batch : List String) :
    a.serve (history ++ [batch]) =
      match (a.serve history).1.allocate batch with
      | .ok (names, a') => (a', (a.serve history).2 ++ names)
      | .error _ => a.serve history := by
  induction history generalizing a with
  | nil =>
    simp only [nil_append, serve]
    cases a.allocate batch <;> simp
  | cons first rest ih =>
    rw [cons_append, serve, serve]
    cases a.allocate first with
    | error e => exact ih a
    | ok p =>
      simp only [ih]
      cases (p.2.serve rest).1.allocate batch <;> simp

theorem serve_apart (a : Allocator) (history : List (List String)) :
    (a.serve history).1.used = a.used ++ (a.serve history).2 ∧
      (a.serve history).2.Nodup ∧ ∀ name ∈ (a.serve history).2, name ∉ a.used := by
  induction history using reverseRecOn with
  | nil => simp [serve]
  | append_singleton history batch ih =>
    rw [serve_concat]
    by_cases h : batch.Nodup
    · obtain ⟨k, hk, hfree, _⟩ := allocate_eq (a.serve history).1 h
      obtain ⟨hused, hnodup, hnew⟩ := ih
      rw [hused, ← forall_mem_map (P := (· ∉ a.used ++ (a.serve history).2))] at hfree
      simp only [hk, hused]
      refine ⟨append_assoc _ _ _, nodup_append'.mpr ⟨hnodup, h.map (underscored_left_injective k), ?_⟩,
        forall_mem_append.mpr ⟨hnew, fun name hname => ?_⟩⟩
      · exact fun name hold hname => hfree name hname (mem_append_right _ hold)
      · exact fun hold => hfree name hname (mem_append_left _ hold)
    · rw [allocate_eq_error _ h]
      exact ih

/-- Whatever batches were asked for before, an allocator answers a batch of distinct names with the
least number of underscores that makes each of them differ from the reserved names and from all names
handed out. These differ from each other and from the reserved ones, and they are the other names in
use. A batch with a name in it twice is refused and changes nothing. -/
theorem batches_apart (reserved : List String) (history : List (List String)) :
    ∃ a names, serve ⟨reserved⟩ history = (a, names) ∧ names.Nodup ∧
      (∀ name ∈ names, name ∉ reserved) ∧
      (∀ name, a.isUsed name = true ↔ name ∈ reserved ∨ name ∈ names) ∧
      ∀ batch : List String,
        (batch.Nodup → ∃ k a', a.allocate batch = .ok (batch.map (underscored · k), a') ∧
          serve ⟨reserved⟩ (history ++ [batch]) = (a', names ++ batch.map (underscored · k)) ∧
          (∀ name ∈ batch, underscored name k ∉ reserved ∧ underscored name k ∉ names) ∧
          ∀ j < k, ∃ name ∈ batch, underscored name j ∈ reserved ∨ underscored name j ∈ names) ∧
        (¬ batch.Nodup → a.allocate batch = .error ⟨batch⟩ ∧
          serve ⟨reserved⟩ (history ++ [batch]) = (a, names)) := by
  obtain ⟨hused, hnodup, hnew⟩ := serve_apart ⟨reserved⟩ history
  have hmem (name : String) : name ∈ (serve ⟨reserved⟩ history).1.used ↔
      name ∈ reserved ∨ name ∈ (serve ⟨reserved⟩ history).2 := by
    rw [hused, mem_append]
  refine ⟨_, _, rfl, hnodup, hnew, fun name => isUsed_iff.trans (hmem name), fun batch =>
    ⟨fun h => ?_, fun h => ⟨allocate_eq_error _ h, ?_⟩⟩⟩
  · obtain ⟨k, hk, hfree, hleast⟩ := allocate_eq (serve ⟨reserved⟩ history).1 h
    simp only [hmem, not_or] at hfree hleast
    refine ⟨k, _, hk, ?_, hfree, hleast⟩
    rw [serve_concat, hk]
  · rw [serve_concat, allocate_eq_error _ h]

end Allocator

end Protobind.Name
