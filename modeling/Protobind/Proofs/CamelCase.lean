import Mathlib.Data.List.Chain
import Protobind.Name.Camel

/-!
# CamelCase is a normal form

What comes out of CamelCasing has no lower-case letter in front, behind a digit or behind an
underscore, and no underscore in front. CamelCasing leaves names of this shape alone.
-/

namespace Protobind.Name

open List

variable {c : Char} {cs : List Char} {inWord : Bool}

/-- Whether no lower-case letter stands right behind an underscore or a digit. -/
def Joined (cs : List Char) : Prop :=
  cs.IsChain fun c d => isLower d = true → c ≠ '_' ∧ c.isDigit = false

theorem joined_cons : Joined (c :: cs) ↔
    (startsLower cs = true → c ≠ '_' ∧ c.isDigit = false) ∧ Joined cs := by
  unfold Joined
  cases cs with
  | nil => simp [startsLower]
  | cons d cs => exact isChain_cons_cons

theorem letters_of_isLower (h : isLower c = true) : (c ≠ '_' ∧ c.isDigit = false) ∧
    isLower c.toUpper = false ∧ c.toUpper ≠ '_' ∧ c.toUpper.isDigit = false := by
  have hall : ∀ n < 128, isLower (.ofNat n) = true →
      (Char.ofNat n ≠ '_' ∧ (Char.ofNat n).isDigit = false) ∧ isLower (Char.ofNat n).toUpper = false ∧
        (Char.ofNat n).toUpper ≠ '_' ∧ (Char.ofNat n).toUpper.isDigit = false := by
    decide
  have hle : c ≤ 'z' := of_decide_eq_true (Bool.and_eq_true_iff.mp h).2
  have hlt : c.toNat < 128 := Nat.lt_of_le_of_lt (UInt32.le_iff_toNat_le.mp hle) (by decide)
  have hc := hall c.toNat hlt
  rw [Char.ofNat_toNat] at hc
  exact hc h

/-! ## What CamelCasing gives -/

theorem startsLower_camelFrom (inWord : Bool) (cs : List Char) :
    startsLower (camelFrom inWord cs) = (inWord && startsLower cs) := by
  fun_induction camelFrom inWord cs with
  | case1 => simp [startsLower]
  | case2 inWord c cs hc _ =>
    cases inWord with
    | true => rfl
    | false => simpa [startsLower] using (letters_of_isLower hc).2.1
  | case3 inWord c cs hc _ ih => simpa [startsLower, hc] using ih
  | case4 inWord c cs hc _ _ => simp [startsLower, hc]

theorem joined_camelFrom (inWord : Bool) (cs : List Char) : Joined (camelFrom inWord cs) := by
  fun_induction camelFrom inWord cs with
  | case1 => exact .nil
  | case2 inWord c cs hc ih =>
    refine joined_cons.mpr ⟨fun _ => ?_, ih⟩
    split
    · exact (letters_of_isLower hc).1
    · exact (letters_of_isLower hc).2.2
  | case3 inWord c cs _ _ ih => exact ih
  | case4 inWord c cs _ hkept ih =>
    refine joined_cons.mpr ⟨fun hnext => ?_, ih⟩
    rw [startsLower_camelFrom, Bool.and_eq_true, Bool.not_eq_true'] at hnext
    exact ⟨fun h => hkept (by simp [h, hnext.2]), hnext.1⟩

theorem joined_camelChars (cs : List Char) : Joined (camelChars cs) := by
  unfold camelChars
  split
  · exact joined_cons.mpr ⟨fun _ => by decide, joined_camelFrom _ _⟩
  · exact joined_camelFrom _ _

theorem startsLower_camelChars (cs : List Char) : startsLower (camelChars cs) = false := by
  unfold camelChars
  split
  · rfl
  · exact startsLower_camelFrom false cs

theorem head?_camelChars (cs : List Char) : (camelChars cs).head? ≠ some '_' := by
  unfold camelChars
  split
  · simp
  · rename_i hcs
    cases cs with
    | nil => simp [camelFrom]
    | cons c cs =>
      have hne : c ≠ '_' := fun h => hcs cs (by rw [h])
      by_cases hc : isLower c = true
      · simpa [camelFrom, hc] using (letters_of_isLower hc).2.2.1
      · simp [camelFrom, hc, hne]

/-! ## What CamelCasing leaves alone -/

theorem camelFrom_eq_self (h : Joined cs) (hstart : startsLower cs = true → inWord = true) :
    camelFrom inWord cs = cs := by
  induction cs generalizing inWord with
  | nil => rfl
  | cons c cs ih =>
    obtain ⟨hc, hcs⟩ := joined_cons.mp h
    unfold camelFrom
    split
    · rename_i hlower
      rw [hstart hlower, if_pos rfl, ih hcs fun _ => rfl]
    · split
      · rename_i hdropped
        obtain ⟨hunder, hnext⟩ := Bool.and_eq_true_iff.mp hdropped
        exact absurd (of_decide_eq_true hunder) (hc hnext).1
      · rw [ih hcs fun hnext => by rw [(hc hnext).2]; rfl]

theorem camelChars_eq_self (h : Joined cs) (hstart : startsLower cs = false)
    (hhead : cs.head? ≠ some '_') : camelChars cs = cs := by
  unfold camelChars
  split
  · exact absurd rfl hhead
  · exact camelFrom_eq_self h fun hlower => by rw [hstart] at hlower; cases hlower

/-- CamelCasing gives no lower-case letter right behind an underscore or a digit, and neither an
underscore nor a lower-case letter in front; and it leaves alone what it gives. -/
theorem camel_normal (name : String) :
    (camel name).toList.IsChain (fun c d => isLower d = true → c ≠ '_' ∧ c.isDigit = false) ∧
      (∀ c, (camel name).toList.head? = some c → c ≠ '_' ∧ isLower c = false) ∧
      camel (camel name) = camel name := by
  have hjoined := joined_camelChars name.toList
  have hstart := startsLower_camelChars name.toList
  have hhead := head?_camelChars name.toList
  simp only [camel, String.toList_ofList]
  refine ⟨hjoined, fun c hc => ⟨?_, ?_⟩, congrArg _ (camelChars_eq_self hjoined hstart hhead)⟩
  · rintro rfl
    exact hhead hc
  · obtain ⟨cs, hcs⟩ := head?_eq_some_iff.mp hc
    rwa [hcs] at hstart

end Protobind.Name
