import Mathlib.Data.List.TakeDrop
import Mathlib.Data.List.TakeWhile
import Protobind.Number.Reading

/-!
# Cutting and reading texts

A text that was joined from parts falls into the pieces of its parts again when it is cut at the
separator. A number that was written in digits is read back.
-/

namespace Protobind

variable {as cs : List Char} {n : Int}

namespace Text

/-! ## Cutting at separators -/

section

variable {sep : Char}

theorem splitOn_eq (cs : List Char) : splitOn sep cs = List.splitOn sep cs := by
  induction cs with
  | nil => rfl
  | cons c cs ih =>
    rw [splitOn, ih, List.splitOn_cons_eq_if_modifyHead]
    simp only [beq_iff_eq]
    split
    · rfl
    · cases h : List.splitOn sep cs with
      | nil => exact absurd h (List.splitOn_ne_nil sep cs)
      | cons piece pieces => rfl

theorem splitOn_ne_nil (cs : List Char) : splitOn sep cs ≠ [] := by
  rw [splitOn_eq]
  exact List.splitOn_ne_nil sep cs

theorem splitOn_of_not_mem (h : sep ∉ cs) : splitOn sep cs = [cs] := by
  rw [splitOn_eq, List.splitOn_eq_singleton h]

/-- What stands in front of a text and has no separator becomes part of the first piece. -/
theorem splitOn_append_of_not_mem (h : sep ∉ as) (cs : List Char) :
    splitOn sep (as ++ cs) = (splitOn sep cs).modifyHead (as ++ ·) := by
  simp only [splitOn_eq]
  induction as with
  | nil => rw [show (([] : List Char) ++ ·) = id from rfl, List.modifyHead_id]; rfl
  | cons a as ih =>
    rw [List.mem_cons, not_or] at h
    have hne : ¬(a == sep) = true := fun heq => h.1 (eq_of_beq heq).symm
    rw [List.cons_append, List.splitOn_cons_eq_if_modifyHead, if_neg hne, ih h.2,
      List.modifyHead_modifyHead]
    rfl

/-- A text that was joined from parts falls into the pieces of its parts. -/
theorem splitOn_intercalate : ∀ {parts : List (List Char)}, parts ≠ [] →
    splitOn sep (List.intercalate [sep] parts) = parts.flatMap (splitOn sep)
  | [], h => absurd rfl h
  | [part], _ => by rw [List.intercalate_singleton, List.flatMap_singleton]
  | part :: next :: parts, _ => by
    have hnext := splitOn_intercalate (List.cons_ne_nil next parts)
    rw [splitOn_eq] at hnext
    rw [List.intercalate_cons_cons, List.append_assoc, List.singleton_append, splitOn_eq,
      List.splitOn_append_cons_self, hnext, ← splitOn_eq, ← List.flatMap_cons]

theorem intercalate_splitOn (cs : List Char) : List.intercalate [sep] (splitOn sep cs) = cs := by
  rw [splitOn_eq, List.intercalate_splitOn]

theorem sublist_of_mem_splitOn {piece : List Char} (h : piece ∈ splitOn sep cs) : piece.Sublist cs := by
  induction cs generalizing piece with
  | nil => exact List.mem_singleton.mp h ▸ .refl _
  | cons c cs ih =>
    rw [splitOn] at h
    split at h
    · rcases List.mem_cons.mp h with rfl | h
      · exact List.nil_sublist _
      · exact (ih h).cons c
    · split at h
      next hnil => exact absurd hnil (splitOn_ne_nil cs)
      next first rest hcut =>
        rw [hcut] at ih
        rcases List.mem_cons.mp h with rfl | h
        · exact (ih List.mem_cons_self).cons_cons c
        · exact (ih (List.mem_cons_of_mem _ h)).cons c

theorem cutAt?_append (h : sep ∉ as) (bs : List Char) :
    cutAt? sep (as ++ sep :: bs) = some (as, bs) := by
  induction as with
  | nil => exact if_pos rfl
  | cons a as ih =>
    rw [List.mem_cons, not_or] at h
    rw [List.cons_append, cutAt?, if_neg (Ne.symm h.1), ih h.2]
    rfl

theorem eq_of_cutAt? {left right : List Char} (h : cutAt? sep cs = some (left, right)) :
    cs = left ++ sep :: right := by
  induction cs generalizing left with
  | nil => cases h
  | cons c cs ih =>
    rw [cutAt?] at h
    split at h
    next hc =>
      cases h
      rw [hc, List.nil_append]
    next =>
      obtain ⟨⟨l, r⟩, hcut, heq⟩ := Option.map_eq_some_iff.mp h
      cases heq
      rw [ih hcut, List.cons_append]

end

end Text

/-! ## Integers -/

namespace Numeral

theorem forall_digit {P : Char → Prop} (h : ∀ n < 10, P (Char.ofNat (48 + n))) {c : Char}
    (hc : c.isDigit = true) : P c := by
  have hbounds : 48 ≤ c.toNat ∧ c.toNat ≤ 57 := by
    simpa [Char.isDigit, UInt32.le_iff_toNat_le] using hc
  have hc := h (c.toNat - 48) (by omega)
  rwa [Nat.add_sub_cancel' hbounds.1, Char.ofNat_toNat] at hc

/-- What readers of numbers see in a digit. -/
theorem reads_digit {c : Char} : c.isDigit = true →
    isMargin c = false ∧ Text.decimalValue? c = some (c.toNat - 48) ∧
      Nat.digitChar (c.toNat - 48) = c ∧ c ≠ '_' ∧ c ≠ '-' ∧ c ≠ '+' :=
  forall_digit (P := fun c => isMargin c = false ∧ Text.decimalValue? c = some (c.toNat - 48) ∧
    Nat.digitChar (c.toNat - 48) = c ∧ c ≠ '_' ∧ c ≠ '-' ∧ c ≠ '+') (by decide)

theorem asciiDigits_of_digits (h : ∀ c ∈ cs, c.isDigit = true) : asciiDigits cs = cs := by
  unfold asciiDigits
  conv_rhs => rw [← List.map_id cs]
  refine List.map_congr_left fun c hc => ?_
  obtain ⟨_, hvalue, hsame, _⟩ := reads_digit (h c hc)
  rw [hvalue]
  exact hsame

theorem dropUnderscores?_of_digits (h : ∀ c ∈ cs, c.isDigit = true) (afterDigit : Bool) :
    dropUnderscores? afterDigit cs = some cs := by
  induction cs generalizing afterDigit with
  | nil => rfl
  | cons c cs ih =>
    obtain ⟨_, _, _, hne, _⟩ := reads_digit (h c List.mem_cons_self)
    rw [dropUnderscores?, ih fun d hd => h d (List.mem_cons_of_mem _ hd)]
    · rfl
    · exact hne

theorem cutSign_of_digits (h : ∀ c ∈ cs, c.isDigit = true) : cutSign cs = (false, cs) := by
  unfold cutSign
  split
  · exact absurd (h _ List.mem_cons_self) (by decide)
  · exact absurd (h _ List.mem_cons_self) (by decide)
  · rfl

theorem digitsValue?_toDigits (n : Nat) : digitsValue? (Nat.toDigits 10 n) = some n := by
  have hall : (Nat.toDigits 10 n).all Char.isDigit = true :=
    List.all_eq_true.mpr fun c hc => Nat.isDigit_of_mem_toDigits (by decide) (by decide) hc
  have hne : (Nat.toDigits 10 n).isEmpty = false := by
    rw [List.isEmpty_eq_false_iff]
    exact Nat.toDigits_ne_nil
  unfold digitsValue?
  rw [hall, hne, if_neg (by decide)]
  exact congrArg some Nat.ofDigitChars_ten_toDigits

theorem trim_eq_self (h : ∀ c ∈ cs, isMargin c = false) : trim cs = cs := by
  have hdrop {ds : List Char} (hds : ∀ c ∈ ds, isMargin c = false) :
      ds.dropWhile isMargin = ds := by
    cases ds with
    | nil => rfl
    | cons d ds => rw [List.dropWhile_cons_of_neg (by rw [hds d List.mem_cons_self]; decide)]
  unfold trim Text.dropEndWhile
  rw [hdrop h, hdrop fun c hc => h c (List.mem_reverse.mp hc), List.reverse_reverse]

end Numeral

/-- The digits of a number are read back, unless there are too many of them. -/
theorem readInteger_toString (h : (Nat.toDigits 10 n.natAbs).length ≤ IntegerError.maxDigits) :
    readInteger (toString n) = .ok n := by
  have hdigits : ∀ c ∈ Nat.toDigits 10 n.natAbs, c.isDigit = true := fun c hc =>
    Nat.isDigit_of_mem_toDigits (by decide) (by decide) hc
  -- Behind the sign stand digits only.
  have hread (negative : Bool) (cs : List Char)
      (hsign : Numeral.cutSign (Numeral.asciiDigits (Numeral.trim cs)) =
        (negative, Nat.toDigits 10 n.natAbs)) :
      readInteger (String.ofList cs) = .ok (if negative then -(n.natAbs : Int) else n.natAbs) := by
    have hspan : (Nat.toDigits 10 n.natAbs).span (fun c => c.isDigit || c == '_') =
        (Nat.toDigits 10 n.natAbs, []) := by
      have hall : ∀ c ∈ Nat.toDigits 10 n.natAbs, (c.isDigit || c == '_') = true := fun c hc => by
        rw [hdigits c hc]
        rfl
      rw [List.span_eq_takeWhile_dropWhile, List.takeWhile_eq_self_iff.mpr hall,
        List.dropWhile_eq_nil_iff.mpr hall]
    unfold readInteger
    rw [String.toList_ofList, hsign]
    simp only [hspan, Numeral.dropUnderscores?_of_digits hdigits, if_neg (Nat.not_lt.mpr h),
      List.append_nil, Numeral.digitsValue?_toDigits]
  have hmargin : ∀ c ∈ Nat.toDigits 10 n.natAbs, Numeral.isMargin c = false := fun c hc =>
    (Numeral.reads_digit (hdigits c hc)).1
  rw [Int.toString_eq_repr, Int.repr_eq_if]
  by_cases hsign : 0 ≤ n
  · have hnat : n.toNat = n.natAbs := by omega
    rw [if_pos hsign, Nat.repr_eq_ofList_toDigits, hnat, hread false]
    · exact congrArg Except.ok (Int.natAbs_of_nonneg hsign)
    · rw [Numeral.trim_eq_self hmargin, Numeral.asciiDigits_of_digits hdigits,
        Numeral.cutSign_of_digits hdigits]
  · have hnat : (-n).toNat = n.natAbs := by omega
    rw [if_neg hsign, Nat.repr_eq_ofList_toDigits, hnat, ← String.ofList_append, hread true]
    · refine congrArg Except.ok ?_
      show -(n.natAbs : Int) = n
      omega
    · have hall : ∀ c ∈ '-' :: Nat.toDigits 10 n.natAbs, Numeral.isMargin c = false := by
        intro c hc
        rcases List.mem_cons.mp hc with rfl | hc
        · decide
        · exact hmargin c hc
      rw [List.singleton_append, Numeral.trim_eq_self hall]
      show Numeral.cutSign ('-' :: Numeral.asciiDigits _) = _
      rw [Numeral.asciiDigits_of_digits hdigits]
      rfl

theorem readInteger_of_int32 (h : -2147483648 ≤ n ∧ n ≤ 2147483647) :
    readInteger (toString n) = .ok n := by
  refine readInteger_toString (Nat.le_trans (m := 10) ?_ (by decide))
  rw [Nat.length_toDigits_le_iff (by decide) (by decide)]
  omega

end Protobind
