import Mathlib.Data.List.Forall2
import Protobind.Text.Escape

/-!
# Reading escaped bytes back

Each byte may be written in several ways (`Spells`). Reading gives the bytes back however they are
written, also as they are written for display.
-/

namespace Protobind.Text

open List

/-- The characters that stand for a byte behind a backslash. -/
def simpleEscapes : List (Char × UInt8) :=
  [('a', 7), ('b', 8), ('t', 9), ('n', 10), ('v', 11), ('f', 12), ('r', 13), ('\x22', 34),
   ('\x27', 39), ('?', 63), ('\\', 92)]

/-- The ways to write a byte: by the character that stands for it behind a backslash, by three octal
digits, by two hexadecimal digits of either case, or as it is where it can be printed. -/
inductive Spells (b : UInt8) : List Char → Prop
  | simple {c : Char} (h : (c, b) ∈ simpleEscapes) : Spells b ['\\', c]
  | octal {i j k : Nat} (hi : i < 8) (hj : j < 8) (hk : k < 8) (h : 64 * i + 8 * j + k = b.toNat) :
    Spells b ['\\', i.digitChar, j.digitChar, k.digitChar]
  | hexadecimal {mark high low : Char} {i j : Nat} (hmark : mark = 'x' ∨ mark = 'X') (hi : i < 16)
    (hj : j < 16) (hhigh : high ∈ [i.digitChar, i.digitChar.toUpper])
    (hlow : low ∈ [j.digitChar, j.digitChar.toUpper]) (h : 16 * i + j = b.toNat) :
    Spells b ['\\', mark, high, low]
  | plain {c : Char} (hrange : 32 ≤ c.toNat ∧ c.toNat < 127) (hne : c ≠ '\\')
    (h : c.toNat = b.toNat) : Spells b [c]

variable {b : UInt8} {bs : Bytes} {c : Char} {cs text : List Char} {texts : List (List Char)}
  {i j k fuel : Nat}

/-! ## Digits and characters -/

theorem octalValue?_digitChar : ∀ i < 8, octalValue? i.digitChar = some i := by decide

/-- An octal digit is neither a character that stands for a byte nor the mark of hexadecimal
digits. -/
theorem digitChar_octal : ∀ i < 8,
    simpleEscape? i.digitChar = none ∧ i.digitChar ≠ 'x' ∧ i.digitChar ≠ 'X' := by decide

theorem hexValue?_digitChar (hi : i < 16) (hc : c ∈ [i.digitChar, i.digitChar.toUpper]) :
    hexValue? c = some i := by
  have hall : ∀ i < 16, hexValue? i.digitChar = some i ∧ hexValue? i.digitChar.toUpper = some i := by
    decide
  rcases mem_pair.mp hc with rfl | rfl
  · exact (hall i hi).1
  · exact (hall i hi).2

theorem simpleEscape?_eq : ∀ p ∈ simpleEscapes, simpleEscape? p.1 = some p.2 := by decide

theorem toNat_ofNat_printable : ∀ n < 127, (Char.ofNat n).toNat = n := by decide

theorem charBytes_ascii (hc : c.toNat < 128) (h : c.toNat = b.toNat) : charBytes [c] = [b] := by
  have hone : c.utf8Size = 1 := by
    rw [Char.utf8Size_eq_one_iff, UInt32.le_iff_toNat_le]
    exact Nat.le_of_lt_succ hc
  have hb : c.val.toUInt8 = b := by
    rw [← UInt8.toNat_inj, UInt32.toNat_toUInt8]
    exact (Nat.mod_eq_of_lt (Nat.lt_trans hc (by decide))).trans h
  unfold charBytes Bytes.ofText
  rw [String.toUTF8_eq_toByteArray, String.toByteArray_ofList, utf8Encode_singleton,
    String.utf8EncodeChar_eq_singleton hone, hb]
  simp

/-! ## One byte -/

theorem readEscape_octal (hi : i < 8) (hj : j < 8) (hk : k < 8) (h : 64 * i + 8 * j + k = b.toNat)
    (cs : List Char) :
    readEscape i.digitChar (j.digitChar :: k.digitChar :: cs) = ([b], 3) := by
  obtain ⟨hsimple, hx, hX⟩ := digitChar_octal i hi
  have hi := octalValue?_digitChar i hi
  have hj := octalValue?_digitChar j hj
  have hk := octalValue?_digitChar k hk
  have hrun : octalRun 3 (i.digitChar :: j.digitChar :: k.digitChar :: cs) =
      [i.digitChar, j.digitChar, k.digitChar] := by
    simp [octalRun, takeWhile, hi, hj, hk]
  have hvalue : octalNumber [i.digitChar, j.digitChar, k.digitChar] = b.toNat := by
    simp only [octalNumber, foldl_cons, foldl_nil, hi, hj, hk, Option.getD_some]
    omega
  have hle : b.toNat ≤ 255 := Nat.le_of_lt_succ b.toNat_lt
  simp only [readEscape, hsimple, hx, hX, hi, hrun, hvalue, hle]
  simp

theorem readEscape_hexadecimal (hc : c = 'x' ∨ c = 'X') {high low : Char} (hi : hexValue? high = some i)
    (hj : hexValue? low = some j) (h : 16 * i + j = b.toNat) (cs : List Char) :
    readEscape c (high :: low :: cs) = ([b], 3) := by
  have hsimple : simpleEscape? c = none := by rcases hc with rfl | rfl <;> rfl
  simp only [readEscape, hsimple, hc, decide_eq_true_eq, Bool.or_eq_true, if_true, hi, hj, h]
  simp

theorem unescapeChars_of_spells (h : Spells b text) (cs : List Char) :
    unescapeChars (fuel + 1) (text ++ cs) = b :: unescapeChars fuel cs := by
  cases h with
  | @simple c h =>
    have hread : readEscape c cs = ([b], 1) := by
      unfold readEscape
      rw [simpleEscape?_eq _ h]
    simp only [cons_append, nil_append, unescapeChars, hread, drop_succ_cons, drop_zero]
  | octal hi hj hk h =>
    simp only [cons_append, nil_append, unescapeChars, readEscape_octal hi hj hk h, drop_succ_cons,
      drop_zero]
  | hexadecimal hmark hi hj hhigh hlow h =>
    simp only [cons_append, nil_append, unescapeChars, drop_succ_cons, drop_zero,
      readEscape_hexadecimal hmark (hexValue?_digitChar hi hhigh)
        (hexValue?_digitChar hj hlow) h]
  | plain hrange hne h =>
    rw [singleton_append, unescapeChars, charBytes_ascii (Nat.lt_trans hrange.2 (by decide)) h]
    · rfl
    · exact fun heq _ => hne heq
    · exact fun _ _ heq _ => hne heq

/-- Bytes for display are written in one of the ways to write a byte. -/
theorem spells_escapeByte (b : UInt8) : Spells b (escapeByte b) := by
  have hb := b.toNat_lt
  have hsame : UInt8.ofNat b.toNat = b := UInt8.ofNat_toNat
  simp only [escapeByte, Bool.or_eq_true, Bool.and_eq_true, decide_eq_true_eq]
  split
  · rename_i hquote
    rw [← hsame]
    refine .simple ?_
    rcases hquote with hn | hn <;> rw [hn] <;> decide
  split
  · rename_i hn
    rw [← hsame, hn]
    exact .simple (by decide)
  split
  · rename_i hquote _ hrange
    have hchar := toNat_ofNat_printable b.toNat hrange.2
    refine .plain (by omega) (fun heq => hquote (.inr ?_)) hchar
    rw [← hchar, heq]
    rfl
  · exact .octal (by omega) (by omega) (by omega) (by omega)

/-! ## Byte strings -/

theorem unescapeChars_flatten (h : Forall₂ Spells bs texts)
    (hfuel : texts.flatten.length ≤ fuel) : unescapeChars fuel texts.flatten = bs := by
  induction h generalizing fuel with
  | nil => cases fuel <;> rfl
  | @cons b text bs texts hspells _ ih =>
    rw [flatten_cons, length_append] at hfuel
    have hpos : 0 < text.length := by cases hspells <;> exact Nat.succ_pos _
    obtain ⟨fuel, rfl⟩ := Nat.exists_eq_add_one_of_ne_zero (n := fuel) (by omega)
    rw [flatten_cons, unescapeChars_of_spells hspells, ih (by omega)]

/-- Bytes are read back however each of them is written, and so are bytes for display behind their
quotation marks: different bytes look different. -/
theorem unescape_spelled :
    (∀ bs texts, Forall₂ Spells bs texts → unescape (String.ofList texts.flatten) = bs) ∧
      (∀ bs, unescape (String.ofList (displayBytes bs).toList.tail.dropLast) = bs) ∧
      Function.Injective displayBytes := by
  have hread (bs : Bytes) (texts : List (List Char)) (h : Forall₂ Spells bs texts) :
      unescape (String.ofList texts.flatten) = bs := by
    unfold unescape
    rw [String.toList_ofList]
    exact unescapeChars_flatten h (Nat.le_refl _)
  have hdisplay (bs : Bytes) :
      unescape (String.ofList (displayBytes bs).toList.tail.dropLast) = bs := by
    have hinner : (displayBytes bs).toList.tail.dropLast = (bs.map escapeByte).flatten := by
      simp [displayBytes, escapeOctal, flatMap]
    rw [hinner]
    exact hread bs _ (forall₂_map_right_iff.mpr (forall₂_same.mpr fun b _ => spells_escapeByte b))
  refine ⟨hread, hdisplay, fun bs bs' heq => ?_⟩
  rw [← hdisplay bs, heq, hdisplay]

theorem unescape_spelled_mixed :
    Forall₂ Spells [10, 49, 255, 34]
        [['\\', '0', '1', '2'], ['1'], ['\\', 'X', 'f', 'F'], ['\\', '\x22']] ∧
      unescape "\\0121\\XfF\\\"" = [10, 49, 255, 34] := by
  have hspells : Forall₂ Spells [10, 49, 255, 34]
      [['\\', '0', '1', '2'], ['1'], ['\\', 'X', 'f', 'F'], ['\\', '\x22']] :=
    .cons (.octal (i := 0) (j := 1) (k := 2) (by decide) (by decide) (by decide) rfl) <|
      .cons (.plain (by decide) (by decide) rfl) <|
      .cons (.hexadecimal (i := 15) (j := 15) (.inr rfl) (by decide) (by decide) (by decide)
        (by decide) rfl) <| .cons (.simple (by decide)) .nil
  exact ⟨hspells, unescape_spelled.1 _ _ hspells⟩

end Protobind.Text
