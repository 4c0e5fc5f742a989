import Protobind.Proofs.ModulePlans
import Protobind.Proofs.Texts
import Protobind.Session.Load

/-!
# Defaults in tags and in modules

A default is shown in the tag of its field, and as an expression of the module. The source of a
number is read as this number wherever it stands (`Session.evaluateSource_toString`). On enums the
two agree unless a value has the name of a special number (`default_agrees_with_tag_iff`).
-/

namespace Protobind

open List

namespace Numeral

variable {cs : List Char}

theorem head?_toDigits {n : Nat} (h : n ≠ 0) : (Nat.toDigits 10 n).head? ≠ some '0' := by
  induction n using Nat.strongRecOn with
  | _ n ih =>
    by_cases hlt : n < 10
    · rw [Nat.toDigits_of_lt_base hlt]
      have hall : ∀ n < 10, n ≠ 0 → [Nat.digitChar n].head? ≠ some '0' := by decide
      exact hall n hlt h
    · rw [Nat.toDigits_of_base_le (by decide) (by omega), head?_append,
        Option.or_of_isSome (isSome_head?.mpr Nat.toDigits_ne_nil)]
      exact ih (n / 10) (by omega) (by omega)

theorem fraction?_of_digits (h : ∀ c ∈ cs, c.isDigit = true) (hne : cs ≠ []) :
    (fraction? false cs).isSome := by
  have hall : cs.takeWhile (fun c => c.isDigit || c == '.') = cs :=
    takeWhile_eq_self_iff.mpr fun c hc => by rw [h c hc]; rfl
  have hcut : Text.cutAt? '.' cs = none := by
    cases hcut : Text.cutAt? '.' cs with
    | none => rfl
    | some parts =>
      have hmem : '.' ∈ cs := by
        rw [Text.eq_of_cutAt? hcut]
        simp
      exact absurd (h _ hmem) (by decide)
  have hvalue : digitsValue? cs = some _ := if_neg (by simp [all_eq_true.mpr h, hne])
  unfold fraction?
  simp only [hall, hcut, drop_length, append_nil, hvalue]
  rfl

end Numeral

namespace Token

variable {cs : List Char} {n : Nat}

theorem digits?_of_digits (h : ∀ c ∈ cs, c.isDigit = true) :
    digits? Char.isDigit cs = some (cs, []) := by
  induction cs with
  | nil => rfl
  | cons c cs ih =>
    unfold digits?
    rw [if_pos (h c mem_cons_self), ih fun d hd => h d (mem_cons_of_mem _ hd)]
    rfl

/-- What the scanner sees in a digit. -/
theorem scans_digit {c : Char} (h : c.isDigit = true) :
    Numeral.baseOfMark? c = none ∧ Name.isGap c = false ∧ c ≠ '.' ∧ c ≠ '\n' ∧ c ≠ '\\' ∧ c ≠ '#' :=
  Numeral.forall_digit (P := fun c => Numeral.baseOfMark? c = none ∧ Name.isGap c = false ∧
    c ≠ '.' ∧ c ≠ '\n' ∧ c ≠ '\\' ∧ c ≠ '#') (by decide) h

theorem digit_of_mem_toDigits (n : Nat) : ∀ c ∈ Nat.toDigits 10 n, c.isDigit = true :=
  fun _ hc => Nat.isDigit_of_mem_toDigits (by decide) (by decide) hc

theorem numeral?_toDigits (h : (Nat.toDigits 10 n).length ≤ IntegerError.maxDigits) :
    numeral? (Nat.toDigits 10 n) = some (.integer n, []) := by
  have hplain : (Nat.toDigits 10 n).all (· == '0') = true ∨ (Nat.toDigits 10 n).head? ≠ some '0' := by
    by_cases hn : n = 0
    · exact .inl (hn ▸ rfl)
    · exact .inr (Numeral.head?_toDigits hn)
  have hdigits := digit_of_mem_toDigits n
  have hvalue := Numeral.digitsValue?_toDigits n
  obtain ⟨c, cs, hcs⟩ := exists_cons_of_ne_nil (Nat.toDigits_ne_nil (n := n) (b := 10))
  rw [hcs] at hplain hdigits hvalue h ⊢
  obtain ⟨value, hfraction⟩ :=
    Option.isSome_iff_exists.mp (Numeral.fraction?_of_digits hdigits (cons_ne_nil _ _))
  unfold numeral?
  dsimp only
  split
  · rename_i hbased
    split at hbased
    · rename_i heq
      cases heq
      rw [(scans_digit (hdigits _ (mem_cons_of_mem _ mem_cons_self))).1] at hbased
      cases hbased
    · cases hbased
  · obtain ⟨_, _, hpoint, _⟩ := scans_digit (hdigits c mem_cons_self)
    rw [digits?_of_digits hdigits]
    simp only [fraction?, exponent?]
    simp [hfraction, hvalue, ending, mayFollow, hpoint]
    simp at hplain h
    grind

theorem scan?_toDigits (fuel : Nat) (s : Scanner) (hs : s.atStart = false)
    (h : (Nat.toDigits 10 n).length ≤ IntegerError.maxDigits) :
    scan? (fuel + 1) s (Nat.toDigits 10 n) = some (s.push (.integer n)) := by
  have hnumeral := numeral?_toDigits h
  have hdigits := digit_of_mem_toDigits n
  obtain ⟨c, cs, hcs⟩ := exists_cons_of_ne_nil (Nat.toDigits_ne_nil (n := n) (b := 10))
  rw [hcs] at hnumeral hdigits ⊢
  obtain ⟨_, hgap, hpoint, hline, hback, hcomment⟩ := scans_digit (hdigits c mem_cons_self)
  have hstarts : startsNumber (c :: cs) = true := by
    unfold startsNumber
    split
    · rename_i heq
      cases heq
      exact absurd rfl hpoint
    · rename_i heq
      cases heq
      exact hdigits c mem_cons_self
    · rename_i heq
      cases heq
  unfold scan?
  simp [hs, hline, hgap, hback, hcomment, hstarts, hnumeral, scan?]

theorem mark?_minus {d : Char} (h : d.isDigit = true) :
    mark? ('-' :: d :: cs) = some ("-", d :: cs) := by
  have hmarks : markChars.all (fun m => (m.1.drop 1).all fun c => !c.isDigit) = true := by
    decide +kernel
  simp only [all_eq_true, Bool.not_eq_true'] at hmarks
  have hfind : markChars.find? (fun m => m.1.isPrefixOf ('-' :: d :: cs)) =
      markChars.find? (fun m => m.1.isPrefixOf ['-']) := by
    rw [← head?_filter, ← head?_filter]
    refine congrArg head? (filter_congr fun m hm => ?_)
    obtain ⟨chars, sign⟩ := m
    rcases chars with _ | ⟨c, _ | ⟨e, rest⟩⟩
    · rfl
    · simp [isPrefixOf]
    · have hne : e ≠ d := by
        rintro rfl
        exact absurd ((hmarks _ hm e mem_cons_self).symm.trans h) (by decide)
      simp [isPrefixOf, hne]
  have hminus : markChars.find? (fun m => m.1.isPrefixOf ['-']) = some (['-'], "-") := by
    decide +kernel
  show (markChars.find? _).map _ = _
  rw [hfind, hminus]
  rfl

/-- The tokens of a number: its digits, behind a sign if it is negative. -/
theorem ofPart?_toString {n : Int}
    (h : (Nat.toDigits 10 n.natAbs).length ≤ IntegerError.maxDigits) :
    ofPart? (toString n) =
      some ((if 0 ≤ n then [] else [.mark "-"]) ++ [.integer n.natAbs]) := by
  rw [Int.toString_eq_repr, Int.repr_eq_if]
  unfold ofPart?
  dsimp only
  by_cases hsign : 0 ≤ n
  · have hnat : n.toNat = n.natAbs := by omega
    have hscan (fuel : Nat) := scan?_toDigits fuel { depth := 1, atStart := false } rfl h
    rw [if_pos hsign, if_pos hsign, Nat.repr_eq_ofList_toDigits, hnat, String.toList_ofList, hscan]
    rfl
  · have hnat : (-n).toNat = n.natAbs := by omega
    have hscan (fuel : Nat) :
        scan? (fuel + 1 + 1) { depth := 1, atStart := false } ('-' :: Nat.toDigits 10 n.natAbs) =
          some { found := [.integer n.natAbs, .mark "-"], depth := 1, atStart := false } := by
      have hrest := scan?_toDigits fuel { found := [.mark "-"], depth := 1, atStart := false } rfl h
      have hdigits := digit_of_mem_toDigits n.natAbs
      obtain ⟨c, cs, hcs⟩ := exists_cons_of_ne_nil (Nat.toDigits_ne_nil (n := n.natAbs) (b := 10))
      rw [hcs] at hdigits hrest ⊢
      have hmark := @mark?_minus cs _ (hdigits c mem_cons_self)
      exact (congrArg (Option.bind · _) hmark).trans hrest
    rw [if_neg hsign, if_neg hsign, Nat.repr_eq_ofList_toDigits, hnat, ← String.ofList_append,
      String.toList_ofList, String.length_ofList, singleton_append, length_cons, Nat.mul_add,
      hscan]
    rfl

end Token

theorem Session.evaluateSource_toString (S : Session) (module : Nat) {n : Int}
    (h : (Nat.toDigits 10 n.natAbs).length ≤ IntegerError.maxDigits) :
    S.evaluateSource module id (toString n) = .ok (.value (.int n)) := by
  have hparse : Expression.parse? id (toString n) =
      some (if 0 ≤ n then .integer n.natAbs else .unary .minus (.integer n.natAbs)) := by
    unfold Expression.parse?
    rw [Token.ofPart?_toString h]
    split <;> rfl
  unfold Session.evaluateSource
  rw [hparse]
  by_cases hsign : 0 ≤ n
  · rw [if_pos hsign]
    have hn : (n.natAbs : Int) = n := by omega
    exact congrArg (fun n => Except.ok (Binding.value (.int n))) hn
  · rw [if_neg hsign]
    have hn : -(n.natAbs : Int) = n := by omega
    exact congrArg (fun n => Except.ok (Binding.value (.int n))) hn

/-! ## Values of enums -/

theorem lookupLast?_map_append (start key : String) (pairs : List (String × Int)) :
    lookupLast? (start ++ key) (pairs.map fun p => (start ++ p.1, p.2)) = lookupLast? key pairs := by
  unfold lookupLast?
  rw [← map_reverse]
  induction pairs.reverse with
  | nil => rfl
  | cons p pairs ih =>
    have hkey : (start ++ key == start ++ p.1) = (key == p.1) := by
      rw [Bool.eq_iff_iff, beq_iff_eq, beq_iff_eq]
      exact ⟨fun h => String.append_right_inj _ |>.mp h, congrArg _⟩
    rw [map_cons, lookup_cons, lookup_cons, hkey, ih]

theorem tagDefault_enum {decl : FieldDecl} {values : List (String × Int)} (hkind : decl.kind = .enum)
    (hname : decl.default ∈ values.map (·.1)) : ∃ number,
      lookupLast? decl.default values = some number ∧
        decl.tagDefault (some values) = .ok (toString number) := by
  cases hlook : lookupLast? decl.default values with
  | none =>
    obtain ⟨p, hp, heq⟩ := mem_map.mp hname
    have hne := (lookup_eq_none_iff.mp hlook) p (mem_reverse.mpr hp)
    exact absurd heq.symm (by simpa using hne)
  | some number =>
    refine ⟨number, rfl, ?_⟩
    simp only [FieldDecl.tagDefault, hkind, Option.bind_some, hlook]

theorem defaultExpr_enum_iff {decl : FieldDecl} (hkind : decl.kind = .enum) (hdefault : decl.default ≠ "")
    (module? : Option String) (start : String) :
    decl.defaultExpr module? start =
        .ok (some (.constant { module?, name := start ++ decl.default })) ↔
      isSpecialNumber decl.default = false := by
  unfold FieldDecl.defaultExpr isSpecialNumber
  rw [if_neg (by simpa using hdefault), hkind]
  dsimp only
  split_ifs <;> simp_all

/-! ## Numbers -/

theorem defaultExpr_int {decl : FieldDecl} {n : Int} (hkind : decl.kind.valueType? = some "int")
    (hlength : (Nat.toDigits 10 n.natAbs).length ≤ IntegerError.maxDigits)
    (hdefault : decl.default = toString n) (module? : Option String) (start : String) :
    decl.defaultExpr module? start = .ok (some (.verbatim (toString n))) := by
  -- No spelling of a special number is the text of an integer.
  have hwords : toString n ∉ ["", "inf", "-inf", "nan"] := fun hmem => by
    have hall : ∀ word ∈ ["", "inf", "-inf", "nan"], readInteger word = .error .malformed := by
      decide +kernel
    cases (hall _ hmem).symm.trans (readInteger_toString hlength)
  simp only [mem_cons, not_mem_nil, or_false, not_or] at hwords
  unfold FieldDecl.defaultExpr
  rw [hdefault]
  simp only [String.isEmpty_iff, hwords, beq_iff_eq, if_false]
  revert hkind
  cases decl.kind <;> simp [Kind.valueType?]

/-- The class and the number of a value of an enum. -/
def Binding.numbered? : Result Binding → Option (ClassId × Int)
  | .ok (.value (.enum id number)) => some (id, number)
  | _ => none

open Planner Binding in
/-- The default of a field in its tag and the default in the module. The tag of a field of an enum has
the number of a constant. The expression is this constant unless its name is that of a special number,
and in a session where the constants are values of the class it is the value with the number. -/
theorem default_agrees_with_tag_iff {ctx : Context} {file node : NodeId} {s s' : PlanState}
    {enum : EnumDecl} {e? : Option EnumPlan}
    (henum : ctx.arena.enum? node = some enum) (hplan : planEnum ctx file node s = .ok e? s')
    (S : Session) (module : Nat) (decl : FieldDecl) (module? : Option String) (start : String) :
    (decl.kind = .enum → decl.default ≠ "" → decl.default ∈ enum.values.map (·.name) →
      (decl.defaultExpr module? start =
          .ok (some (.constant { module?, name := start ++ decl.default })) ↔
        isSpecialNumber decl.default = false) ∧
      ∃ e number, e? = some e ∧ decl.tagDefault (some enum.numbers) = .ok (toString number) ∧
        lookupLast? (ctx.arena.constantPrefix node ++ decl.default)
          (e.constants.map fun c => (c.name, c.number)) = some number ∧
        ∀ id, (∀ c ∈ e.constants,
            numbered? (S.resolve module { module?, name := c.name }) = some (id, c.number)) →
          numbered? (S.defaultBinding module
            (.constant { module?, name := ctx.arena.constantPrefix node ++ decl.default })) =
              some (id, number)) ∧
    (∀ b : Bool, decl.kind = .bool → decl.default = (if b then "true" else "false") →
      decl.tagDefault none = .ok (if b then "1" else "0") ∧
      ∃ e, decl.defaultExpr module? start = .ok (some e) ∧
        S.defaultBinding module e = .ok (.value (.bool b))) ∧
    ∀ n : Int, decl.kind.valueType? = some "int" → n.natAbs ≤ UInt64.size → decl.default = toString n →
      decl.tagDefault none = .ok (toString n) ∧
      ∃ e, decl.defaultExpr module? start = .ok (some e) ∧
        S.defaultBinding module e = .ok (.value (.int n)) := by
  refine ⟨fun hkind hdefault hname => ⟨defaultExpr_enum_iff hkind hdefault _ _, ?_⟩,
    fun b hkind hdefault => ?_, fun n hkind hn hdefault => ?_⟩
  · obtain ⟨e, rfl, hplanned⟩ := planEnum_ok henum hplan
    have hvalue : decl.default ∈ enum.numbers.map (·.1) := by simpa [EnumDecl.numbers] using hname
    obtain ⟨number, hnumber, htag⟩ := tagDefault_enum hkind hvalue
    have hconstant : lookupLast? (ctx.arena.constantPrefix node ++ decl.default)
        (e.constants.map fun c => (c.name, c.number)) = some number := by
      rw [hplanned.numbers, lookupLast?_map_append, hnumber]
    refine ⟨e, number, rfl, htag, hconstant, fun id hbound => ?_⟩
    obtain ⟨c, hc, heq⟩ := mem_map.mp (mem_of_lookupLast? hconstant)
    injection heq with hname hnumber
    rw [← hname, ← hnumber]
    exact hbound c hc
  · unfold FieldDecl.tagDefault FieldDecl.defaultExpr
    rw [hkind, hdefault]
    cases b <;> exact ⟨rfl, _, rfl, rfl⟩
  · have hlength : (Nat.toDigits 10 n.natAbs).length ≤ IntegerError.maxDigits := by
      refine Nat.le_trans (m := 20) ?_ (by decide)
      rw [Nat.length_toDigits_le_iff (by decide) (by decide)]
      exact Nat.lt_of_le_of_lt hn (by decide)
    refine ⟨?_, _, defaultExpr_int hkind hlength hdefault _ _,
      S.evaluateSource_toString module hlength⟩
    unfold FieldDecl.tagDefault
    rw [hdefault]
    revert hkind
    cases decl.kind <;> simp [Kind.valueType?]

def colourFile : FileDecl where
  name? := some "u.proto"
  enums := [{
      name? := some "Colour"
      values := [
        { name? := some "RED", number? := some 1 },
        { name? := some "inf", number? := some 2 }] }]

def colourSession : Session where
  loaded := #[[("Colour_RED", .value (.enum 0 1)), ("Colour_inf", .value (.enum 0 2))]]

open Planner Binding in
theorem default_agrees_with_tag_iff_inf : ∃ ctx enum e s', Context.build {} [colourFile] [] = .ok ctx ∧
    ctx.arena.enum? 1 = some enum ∧ planEnum ctx 0 1 {} = .ok (some e) s' ∧ ∀ name ∈ ["RED", "inf"],
      (FieldDecl.defaultExpr { kind? := some .enum, default? := some name } none "Colour_" =
          .ok (some (.constant { name := "Colour_" ++ name })) ↔ isSpecialNumber name = false) ∧
        ∃ number, FieldDecl.tagDefault { kind? := some .enum, default? := some name }
            (some enum.numbers) = .ok (toString number) ∧
          numbered? (colourSession.defaultBinding 0
            (.constant { name := ctx.arena.constantPrefix 1 ++ name })) = some (0, number) := by
  have hrun : ∃ ctx, Context.build {} [colourFile] [] = .ok ctx ∧ ∃ enum ∈ ctx.arena.enum? 1,
      ∃ e? s', planEnum ctx 0 1 {} = .ok e? s' ∧ enum.values.map (·.name) = ["RED", "inf"] ∧
        e?.map (·.constants.map fun c => (c.name, c.number)) =
          some [("Colour_RED", 1), ("Colour_inf", 2)] := by
    decide +kernel
  have hsession : ∀ c ∈ [("Colour_RED", (1 : Int)), ("Colour_inf", 2)],
      numbered? (colourSession.resolve 0 { name := c.1 }) = some (0, c.2) := by
    decide +kernel
  obtain ⟨ctx, hbuild, enum, henum, _, s', hplan, hvalues, hconstants⟩ := hrun
  obtain ⟨e, rfl, hnames⟩ := Option.map_eq_some_iff.mp hconstants
  have hbound : ∀ c ∈ e.constants,
      numbered? (colourSession.resolve 0 { name := c.name }) = some (0, c.number) := by
    intro c hc
    refine hsession (c.name, c.number) ?_
    rw [← hnames]
    exact mem_map_of_mem hc
  refine ⟨ctx, enum, e, s', hbuild, henum, hplan, fun name hname => ?_⟩
  have hne : name ≠ "" := by
    rintro rfl
    exact absurd hname (by decide)
  obtain ⟨hiff, e', number, he, htag, _, hvalue⟩ := (default_agrees_with_tag_iff henum hplan
    colourSession 0 { kind? := some .enum, default? := some name } none "Colour_").1 rfl hne
      (hvalues ▸ hname)
  cases he
  exact ⟨hiff, number, htag, hvalue 0 hbound⟩

end Protobind
