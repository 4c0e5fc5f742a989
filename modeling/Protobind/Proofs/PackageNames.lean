import Protobind.Proofs.Aliases
import Protobind.Proofs.Texts

/-!
# Identifiers of packages

Each package gets the first identifier that is free: its cleaned name, or this name with the least
number behind it. What is made of ASCII characters gets a legal identifier.
-/

namespace Protobind

open List Name

variable {name : String} {used : List String}

namespace Name

/-! ## Legal identifiers -/

/-- Whether a name is an identifier and no keyword. -/
def IsLegal (name : String) : Prop :=
  spellsIdentifier name.toList = true ∧ isKeyword name = false

/-- Whether a character may stand in an identifier, in front unless it is a digit. -/
def isTame (c : Char) : Bool :=
  Text.isIdentifierContinue c && (Text.isIdentifierStart c || Text.isDigitLike c)

theorem isIdentifierContinue_digit {c : Char} : c.isDigit = true → Text.isIdentifierContinue c = true :=
  Numeral.forall_digit (P := fun c => Text.isIdentifierContinue c = true) (by decide)

theorem isTame_ascii {c : Char} (h : Text.isAscii c = true) :
    isTame (if Text.isAlphanumeric c then c else '_') = true := by
  have hall : ∀ n < 128, isTame (if Text.isAlphanumeric (.ofNat n) then .ofNat n else '_') = true := by
    decide
  simpa only [Char.ofNat_toNat] using hall c.toNat (of_decide_eq_true h)

/-- No keyword has a digit in it, or starts with an underscore. -/
theorem spelling_of_isKeyword (h : isKeyword name = true) :
    (∀ c ∈ name.toList, c.isDigit = false) ∧ name.toList.head? ≠ some '_' := by
  have hall : ∀ k ∈ keywords, k.toList.any Char.isDigit = false ∧ k.toList.head? ≠ some '_' := by
    decide
  exact (hall name (contains_iff_mem.mp h)).imp_left (by simpa using ·)

theorem isKeyword_underscore (name : String) : isKeyword ("_" ++ name) = false := by
  refine Bool.eq_false_iff.mpr fun h => (spelling_of_isKeyword h).2 ?_
  rw [String.toList_append]
  rfl

/-- A name of tame characters that is no keyword becomes legal when a digit in front is escaped. -/
theorem legal_escapeDigit (hne : name.toList ≠ []) (h : name.toList.all isTame = true)
    (hkeyword : isKeyword name = false) : IsLegal (escapeDigit name) := by
  have hcontinue : name.toList.all Text.isIdentifierContinue = true :=
    all_eq_true.mpr fun c hc => (Bool.and_eq_true_iff.mp (all_eq_true.mp h c hc)).1
  obtain ⟨c, cs, hname⟩ := exists_cons_of_ne_nil hne
  unfold escapeDigit
  simp only [hname]
  split
  · refine ⟨?_, isKeyword_underscore name⟩
    rw [String.toList_append]
    exact hcontinue
  · rename_i hdigit
    refine ⟨?_, hkeyword⟩
    rw [hname, all_cons, Bool.and_eq_true] at h hcontinue
    rw [hname, spellsIdentifier, hcontinue.2, Bool.and_true]
    exact (Bool.or_eq_true_iff.mp (Bool.and_eq_true_iff.mp h.1).2).resolve_right hdigit

theorem clean_legal (hne : name ≠ "") (hascii : ∀ c ∈ name.toList, Text.isAscii c = true) :
    IsLegal (clean name) := by
  have htame : (name.toList.map fun c => if Text.isAlphanumeric c then c else '_').all isTame = true := by
    rw [all_map, all_eq_true]
    exact fun c hc => isTame_ascii (hascii c hc)
  have hsome : (name.toList.map fun c => if Text.isAlphanumeric c then c else '_') ≠ [] :=
    mt map_eq_nil_iff.mp (mt String.toList_eq_nil_iff.mp hne)
  unfold clean escapeKeyword
  generalize (name.toList.map fun c => if Text.isAlphanumeric c then c else '_') = cs at htame hsome ⊢
  split
  · have hcs : ("_" ++ String.ofList cs).toList = '_' :: cs := by simp
    refine legal_escapeDigit ?_ ?_ (isKeyword_underscore _) <;> rw [hcs]
    · exact cons_ne_nil _ _
    · rw [all_cons, htame]
      decide
  · rename_i hkeyword
    refine legal_escapeDigit ?_ ?_ (Bool.eq_false_iff.mpr hkeyword) <;> rwa [String.toList_ofList]

theorem numbered_legal (h : IsLegal name) (i : Nat) : IsLegal (numbered name i) := by
  unfold numbered
  split
  · exact h
  · have hdigits : ∀ c ∈ i.repr.toList, c.isDigit = true := fun c hc =>
      Nat.isDigit_of_mem_toDigits (by decide) (by decide) (Nat.toList_repr ▸ hc)
    obtain ⟨d, ds, hds⟩ := exists_cons_of_ne_nil (mt String.toList_eq_nil_iff.mp (Nat.repr_ne_empty (n := i)))
    have hd : d ∈ i.repr.toList := hds ▸ mem_cons_self
    show IsLegal (name ++ i.repr)
    refine ⟨?_, Bool.eq_false_iff.mpr fun hkeyword => ?_⟩
    · rw [String.toList_append]
      cases hname : name.toList with
      | nil =>
        rw [IsLegal, hname] at h
        cases h.1
      | cons c cs =>
        have hspells := h.1
        rw [hname, spellsIdentifier, Bool.and_eq_true] at hspells
        rw [cons_append, spellsIdentifier, hspells.1, all_append, hspells.2]
        refine all_eq_true.mpr fun c hc => ?_
        exact isIdentifierContinue_digit (hdigits c hc)
    · have hkeyword := (spelling_of_isKeyword hkeyword).1 d
      rw [String.toList_append, hdigits d hd] at hkeyword
      cases hkeyword (mem_append_right _ hd)

theorem taken_of_lt_leastBelow {free : Nat → Bool} {bound j : Nat} (hj : j < leastBelow bound free) :
    free j = false := by
  unfold leastBelow at hj
  cases hfind : (List.range bound).find? free with
  | none =>
    rw [hfind] at hj
    simpa using find?_eq_none.mp hfind j (mem_range.mpr hj)
  | some k =>
    rw [hfind] at hj
    simpa using (find?_range_eq_some.mp hfind).2.2 j hj

end Name

namespace Context

/-- The names that packages get when they are registered one after another. -/
def registered (used : List String) : List String → List String
  | [] => []
  | candidate :: candidates =>
    (registerPackage used candidate).1 :: registered (registerPackage used candidate).2 candidates

theorem foldl_registerPackage (used candidates : List String) :
    candidates.foldl (fun used candidate => (registerPackage used candidate).2) used =
      used ++ registered used candidates := by
  induction candidates generalizing used with
  | nil => rw [registered, append_nil, foldl_nil]
  | cons candidate candidates ih =>
    rw [foldl_cons, ih, registered, registerPackage, append_assoc, singleton_append]

theorem PackagesNamed.registered {options : Options} {a : Arena} : ∀ {files : List NodeId}
    {taken : List String}, PackagesNamed options a taken files →
      files.map (fun id => (a.file? id).map (·.packageName)) =
        (Context.registered taken (files.map fun id =>
          ((a.file? id).map (packageCandidate options)).getD "")).map some
  | [], _, _ => rfl
  | file :: files, taken, ⟨f, hf, hname, hrest⟩ => by
    rw [map_cons, map_cons, hf, hrest.registered]
    simp only [Context.registered, Option.map_some, Option.getD_some, registerPackage, hname, map_cons]

/-- After any packages, a package gets an identifier that is neither set aside nor given to one of
them: its cleaned name with the least number behind it that makes it free, where zero is not
written. From ASCII characters it is legal. The files of a run get their identifiers so. -/
theorem packages_numbered_apart :
    (∀ history candidate, ∃ used i,
        history.foldl (fun used name => (registerPackage used name).2) reservedPackages = used ∧
        used = supportPackages ++ generatedNames ++ registered reservedPackages history ∧
        registerPackage used candidate =
          (numbered (clean candidate) i, used ++ [numbered (clean candidate) i]) ∧
        numbered (clean candidate) i ∉ used ∧ (∀ j < i, numbered (clean candidate) j ∈ used) ∧
        (candidate ≠ "" → (∀ c ∈ candidate.toList, Text.isAscii c = true) →
          IsLegal (numbered (clean candidate) i))) ∧
      ∀ (r : Request) ctx, r.context.1 = .ok ctx →
        ctx.files.map (fun id => (ctx.arena.file? id).map (·.packageName)) =
          (registered reservedPackages (ctx.files.map fun id =>
            ((ctx.arena.file? id).map (packageCandidate ctx.options)).getD "")).map some := by
  refine ⟨fun history candidate => ?_, fun r ctx h => ?_⟩
  · refine ⟨_, _, rfl, ?_, rfl, uniqueNumbered_not_mem _ _, fun j hj => ?_, fun hne hascii => ?_⟩
    · rw [foldl_registerPackage]
      exact congrArg (· ++ _) reservedPackages_eq
    · simpa using taken_of_lt_leastBelow hj
    · exact numbered_legal (clean_legal hne hascii) _
  · rw [reservedPackages_eq]
    exact (packagesNamed_build h).registered

end Context

end Protobind
