import Mathlib.Data.List.ReduceOption
import Protobind.Compile.Options
import Protobind.Proofs.Basic
import Protobind.Proofs.Texts

/-!
# Parameters of a request

The options of a request are settings between commas. They are read back from their spelling
(`Tells`): the last setting of each sort counts, and the files that have paths of their own are in
the order in which they are first mentioned.
-/

namespace Protobind.Options

open List

inductive Setting where
  | importPrefix (value : String)
  | importPath (value : String)
  | mapping (file path : String)
  | strictImports (value? : Option String)

namespace Setting

/-- What stands on the left and on the right of the equals sign. -/
def sides : Setting → String × Option String
  | importPrefix value => ("import_prefix", some value)
  | importPath value => ("import_path", some value)
  | mapping file path => ("M" ++ file, some path)
  | strictImports value? => ("strict_imports", value?)

def spelling (s : Setting) : String :=
  match s.sides with
  | (left, some right) => left ++ "=" ++ right
  | (left, none) => left

def importPrefix? : Setting → Option String
  | importPrefix value => some value
  | _ => none

def importPath? : Setting → Option String
  | importPath value => some value
  | _ => none

def mapping? : Setting → Option (String × String)
  | mapping file path => some (file, path)
  | _ => none

/-- Whether imports are strict; `false` and `0`, in letters of either case, say that they are not. -/
def strictImports? : Setting → Option Bool
  | strictImports value? => some ((value?.getD "").toLower ∉ ["false", "0"])
  | _ => none

/-- Whether a setting can be spelled: it has no comma, and a file has a name without an equals
sign. -/
def Spellable (s : Setting) : Prop :=
  ',' ∉ s.spelling.toList ∧ ∀ p ∈ s.mapping?, p.1 ≠ "" ∧ '=' ∉ p.1.toList

instance : DecidablePred Spellable := fun _ => inferInstanceAs (Decidable (_ ∧ _))

end Setting

open Setting

variable {o : Options} {s : Setting} {settings : List Setting} {cs read rest : List Char}

/-- Whether options are those that settings tell: the last setting of each sort counts, and what none
of them tells has its default. -/
structure Tells (settings : List Setting) (o : Options) : Prop where
  prefixes : o.importPrefix = (settings.filterMap importPrefix?).getLastD ""
  path : o.importPath = (settings.filterMap importPath?).getLastD ""
  strict : o.strictImports = (settings.filterMap strictImports?).getLastD false
  files : o.importMap.map (·.1) = ((settings.filterMap mapping?).map (·.1)).eraseDups
  paths : ∀ file, o.importMap.get? file = (settings.filterMap mapping?).reverse.lookup file

/-! ## One setting -/

/-- The options after one more setting. -/
def tell (o : Options) (s : Setting) : Options where
  importPrefix := s.importPrefix?.getD o.importPrefix
  importPath := s.importPath?.getD o.importPath
  importMap := (s.mapping?.map fun p => o.importMap.set p.1 p.2).getD o.importMap
  strictImports := s.strictImports?.getD o.strictImports

theorem keys_set (file path : String) (d : Dictionary String String) :
    (d.set file path).map (·.1) =
      if file ∈ d.map (·.1) then d.map (·.1) else d.map (·.1) ++ [file] := by
  by_cases hfile : file ∈ d.map (·.1)
  · rw [if_pos hfile]
    induction d with
    | nil => cases hfile
    | cons p rest ih =>
      unfold Dictionary.set
      split
      · rfl
      · rename_i hne
        rw [map_cons, mem_cons] at hfile
        rw [map_cons, ih (hfile.resolve_left fun heq => hne (beq_iff_eq.mpr heq.symm)), map_cons]
  · rw [if_neg hfile, Dictionary.set_of_not_mem hfile, map_append, map_singleton]

theorem getLastD_filterMap {α : Type} (f : Setting → Option α) (d : α) :
    ((settings ++ [s]).filterMap f).getLastD d = (f s).getD ((settings.filterMap f).getLastD d) := by
  cases hs : f s with
  | none => simp [hs]
  | some value => simp [hs, getLastD_eq_getLast?]

theorem Tells.tell (h : Tells settings o) (s : Setting) : Tells (settings ++ [s]) (o.tell s) := by
  refine ⟨?_, ?_, ?_, ?_, fun file => ?_⟩
  · rw [getLastD_filterMap, ← h.prefixes]
    rfl
  · rw [getLastD_filterMap, ← h.path]
    rfl
  · rw [getLastD_filterMap, ← h.strict]
    rfl
  · unfold Options.tell
    cases hs : s.mapping? with
    | none => simpa [hs] using h.files
    | some p =>
      simp only [filterMap_append, map_append, filterMap_cons_some hs, filterMap_nil, map_cons, map_nil,
        Option.map_some, Option.getD_some, keys_set, h.files, mem_eraseDups, eraseDups_append]
      split <;> rename_i hmem <;> simp [removeAll, hmem, eraseDups_cons]
  · unfold Options.tell
    cases hs : s.mapping? with
    | none => simpa [hs] using h.paths file
    | some p =>
      obtain ⟨key, path⟩ := p
      have hkey : (key == file) = (file == key) := Bool.beq_comm
      simp only [filterMap_append, filterMap_cons_some hs, filterMap_nil, reverse_append, reverse_singleton,
        singleton_append, Option.map_some, Option.getD_some, Dictionary.get?_set, hkey, lookup_cons, h.paths]
      cases file == key <;> rfl

/-- An argument that gives no path to a file is known by its name. -/
theorem addArgument_named {argument : String} (name value : String) (hfile : name.toList.head? ≠ some 'M')
    (hcut : (Text.cutAt? '=' argument.toList).getD (argument.toList, []) =
      (name.toList, value.toList)) :
    o.addArgument argument =
      if name == "import_prefix" then .ok ({ o with importPrefix := value }, [])
      else if name == "import_path" then .ok ({ o with importPath := value }, [])
      else if name == "strict_imports" then .ok ({ o with strictImports := !isOff value }, [])
      else if name == "plugins" then
        .ok (o, [.warning s!"Ignoring plugins={value}; service stubs are not generated"])
      else .error (.unknownParameter argument) := by
  simp only [addArgument, hcut, String.ofList_toList]
  split
  · rename_i heq _
    exact absurd (congrArg head? heq) hfile
  · rfl

theorem addArgument_spelling (hs : s.Spellable) :
    o.addArgument s.spelling = .ok (o.tell s, []) := by
  have hcut {left : String} (hleft : '=' ∉ left.toList) (right : String) :
      Text.cutAt? '=' (left ++ "=" ++ right).toList = some (left.toList, right.toList) := by
    rw [String.toList_append, String.toList_append, append_assoc]
    exact Text.cutAt?_append hleft right.toList
  cases s with
  | importPrefix value =>
    refine (addArgument_named "import_prefix" value (by decide) ?_).trans rfl
    rw [spelling, sides, hcut (by decide), Option.getD_some]
  | importPath value =>
    refine (addArgument_named "import_path" value (by decide) ?_).trans rfl
    rw [spelling, sides, hcut (by decide), Option.getD_some]
  | mapping file path =>
    obtain ⟨hne, heq⟩ := hs.2 _ rfl
    obtain ⟨c, cs, hfile⟩ := exists_cons_of_ne_nil (mt String.toList_eq_nil_iff.mp hne)
    have hM : ("M" ++ file).toList = 'M' :: c :: cs := by
      rw [String.toList_append, hfile]
      rfl
    have hleft : '=' ∉ ("M" ++ file).toList := by
      rw [hM, ← hfile]
      exact not_mem_cons_of_ne_of_not_mem (by decide) heq
    simp only [addArgument, spelling, sides, hcut hleft, hM, Option.getD_some, String.ofList_toList]
    rw [← hfile, String.ofList_toList]
    rfl
  | strictImports value? =>
    have hstrict : (!isOff (value?.getD "")) = decide ((value?.getD "").toLower ∉ ["false", "0"]) := by
      show _ = decide ((value?.getD "").map Char.toLower ∉ ["false", "0"])
      simp [isOff]
      rfl
    refine (addArgument_named "strict_imports" (value?.getD "") (by decide) ?_).trans ?_
    · cases value? with
      | none => rfl
      | some value =>
        rw [spelling, sides, hcut (by decide)]
        rfl
    · show Except.ok ({ o with strictImports := !isOff (value?.getD "") }, []) = _
      rw [hstrict]
      rfl

/-! ## Settings between commas -/

theorem split_append (h : ',' ∉ cs) :
    split (.plain read) (cs ++ rest) = split (.plain (read ++ cs)) rest := by
  induction cs generalizing read with
  | nil => rw [nil_append, append_nil]
  | cons c cs ih =>
    rw [mem_cons, not_or] at h
    rw [cons_append, split, if_neg (by simpa using Ne.symm h.1), ih h.2, append_assoc,
      singleton_append]

theorem Setting.spelling_eq (s : Setting) : ∃ c cs, s.spelling.toList = c :: cs ∧ isQuote c = false := by
  have hleft : ∃ c cs, s.sides.1.toList = c :: cs ∧ isQuote c = false := by
    cases s with
    | mapping file path => exact ⟨'M', file.toList, by simp [sides], rfl⟩
    | importPrefix value => exact ⟨'i', "mport_prefix".toList, by simp [sides], rfl⟩
    | importPath value => exact ⟨'i', "mport_path".toList, by simp [sides], rfl⟩
    | strictImports value? => exact ⟨'s', "trict_imports".toList, by simp [sides], rfl⟩
  obtain ⟨c, cs, hleft, hquote⟩ := hleft
  unfold spelling
  split
  · rename_i left right hsides
    rw [hsides] at hleft
    exact ⟨c, cs ++ '=' :: right.toList, by simp [hleft], hquote⟩
  · rename_i left hsides
    rw [hsides] at hleft
    exact ⟨c, cs, hleft, hquote⟩

theorem split_spelling (hs : s.Spellable) (rest : List Char) :
    split .start (s.spelling.toList ++ rest) = split (.plain s.spelling.toList) rest := by
  obtain ⟨c, cs, hfirst, hquote⟩ := s.spelling_eq
  have hcomma := hs.1
  rw [hfirst, mem_cons, not_or] at hcomma
  rw [hfirst, cons_append, split, if_neg (by simpa using Ne.symm hcomma.1), hquote, if_neg (by decide),
    split_append hcomma.2, singleton_append]

/-- The text of settings with commas between them, and nothing between some of the commas. -/
def parameter (items : List (Option Setting)) : String :=
  String.intercalate "," (items.map fun item => (item.map spelling).getD "")

theorem split_parameter : ∀ {items : List (Option Setting)}, (∀ s ∈ items.reduceOption, s.Spellable) →
    split .start (parameter items).toList = .ok (items.reduceOption.map spelling)
  | [], _ => rfl
  | [none], _ => rfl
  | [some s], h => by
    have hs := split_spelling (h s mem_cons_self) []
    rw [append_nil] at hs
    refine (congrArg _ ?_).trans (hs.trans ?_)
    · simp [parameter]
    · rw [split, String.ofList_toList]
      rfl
  | none :: next :: items, h => by
    have htext : (parameter (none :: next :: items)).toList =
        ',' :: (parameter (next :: items)).toList := by simp [parameter]
    rw [htext, split, if_pos (by decide)]
    exact @split_parameter (next :: items) h
  | some s :: next :: items, h => by
    obtain ⟨hs, hrest⟩ := forall_mem_cons.mp h
    have htext : (parameter (some s :: next :: items)).toList =
        s.spelling.toList ++ ',' :: (parameter (next :: items)).toList := by simp [parameter]
    rw [htext, split_spelling hs, split, if_pos (by decide), split_parameter hrest,
      String.ofList_toList]
    rfl

theorem Tells.addArguments : ∀ {more settings : List Setting} {o : Options}, Tells settings o →
    (∀ s ∈ more, s.Spellable) →
      ∃ o', o.addArguments (more.map spelling) = (.ok o', []) ∧ Tells (settings ++ more) o'
  | [], settings, o, h, _ => ⟨o, rfl, by rwa [append_nil]⟩
  | s :: more, settings, o, h, hmore => by
    obtain ⟨hs, hmore⟩ := forall_mem_cons.mp hmore
    obtain ⟨o', ho', htells⟩ := (h.tell s).addArguments hmore
    refine ⟨o', ?_, by rwa [append_assoc, singleton_append] at htells⟩
    simp only [map_cons, Options.addArguments, addArgument_spelling hs, ho', nil_append]

/-- The options of a request are those that the settings in its parameter tell. -/
theorem parse_parameter (items : List (Option Setting))
    (h : ∀ s ∈ items.reduceOption, s.Spellable) :
    ∃ o, parse (parameter items) = (.ok o, []) ∧ Tells items.reduceOption o := by
  have hstart : Tells [] {} := ⟨rfl, rfl, rfl, rfl, fun _ => rfl⟩
  obtain ⟨o, ho, htells⟩ := hstart.addArguments h
  refine ⟨o, ?_, htells⟩
  unfold parse
  rw [split_parameter h]
  simp only [ho]
  rfl

/-- Settings out of order, one of them twice, with quotation marks and equals signs in their values. -/
def mixedItems : List (Option Setting) :=
  [none, some (.mapping "a.proto" "x"), some (.importPrefix "'v=\""), none, some (.strictImports none),
   some (.mapping "b.proto" ""), some (.mapping "a.proto" "y=z"), none]

theorem parse_parameter_mixed :
    parameter mixedItems = ",Ma.proto=x,import_prefix='v=\",,strict_imports,Mb.proto=,Ma.proto=y=z," ∧
      (∀ s ∈ mixedItems.reduceOption, s.Spellable) ∧
      ∃ o, parse (parameter mixedItems) = (.ok o, []) ∧ Tells mixedItems.reduceOption o :=
  have hspellable : ∀ s ∈ mixedItems.reduceOption, s.Spellable := by decide
  ⟨by decide, hspellable, parse_parameter mixedItems hspellable⟩

end Protobind.Options
