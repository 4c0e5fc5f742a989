import Mathlib.Data.List.Basic
import Protobind.Module.OneofCase
import Protobind.Proofs.Texts
import Protobind.Schema.FieldTag

/-!
# Reading field tags back

A tag is written as parts with commas between them, and cut at its commas again. The default stands
last, so that its commas are put back. Nothing protects a name in JSON: what follows a comma in it
is read as further options of the field, and `Tag.Inert` says when that does no harm.
-/

namespace Protobind

open List Tag

variable {jsonName o value : String} {n : Nat} {part : List Char} {parts : List (List Char)}
  {tag : Tag}

namespace Tag

/-! ## One part at a time -/

theorem cutAt?_assignment (h : '=' ∉ o.toList) (value : String) :
    Text.cutAt? '=' (o ++ "=" ++ value).toList = some (o.toList, value.toList) := by
  rw [String.toList_append, String.toList_append, append_assoc]
  exact Text.cutAt?_append h _

theorem optionOf_assignment (h : '=' ∉ o.toList) (value : String) :
    optionOf (o ++ "=" ++ value).toList = o := by
  rw [optionOf, cutAt?_assignment h]
  exact String.ofList_toList

theorem valueOf_assignment (h : '=' ∉ o.toList) (value : String) :
    valueOf (o ++ "=" ++ value).toList = value := by
  rw [valueOf, cutAt?_assignment h]
  exact String.ofList_toList

theorem set_assignment (h : '=' ∉ o.toList) (tag : Tag) (value : String) :
    tag.set (o ++ "=" ++ value).toList = tag.assign o value := by
  rw [set, optionOf_assignment h, valueOf_assignment h]

theorem addParts_cons (h : optionOf part ≠ "def") (tag : Tag) (parts : List (List Char)) :
    tag.addParts (part :: parts) = (tag.set part).addParts parts := by
  rw [addParts, if_neg h]

theorem addParts_append (h : ∀ part ∈ parts, optionOf part ≠ "def") (tag : Tag)
    (rest : List (List Char)) :
    tag.addParts (parts ++ rest) = (parts.foldl set tag).addParts rest := by
  induction parts generalizing tag with
  | nil => rfl
  | cons part parts ih =>
    rw [cons_append, addParts_cons (h part mem_cons_self),
      ih fun p hp => h p (mem_cons_of_mem _ hp)]
    rfl

theorem addParts_cons_default (h : optionOf part = "def") (tag : Tag) (parts : List (List Char)) :
    tag.addParts (part :: parts) =
      { tag with
        default? := some (String.ofList ((List.intercalate [','] (part :: parts)).drop 4)) } := by
  rw [addParts, if_pos h]

theorem addParts_default (tag : Tag) (value : String) :
    tag.addParts (Text.splitOn ',' ("def=" ++ value).toList) =
      { tag with default? := some value } := by
  rw [String.toList_append]
  have hclean : ',' ∉ "def=".toList := by decide
  have hcut := Text.splitOn_append_of_not_mem hclean value.toList
  have hjoin : List.intercalate [','] _ = _ :=
    Text.intercalate_splitOn ("def=".toList ++ value.toList)
  rw [hcut] at hjoin ⊢
  cases h : Text.splitOn ',' value.toList with
  | nil => exact absurd h (Text.splitOn_ne_nil _)
  | cons piece pieces =>
    rw [h, modifyHead_cons] at hjoin
    have hoption : optionOf ("def=".toList ++ piece) = "def" := by
      have h := optionOf_assignment (o := "def") (by decide) (String.ofList piece)
      rwa [String.toList_append, String.toList_ofList] at h
    rw [modifyHead_cons, addParts_cons_default hoption, hjoin]
    simp

/-! ## Parts that a reader finds -/

/-- The parts that a reader finds in written parts. -/
def pieces (parts : List String) : List (List Char) :=
  parts.flatMap fun part => Text.splitOn ',' part.toList

theorem pieces_append (parts more : List String) :
    pieces (parts ++ more) = pieces parts ++ pieces more :=
  flatMap_append

theorem pieces_of_clean {parts : List String} (h : ∀ part ∈ parts, ',' ∉ part.toList) :
    pieces parts = parts.map String.toList := by
  rw [pieces, map_eq_flatMap]
  exact flatMap_congr fun part hpart => Text.splitOn_of_not_mem (h part hpart)

theorem splitOn_intercalate {parts : List String} (h : parts ≠ []) :
    Text.splitOn ',' (String.intercalate "," parts).toList = pieces parts := by
  rw [String.toList_intercalate, show ",".toList = [','] from rfl,
    Text.splitOn_intercalate (by simpa using h), pieces, flatMap_map]

/-- The reader finds an assigned value up to its first comma, and what follows as further parts. -/
theorem pieces_assignment (h : ',' ∉ o.toList) (value : String) :
    ∃ piece rest, Text.splitOn ',' value.toList = piece :: rest ∧
      pieces [o ++ "=" ++ value] = (o ++ "=" ++ String.ofList piece).toList :: rest := by
  have hclean : ',' ∉ (o ++ "=").toList := by
    rw [String.toList_append, mem_append]
    exact not_or_intro h (by decide)
  have hcut := Text.splitOn_append_of_not_mem hclean value.toList
  cases hvalue : Text.splitOn ',' value.toList with
  | nil => exact absurd hvalue (Text.splitOn_ne_nil _)
  | cons piece rest =>
    refine ⟨piece, rest, rfl, ?_⟩
    rw [hvalue, modifyHead_cons] at hcut
    rw [pieces, flatMap_singleton, String.toList_append, hcut,
      String.toList_append (s := o ++ "="), String.toList_ofList]

/-- What the reader finds where a value is assigned, up to what stands in the value behind a
comma. -/
theorem optionOf_pieces (hcomma : ',' ∉ o.toList) (hequals : '=' ∉ o.toList)
    (h : part ∈ pieces [o ++ "=" ++ value]) :
    optionOf part = o ∨ part ∈ (Text.splitOn ',' value.toList).tail := by
  obtain ⟨piece, rest, hsplit, hpieces⟩ := pieces_assignment hcomma value
  rw [hpieces] at h
  rcases mem_cons.mp h with rfl | h
  · exact .inl (optionOf_assignment hequals _)
  · rw [hsplit]
    exact .inr h

end Tag

namespace FieldDecl

variable {f : FieldDecl} {proto3 : Bool} {enumName? : Option String}
  {enumValues? : Option (List (String × Int))} {attr text : String}

theorem not_mem_number (n : Int) : ',' ∉ (toString n).toList := by
  intro h
  rw [Int.toString_eq_repr, Int.repr_eq_if] at h
  have hdigits {m : Nat} : ',' ∉ m.repr.toList := fun hm => by
    rw [Nat.repr_eq_ofList_toDigits, String.toList_ofList] at hm
    exact absurd (Nat.isDigit_of_mem_toDigits (by decide) (by decide) hm) (by decide)
  split at h
  · exact hdigits h
  · rw [String.toList_append, mem_append] at h
    exact h.elim (by decide) hdigits

/-- What the first three parts of a tag say. -/
def baseTag (f : FieldDecl) (attr text : String) (number : Int) : Tag where
  text := text
  wireType := f.kind.encoding.wireType
  number := number
  repeated := f.label == .repeated
  required := f.label == .required
  name := attr

theorem parse_eq (h : f.tag proto3 enumName? enumValues? = .ok text) (attr : String) :
    ∃ default?, f.shownDefault? enumValues? = .ok default? ∧
      parse attr text =
        ((readInteger (toString f.number)).mapError (TagError.badNumber (toString f.number))).map
          fun number => (f.baseTag attr text number).addParts
            (pieces (f.optionParts proto3 enumName? default?)) := by
  unfold FieldDecl.tag at h
  cases hdefault : f.shownDefault? enumValues? with
  | error e => rw [hdefault] at h; cases h
  | ok default? =>
    rw [hdefault] at h
    injection h with h
    refine ⟨default?, rfl, ?_⟩
    have hencoding : ',' ∉ f.kind.encoding.name.toList := by cases f.kind <;> decide
    have hlabel : ',' ∉ f.label.tagName.toList := by cases f.label <;> decide
    have hpieces : Text.splitOn ',' text.toList = f.kind.encoding.name.toList ::
        (toString f.number).toList :: f.label.tagName.toList ::
          pieces (f.optionParts proto3 enumName? default?) := by
      rw [← h, splitOn_intercalate (cons_ne_nil _ _)]
      unfold pieces
      simp only [flatMap_cons, Text.splitOn_of_not_mem hencoding,
        Text.splitOn_of_not_mem (not_mem_number f.number), Text.splitOn_of_not_mem hlabel,
        singleton_append]
    unfold parse
    rw [hpieces]
    simp only [String.ofList_toList, Encoding.ofName?_name]
    cases readInteger (toString f.number) with
    | error e => rfl
    | ok number =>
      have hrep : (f.label.tagName == "rep") = (f.label == .repeated) := by
        cases f.label <;> decide
      have hreq : (f.label.tagName == "req") = (f.label == .required) := by
        cases f.label <;> decide
      simp only [hrep, hreq]
      rfl

/-! ## Reading back -/

theorem mem_fixedParts {part : String} (h : part ∈ f.fixedParts proto3 enumName?) :
    part = "packed" ∨ part = "name=" ++ f.tagName ∨ part = "json=" ++ f.jsonName ∨
      part = "proto3" ∨ part = "enum=" ++ enumName?.getD "" ∨ part = "oneof" := by
  have hmem {written : Bool} {p : String} (hp : part ∈ tagPart written p) : part = p := by
    unfold tagPart at hp
    split at hp
    · exact mem_singleton.mp hp
    · cases hp
  unfold fixedParts leadParts tailParts at h
  simp only [mem_append, mem_singleton] at h
  rcases h with ((h | h) | h) | (h | h) | h
  · exact .inl (hmem h)
  · exact .inr (.inl h)
  · exact .inr (.inr (.inl (hmem h)))
  · exact .inr (.inr (.inr (.inl (hmem h))))
  · exact .inr (.inr (.inr (.inr (.inl (hmem h)))))
  · exact .inr (.inr (.inr (.inr (.inr (hmem h)))))

theorem optionOf_fixedParts {part : String} (h : part ∈ f.fixedParts proto3 enumName?) :
    optionOf part.toList ≠ "def" := by
  have hassign {o : String} (value : String) (hne : '=' ∉ o.toList)
      (hdef : o ≠ "def") : optionOf (o ++ "=" ++ value).toList ≠ "def" := by
    rwa [optionOf_assignment hne]
  rcases mem_fixedParts h with rfl | rfl | rfl | rfl | rfl | rfl
  · decide
  · exact hassign (o := "name") _ (by decide) (by decide)
  · exact hassign (o := "json") _ (by decide) (by decide)
  · decide
  · exact hassign (o := "enum") _ (by decide) (by decide)
  · decide

theorem not_mem_fixedParts (hname : ',' ∉ f.tagName.toList) (hjson : ',' ∉ f.jsonName.toList)
    (henum : ',' ∉ (enumName?.getD "").toList) {part : String}
    (h : part ∈ f.fixedParts proto3 enumName?) : ',' ∉ part.toList := by
  rcases mem_fixedParts h with rfl | rfl | rfl | rfl | rfl | rfl
  · decide
  · rw [String.toList_append, mem_append]
    exact not_or_intro (by decide) hname
  · rw [String.toList_append, mem_append]
    exact not_or_intro (by decide) hjson
  · decide
  · rw [String.toList_append, mem_append]
    exact not_or_intro (by decide) henum
  · decide

section

variable (tag : Tag) (written : Bool) (value : String)

theorem foldl_packed : ((tagPart written "packed").map String.toList).foldl set tag =
    { tag with packed := written || tag.packed } := by
  cases written <;> rfl

theorem foldl_proto3 : ((tagPart written "proto3").map String.toList).foldl set tag =
    { tag with proto3 := written || tag.proto3 } := by
  cases written <;> rfl

theorem foldl_oneof : ((tagPart written "oneof").map String.toList).foldl set tag =
    { tag with oneof := written || tag.oneof } := by
  cases written <;> rfl

theorem set_name : tag.set ("name=" ++ value).toList = { tag with name := value } :=
  set_assignment (o := "name") (by decide) tag value

theorem set_json : tag.set ("json=" ++ value).toList = { tag with jsonName := value } :=
  set_assignment (o := "json") (by decide) tag value

theorem set_enum : tag.set ("enum=" ++ value).toList = { tag with enumName := value } :=
  set_assignment (o := "enum") (by decide) tag value

theorem foldl_json : ((tagPart written ("json=" ++ value)).map String.toList).foldl set tag =
      { tag with jsonName := if written then value else tag.jsonName } := by
  cases written
  · rfl
  · rw [if_pos rfl, ← set_json]
    rfl

theorem foldl_enum : ((tagPart written ("enum=" ++ value)).map String.toList).foldl set tag =
      { tag with enumName := if written then value else tag.enumName } := by
  cases written
  · rfl
  · rw [if_pos rfl, ← set_enum]
    rfl

end

/-- What the reader knows in front of the default, where no name has a comma. -/
theorem foldl_fixedParts (f : FieldDecl) (proto3 : Bool) (enumName? : Option String) (tag : Tag) :
    ((f.fixedParts proto3 enumName?).map String.toList).foldl set tag =
      { tag with
        packed := f.isPacked proto3 || tag.packed
        name := f.tagName
        jsonName := if f.showsJson then f.jsonName else tag.jsonName
        proto3 := (proto3 && !f.proto3Optional) || tag.proto3
        enumName := if f.kind == .enum && !(enumName?.getD "").isEmpty then enumName?.getD ""
          else tag.enumName
        oneof := f.inOneof || tag.oneof } := by
  unfold fixedParts leadParts tailParts
  simp only [map_append, foldl_append, map_cons, map_nil, foldl_cons,
    foldl_nil, foldl_packed, set_name, foldl_json, foldl_proto3, foldl_enum, foldl_oneof]

theorem addParts_shownDefault (h : tag.default? = none) (default? : Option String) :
    tag.addParts (pieces (default?.toList.map ("def=" ++ ·))) =
      { tag with default? := default? } := by
  cases default? with
  | none => cases tag; cases h; rfl
  | some value =>
    refine Eq.trans ?_ (tag.addParts_default value)
    exact congrArg tag.addParts (flatMap_singleton ..)

/-- **A field is read back from its tag.** Whatever its default is, the reader of the tag of a field
finds the number and the label of the field, the wire type with which values of its kind are
written, its flags, its names, and its default. -/
theorem parse_tag (attr : String) (hnumber : -2147483648 ≤ f.number ∧ f.number ≤ 2147483647)
    (hname : ',' ∉ f.tagName.toList) (hjson : ',' ∉ f.jsonName.toList)
    (henum : ',' ∉ (enumName?.getD "").toList)
    (h : f.tag proto3 enumName? enumValues? = .ok text) :
    ∃ tag, Tag.parse attr text = .ok tag ∧ tag.text = text ∧ tag.number = f.number ∧
      tag.wireType = (OneofCase.ofKind f.kind).wireType ∧
      (tag.repeated = true ↔ f.label = .repeated) ∧ (tag.required = true ↔ f.label = .required) ∧
      tag.packed = f.isPacked proto3 ∧ tag.proto3 = (proto3 && !f.proto3Optional) ∧
      tag.oneof = f.inOneof ∧ tag.name = f.tagName ∧
      tag.jsonName =
        (if f.extendee? = none ∧ f.jsonName ≠ "" ∧ f.jsonName ≠ f.tagName then f.jsonName else "") ∧
      tag.enumName = (if f.kind = .enum then enumName?.getD "" else "") ∧
      (f.default? = none → tag.default? = none) ∧
      (f.default?.isSome → ∃ value, f.tagDefault enumValues? = .ok value ∧
        tag.default? = some value) := by
  obtain ⟨default?, hdefault, hparse⟩ := parse_eq h attr
  rw [readInteger_of_int32 hnumber] at hparse
  simp only [Except.mapError, Except.map] at hparse
  have hlead : ∀ part ∈ (f.fixedParts proto3 enumName?).map String.toList,
      Tag.optionOf part ≠ "def" := by
    intro part hpart
    obtain ⟨p, hp, rfl⟩ := mem_map.mp hpart
    exact optionOf_fixedParts hp
  rw [optionParts, Tag.pieces_append,
    Tag.pieces_of_clean fun _ => not_mem_fixedParts hname hjson henum,
    Tag.addParts_append hlead, foldl_fixedParts, addParts_shownDefault rfl] at hparse
  refine ⟨_, hparse, rfl, rfl, ?wire, beq_iff_eq, beq_iff_eq, Bool.or_false _, Bool.or_false _,
    Bool.or_false _, rfl, ?json, ?enum, fun hnone => ?absent, fun hsome => ?present⟩
  case wire =>
    show f.kind.encoding.wireType = _
    cases f.kind <;> rfl
  case json =>
    refine if_congr ?_ rfl rfl
    simp only [showsJson, Bool.and_eq_true, Option.isNone_iff_eq_none, Bool.not_eq_true',
      String.isEmpty_eq_false_iff, bne_iff_ne, and_assoc]
  case enum =>
    show (if f.kind == .enum && !(enumName?.getD "").isEmpty then enumName?.getD "" else "") = _
    by_cases hkind : f.kind = .enum <;> simp [hkind]
  case absent => simpa [shownDefault?, hnone, pure, Except.pure] using hdefault.symm
  case present =>
    unfold shownDefault? at hdefault
    rw [if_pos hsome] at hdefault
    cases hvalue : f.tagDefault enumValues? with
    | error e => rw [hvalue] at hdefault; cases hdefault
    | ok value =>
      rw [hvalue] at hdefault
      exact ⟨value, rfl, (Except.ok.inj hdefault).symm⟩

/-- A member of a oneof whose default looks like further options. -/
def trickyField : FieldDecl where
  name? := some "foo_bar"
  number? := some 7
  kind? := some .string
  default? := some "x,packed,name=y,def=z"
  oneofIndex? := some 0
  jsonName? := some "fooBar"

theorem parse_tag_tricky : trickyField.tag false none none =
      .ok "bytes,7,opt,name=foo_bar,json=fooBar,oneof,def=x,packed,name=y,def=z" ∧
    ∃ tag, Tag.parse "foo_bar"
        "bytes,7,opt,name=foo_bar,json=fooBar,oneof,def=x,packed,name=y,def=z" = .ok tag ∧
      tag.number = 7 ∧ tag.packed = false ∧ tag.oneof = true ∧ tag.name = "foo_bar" ∧
      tag.jsonName = "fooBar" ∧ tag.default? = some "x,packed,name=y,def=z" := by
  have htag : trickyField.tag false none none =
      .ok "bytes,7,opt,name=foo_bar,json=fooBar,oneof,def=x,packed,name=y,def=z" := by decide +kernel
  obtain ⟨tag, hparse, _, hnumber, _, _, _, hpacked, _, honeof, hname, hjson, _, _, hdefault⟩ :=
    parse_tag "foo_bar" (by decide) (by decide) (by decide) (by decide) htag
  obtain ⟨value, hvalue, hdefault⟩ := hdefault rfl
  refine ⟨htag, tag, hparse, hnumber, hpacked, honeof, hname, hjson, ?_⟩
  rw [hdefault, ← Except.ok.inj hvalue]
  rfl

end FieldDecl

/-! ## Names in JSON -/

namespace Tag

/-- A tag without its text and its name in JSON. -/
def withoutJson (tag : Tag) : Tag := { tag with text := "", jsonName := "" }

/-- The options that say more than the name in JSON. -/
def effective : List String := ["def", "packed", "proto3", "oneof", "name", "enum"]

/-- A name in JSON that can stand in a tag: what follows a comma in it sets no option but that name
itself. -/
def Inert (jsonName : String) : Prop :=
  ∀ part ∈ (Text.splitOn ',' jsonName.toList).tail, optionOf part ∉ effective

theorem withoutJson_assign (tag : Tag) (option value : String) :
    (tag.assign option value).withoutJson = (tag.withoutJson.assign option value).withoutJson := by
  unfold assign
  split <;> rfl

theorem withoutJson_set (h : optionOf part ∉ effective) (tag : Tag) :
    (tag.set part).withoutJson = tag.withoutJson := by
  unfold set
  generalize optionOf part = option at h ⊢
  unfold assign
  split
  case h_5 | h_7 => rfl
  all_goals exact absurd (by decide) h

theorem withoutJson_addParts (tag : Tag) (parts : List (List Char)) :
    (tag.addParts parts).withoutJson = (tag.withoutJson.addParts parts).withoutJson := by
  induction parts generalizing tag with
  | nil => rfl
  | cons part parts ih =>
    by_cases h : optionOf part = "def"
    · rw [addParts_cons_default h, addParts_cons_default h]
      rfl
    · rw [addParts_cons h, addParts_cons h, ih, ih (tag.withoutJson.set part), set, set,
        withoutJson_assign]

/-- Parts that set nothing but the name in JSON may be left out. -/
theorem withoutJson_addParts_append (h : ∀ part ∈ parts, optionOf part ∉ effective) (tag : Tag)
    (rest : List (List Char)) :
    (tag.addParts (parts ++ rest)).withoutJson = (tag.addParts rest).withoutJson := by
  induction parts generalizing tag with
  | nil => rfl
  | cons part parts ih =>
    have hpart := h part mem_cons_self
    have hdef : optionOf part ≠ "def" := fun heq => hpart (heq ▸ by decide)
    rw [cons_append, addParts_cons hdef, ih fun p hp => h p (mem_cons_of_mem _ hp),
      withoutJson_addParts, withoutJson_set hpart, ← withoutJson_addParts]

/-! ### Names that do harm -/

/-- Whether a tag says more than that its field and its enum type have names of more than `n`
characters. -/
def Marked (n : Nat) (tag : Tag) : Prop :=
  tag.packed ∨ tag.proto3 ∨ tag.oneof ∨ tag.default?.isSome ∨ tag.name.length ≤ n ∨
    tag.enumName.length ≤ n

theorem marked_congr {a b : Tag} (h : a.withoutJson = b.withoutJson) (ha : a.Marked n) :
    b.Marked n := by
  change b.withoutJson.Marked n
  rw [← h]
  exact ha

theorem marked_assign {option : String} (hvalue : value.length ≤ n)
    (h : tag.Marked n ∨ option ∈ effective ∧ option ≠ "def") :
    (tag.assign option value).Marked n := by
  unfold assign
  unfold Marked at h ⊢
  split
  case h_7 hpacked hproto3 honeof hname hjson henum =>
    refine h.resolve_right fun ⟨hmem, hdef⟩ => ?_
    simp only [effective, mem_cons, not_mem_nil, or_false] at hmem
    tauto
  case h_5 =>
    exact h.resolve_right fun ⟨hmem, _⟩ => absurd hmem (by decide)
  all_goals simp [hvalue]

theorem length_valueOf_le (part : List Char) : (valueOf part).length ≤ part.length := by
  rw [valueOf, String.length_ofList]
  cases h : Text.cutAt? '=' part with
  | none => exact Nat.zero_le _
  | some cut =>
    rw [Text.eq_of_cutAt? h]
    simp only [Option.getD_some, length_append, length_cons]
    omega

theorem marked_addParts (hlength : ∀ part ∈ parts, part.length ≤ n)
    (h : tag.Marked n ∨ ∃ part ∈ parts, optionOf part ∈ effective) :
    (tag.addParts parts).Marked n := by
  induction parts generalizing tag with
  | nil => exact h.resolve_right fun ⟨_, hmem, _⟩ => absurd hmem not_mem_nil
  | cons part parts ih =>
    by_cases hdef : optionOf part = "def"
    · rw [addParts_cons_default hdef]
      exact .inr (.inr (.inr (.inl rfl)))
    · rw [addParts_cons hdef]
      refine ih (fun p hp => hlength p (mem_cons_of_mem _ hp)) ?_
      have hvalue := (length_valueOf_le part).trans (hlength part mem_cons_self)
      rcases h with h | ⟨p, hp, heffective⟩
      · exact .inl (marked_assign hvalue (.inl h))
      · rcases mem_cons.mp hp with rfl | hp
        · exact .inl (marked_assign hvalue (.inr ⟨heffective, hdef⟩))
        · exact .inr ⟨p, hp, heffective⟩

end Tag

namespace FieldDecl

variable {f : FieldDecl} {proto3 : Bool} {enumName? : Option String}
  {enumValues? : Option (List (String × Int))} {text : String}

/-- A field with another name in JSON. -/
def withJsonName (f : FieldDecl) (jsonName? : Option String) : FieldDecl := { f with jsonName? }

/-- Behind a comma, the name of a field does not go on like a default. -/
def NamesNoDefault (f : FieldDecl) : Prop :=
  ∀ part ∈ (Text.splitOn ',' f.tagName.toList).tail, optionOf part ≠ "def"

theorem optionOf_leadParts (hname : f.NamesNoDefault) :
    ∀ part ∈ pieces (f.leadParts proto3), optionOf part ≠ "def" := by
  intro part hpart
  rw [leadParts, pieces_append, mem_append] at hpart
  rcases hpart with hpart | hpart
  · unfold tagPart at hpart
    split at hpart
    · rw [pieces_of_clean (by decide), map_singleton, mem_singleton] at hpart
      rw [hpart]
      decide
    · cases hpart
  · rcases optionOf_pieces (o := "name") (by decide) (by decide) hpart with h | h
    · rw [h]
      decide
    · exact hname part h

theorem optionOf_json (hjson : Inert f.jsonName) (written : Bool) :
    ∀ part ∈ pieces (tagPart written ("json=" ++ f.jsonName)),
      optionOf part ∉ effective := by
  intro part hpart
  unfold tagPart at hpart
  split at hpart
  · rcases optionOf_pieces (o := "json") (by decide) (by decide) hpart with h | h
    · rw [h]
      decide
    · exact hjson part h
  · cases hpart

theorem parse_of_inert (hname : f.NamesNoDefault) (hjson : Inert f.jsonName)
    (h : f.tag proto3 enumName? enumValues? = .ok text) (attr : String) :
    ∃ default?, f.shownDefault? enumValues? = .ok default? ∧
      (parse attr text).map withoutJson =
        ((readInteger (toString f.number)).mapError (TagError.badNumber (toString f.number))).map
          fun number => ((f.baseTag attr "" number).addParts
            (pieces (f.leadParts proto3 ++ (f.tailParts proto3 enumName? ++
              default?.toList.map ("def=" ++ ·))))).withoutJson := by
  obtain ⟨default?, hdefault, hparse⟩ := parse_eq h attr
  refine ⟨default?, hdefault, ?_⟩
  rw [hparse]
  cases readInteger (toString f.number) with
  | error e => rfl
  | ok number =>
    refine congrArg Except.ok ?_
    show ((f.baseTag attr text number).addParts _).withoutJson = _
    rw [optionParts, fixedParts, append_assoc, append_assoc, pieces_append,
      pieces_append, addParts_append (optionOf_leadParts hname),
      withoutJson_addParts_append (optionOf_json hjson _),
      ← addParts_append (optionOf_leadParts hname), ← pieces_append,
      withoutJson_addParts]
    rfl

/-- A word of more than `n` characters. -/
def longWord (n : Nat) : String := String.ofList (List.replicate (n + 1) 'a')

theorem length_longWord (n : Nat) : (longWord n).length = n + 1 := by
  rw [longWord, String.length_ofList, length_replicate]

theorem not_mem_longWord {c : Char} (h : c ≠ 'a') (n : Nat) : c ∉ (longWord n).toList := by
  rw [longWord, String.toList_ofList, mem_replicate]
  exact fun hc => h hc.2

/-- A field with no options whose tag names an enum type. Whatever short names say about it, it
shows. -/
def probe (n : Nat) : FieldDecl where
  name? := some (String.intercalate "," [longWord n, "enum=" ++ longWord n])
  number? := some 1
  kind? := some .int32

theorem splitOn_probe (n : Nat) : Text.splitOn ',' (probe n).tagName.toList =
    [(longWord n).toList, ("enum=" ++ longWord n).toList] := by
  have hword := not_mem_longWord (c := ',') (by decide) n
  show Text.splitOn ',' (String.intercalate "," [longWord n, "enum=" ++ longWord n]).toList = _
  rw [splitOn_intercalate (cons_ne_nil _ _), pieces_of_clean]
  · rfl
  · intro part hpart
    rcases mem_pair.mp hpart with rfl | rfl
    · exact hword
    · rw [String.toList_append, mem_append]
      exact not_or_intro (by decide) hword

theorem optionOf_enum (value : String) : optionOf ("enum=" ++ value).toList = "enum" :=
  optionOf_assignment (o := "enum") (by decide) value

theorem namesNoDefault_probe (n : Nat) : (probe n).NamesNoDefault := by
  intro part hpart
  rw [splitOn_probe] at hpart
  rw [mem_singleton.mp hpart, optionOf_enum]
  decide

theorem not_marked_probe (n : Nat) (text : String) : ¬(((probe n).baseTag "" text 1).addParts
      (pieces ((probe n).leadParts false))).Marked n := by
  obtain ⟨piece, rest, hsplit, hpieces⟩ :=
    pieces_assignment (o := "name") (by decide) (probe n).tagName
  rw [splitOn_probe] at hsplit
  obtain ⟨rfl, rfl⟩ := List.cons.inj hsplit
  have hlead : pieces ((probe n).leadParts false) =
      [("name=" ++ longWord n).toList, ("enum=" ++ longWord n).toList] := by
    rw [String.ofList_toList] at hpieces
    exact hpieces
  have hname : optionOf ("name=" ++ longWord n).toList = "name" :=
    optionOf_assignment (o := "name") (by decide) _
  rw [hlead, addParts_cons (by rw [hname]; decide),
    addParts_cons (by rw [optionOf_enum]; decide), set_name, set_enum]
  simp [addParts, Marked, baseTag, length_longWord]

theorem parse_probe (n : Nat) (jsonName? : Option String) :
    ∃ text, ((probe n).withJsonName jsonName?).tag false none none = .ok text ∧
      parse "" text = .ok (((probe n).baseTag "" text 1).addParts
        (pieces ((probe n).leadParts false ++
          tagPart ((probe n).withJsonName jsonName?).showsJson
            ("json=" ++ jsonName?.getD "")))) := by
  have hread : readInteger (toString (1 : Int)) = .ok 1 := readInteger_of_int32 (by decide)
  obtain ⟨text, htag⟩ : ∃ text, ((probe n).withJsonName jsonName?).tag false none none = .ok text :=
    ⟨_, rfl⟩
  obtain ⟨default?, hdefault, hparse⟩ := parse_eq htag ""
  obtain rfl : none = default? := Except.ok.inj hdefault
  have hparts : ((probe n).withJsonName jsonName?).optionParts false none none =
      (probe n).leadParts false ++
        tagPart ((probe n).withJsonName jsonName?).showsJson ("json=" ++ jsonName?.getD "") :=
    (append_nil _).trans (append_nil _)
  have hnumber : ((probe n).withJsonName jsonName?).number = 1 := rfl
  refine ⟨text, htag, ?_⟩
  rw [hparse, hnumber, hread, hparts]
  rfl

/-- A part behind a comma that is an option of its own shows in the tag of the probe. -/
theorem marked_probe (hpart : part ∈ (Text.splitOn ',' jsonName.toList).tail)
    (heffective : optionOf part ∈ effective) (text : String) :
    (((probe jsonName.length).baseTag "" text 1).addParts
      (pieces ((probe jsonName.length).leadParts false ++ ["json=" ++ jsonName]))).Marked
      jsonName.length := by
  obtain ⟨piece, rest, hsplit, hpieces⟩ :=
    pieces_assignment (o := "json") (by decide) jsonName
  have hlength : ∀ p ∈ rest, p.length ≤ jsonName.length := fun p hp =>
    (Text.sublist_of_mem_splitOn (hsplit ▸ mem_cons_of_mem _ hp)).length_le
  rw [hsplit] at hpart
  rw [pieces_append, addParts_append (optionOf_leadParts (namesNoDefault_probe _)),
    show "json=" = "json" ++ "=" from rfl, hpieces,
    addParts_cons (by rw [optionOf_assignment (by decide)]; decide)]
  exact marked_addParts hlength (.inr ⟨part, hpart, heffective⟩)

theorem showsJson_probe (hpart : part ∈ (Text.splitOn ',' jsonName.toList).tail) :
    ((probe jsonName.length).withJsonName (some jsonName)).showsJson = true := by
  have hempty : jsonName.isEmpty = false := by
    rw [String.isEmpty_eq_false_iff]
    rintro rfl
    exact absurd hpart not_mem_nil
  have hne : jsonName ≠ (probe jsonName.length).tagName := fun heq => by
    have hword : (longWord jsonName.length).toList.length ≤
        (probe jsonName.length).tagName.toList.length := by
      have hmem := (splitOn_probe jsonName.length).symm ▸ mem_cons_self
      exact (Text.sublist_of_mem_splitOn hmem).length_le
    have hsame := congrArg String.length heq
    rw [String.length_toList, String.length_toList, length_longWord] at hword
    omega
  have hshown : (true && !jsonName.isEmpty && jsonName != (probe jsonName.length).tagName) = true :=
    by rw [hempty, bne_iff_ne.mpr hne]; rfl
  exact hshown

/-- **Which names in JSON are harmless.** A name in JSON leaves the rest of what a reader finds in
the tag as any other harmless name does, in every field, exactly when no part of it behind a comma
is an option of its own. -/
theorem inert_iff_agrees (jsonName? : Option String) : Tag.Inert (jsonName?.getD "") ↔
      ∀ (f : FieldDecl) (other? : Option String) (proto3 : Bool) (enumName? : Option String)
        (enumValues? : Option (List (String × Int))) (attr text text' : String),
        f.NamesNoDefault → Tag.Inert (other?.getD "") →
        (f.withJsonName jsonName?).tag proto3 enumName? enumValues? = .ok text →
        (f.withJsonName other?).tag proto3 enumName? enumValues? = .ok text' →
        (Tag.parse attr text).map Tag.withoutJson = (Tag.parse attr text').map Tag.withoutJson := by
  constructor
  · intro hinert f other? proto3 enumName? enumValues? attr text text' hname hother h h'
    obtain ⟨default?, hdefault, hparse⟩ :=
      parse_of_inert (f := f.withJsonName jsonName?) hname hinert h attr
    obtain ⟨default'?, hdefault', hparse'⟩ :=
      parse_of_inert (f := f.withJsonName other?) hname hother h' attr
    obtain rfl : default? = default'? := Except.ok.inj (hdefault.symm.trans hdefault')
    exact hparse.trans hparse'.symm
  · intro hall part hpart heffective
    cases jsonName? with
    | none => exact absurd hpart not_mem_nil
    | some jsonName =>
      obtain ⟨text, htag, hparse⟩ := parse_probe jsonName.length (some jsonName)
      obtain ⟨text', htag', hparse'⟩ := parse_probe jsonName.length none
      have hsame := hall (probe jsonName.length) none false none none "" text text'
        (namesNoDefault_probe _) (forall_mem_nil _) htag htag'
      have hshows : (withJsonName _ (some jsonName)).showsJson = true := showsJson_probe hpart
      have hplain : ((probe jsonName.length).withJsonName none).showsJson = false := rfl
      rw [hparse, hparse', hshows, hplain, show tagPart false _ = [] from rfl, append_nil]
        at hsame
      exact not_marked_probe jsonName.length text'
        (Tag.marked_congr (Except.ok.inj hsame) (marked_probe hpart heffective text))

end FieldDecl

end Protobind
