import Protobind.Schema.Declaration

/-!
# Reading serialised declarations

A declaration is first split into its properties, by their numbers. A property that occurs more than
once has its last value; one with properties of its own has all of them together.
-/

namespace Protobind

/-- The value of a property. -/
inductive Property where
  | number (value : Nat)
  | run (data : Bytes)
  | other
  deriving DecidableEq

/-- Properties by number. -/
abbrev Properties := List (Nat × Property)

namespace Property

def read : Reader (Nat × Property) := do
  let key ← Varint.read
  let number := key / 8
  if number = 0 then throw (.illegalTag 0)
  let wire := key % 8
  if wire = WireType.varint.code then pure (number, .number (← Varint.read))
  else if wire = WireType.bytes.code then pure (number, .run (← readRun))
  else
    skipValue wire
    pure (number, .other)

def readAll : Nat → Reader Properties
  | 0 => pure []
  | fuel + 1 => do
    if (← get).isEmpty then pure []
    else
      let p ← read
      let ps ← readAll fuel
      pure (p :: ps)

end Property

namespace Properties

def ofBytes (data : Bytes) : Except DecodeError Properties :=
  match (Property.readAll data.length).run data with
  | .ok ps _ => .ok ps
  | .error e _ => .error e

def textOf (data : Bytes) : Except DecodeError String :=
  match Bytes.toText? data with
  | some s => .ok s
  | none => .error .invalidText

variable (ps : Properties)

variable (number : Nat)

def runs : List Bytes :=
  ps.filterMap fun
    | (n, .run data) => if n = number then some data else none
    | _ => none

def numbers : List Nat :=
  ps.filterMap fun
    | (n, .number value) => if n = number then some value else none
    | _ => none

def texts : Except DecodeError (List String) := (runs ps number).mapM textOf

def text? : Except DecodeError (Option String) := do
  pure (← texts ps number).getLast?

def integer? : Option Int :=
  (numbers ps number).getLast?.map fun n => signed32 n

def flag? : Option Bool := (numbers ps number).getLast?.map (· ≠ 0)

def packed : Nat → Reader (List Int)
  | 0 => pure []
  | fuel + 1 => do
    if (← get).isEmpty then pure []
    else
      let n ← Varint.read
      let ns ← packed fuel
      pure (signed32 n :: ns)

def integers : Except DecodeError (List Int) := do
  let values ← ps.mapM fun
    | (n, .number value) => .ok (if n = number then [signed32 value] else [])
    | (n, .run data) =>
      if n = number then
        match (packed data.length).run data with
        | .ok ns _ => .ok ns
        | .error e _ => .error e
      else .ok []
    | _ => .ok []
  pure values.flatten

def records {α : Type} (number : Nat) (read : Properties → Except DecodeError α) :
    Except DecodeError (List α) :=
  (runs ps number).mapM fun data => do read (← ofBytes data)

def record? {α : Type} (number : Nat) (read : Properties → Except DecodeError α) :
    Except DecodeError (Option α) := do
  match runs ps number with
  | [] => pure none
  | parts => do pure (some (← read (← ofBytes parts.flatten)))

end Properties

open Properties

def Label.ofNumber? : Int → Option Label
  | 1 => some .optional
  | 2 => some .required
  | 3 => some .repeated
  | _ => none

variable (ps : Properties)

def FieldOptions.ofProperties : Except DecodeError FieldOptions :=
  .ok { packed? := flag? ps 2, deprecated? := flag? ps 3 }

def FieldDecl.ofProperties (ps : Properties) : Except DecodeError FieldDecl := do
  pure
    { name? := ← text? ps 1
      extendee? := ← text? ps 2
      number? := integer? ps 3
      label? := (integer? ps 4).bind Label.ofNumber?
      kind? := (integer? ps 5).bind Kind.ofNumber?
      typeName? := ← text? ps 6
      default? := ← text? ps 7
      options? := ← record? ps 8 FieldOptions.ofProperties
      oneofIndex? := integer? ps 9
      jsonName? := ← text? ps 10
      proto3Optional? := flag? ps 17 }

def RangeDecl.ofProperties : Except DecodeError RangeDecl :=
  .ok { start? := integer? ps 1, stop? := integer? ps 2 }

def EnumValueDecl.ofProperties : Except DecodeError EnumValueDecl := do
  pure { name? := ← text? ps 1, number? := integer? ps 2 }

def EnumOptions.ofProperties : Except DecodeError EnumOptions :=
  .ok { allowAlias? := flag? ps 2, deprecated? := flag? ps 3 }

def EnumDecl.ofProperties (ps : Properties) : Except DecodeError EnumDecl := do
  pure
    { name? := ← text? ps 1
      values := ← records ps 2 EnumValueDecl.ofProperties
      options? := ← record? ps 3 EnumOptions.ofProperties
      reservedRanges := ← records ps 4 RangeDecl.ofProperties
      reservedNames := ← texts ps 5 }

def OneofDecl.ofProperties : Except DecodeError OneofDecl := do
  pure { name? := ← text? ps 1 }

def MessageOptions.ofProperties : Except DecodeError MessageOptions :=
  .ok
    { messageSet? := flag? ps 1, noStandardAccessor? := flag? ps 2, deprecated? := flag? ps 3
      mapMark? := flag? ps 7 }

def MessageDecl.ofProperties : Nat → Properties → Except DecodeError MessageDecl
  | 0, _ => .ok {}
  | depth + 1, ps => do
    pure
      { name? := ← text? ps 1
        fields := ← records ps 2 FieldDecl.ofProperties
        nested := ← records ps 3 (MessageDecl.ofProperties depth)
        enums := ← records ps 4 EnumDecl.ofProperties
        extensionRanges := ← records ps 5 RangeDecl.ofProperties
        extensions := ← records ps 6 FieldDecl.ofProperties
        options? := ← record? ps 7 MessageOptions.ofProperties
        oneofs := ← records ps 8 OneofDecl.ofProperties
        reservedRanges := ← records ps 9 RangeDecl.ofProperties
        reservedNames := ← texts ps 10 }

def MethodDecl.ofProperties : Except DecodeError MethodDecl := do
  pure
    { name? := ← text? ps 1
      inputType? := ← text? ps 2
      outputType? := ← text? ps 3
      clientStreaming? := flag? ps 5
      serverStreaming? := flag? ps 6 }

def ServiceDecl.ofProperties (ps : Properties) : Except DecodeError ServiceDecl := do
  pure { name? := ← text? ps 1, methods := ← records ps 2 MethodDecl.ofProperties }

def FileOptions.ofProperties : Except DecodeError FileOptions := do
  pure
    { javaPackage? := ← text? ps 1
      javaMultipleFiles? := flag? ps 10
      goPackage? := ← text? ps 11
      deprecated? := flag? ps 23 }

def Location.ofProperties : Except DecodeError Location := do
  pure { path := ← integers ps 1, comment? := ← text? ps 3 }

def Location.listOfProperties : Except DecodeError (List Location) :=
  records ps 1 Location.ofProperties

def FileDecl.ofProperties (depth : Nat) (ps : Properties) : Except DecodeError FileDecl := do
  pure
    { name? := ← text? ps 1
      package? := ← text? ps 2
      dependencies := ← texts ps 3
      messages := ← records ps 4 (MessageDecl.ofProperties depth)
      enums := ← records ps 5 EnumDecl.ofProperties
      services := ← records ps 6 ServiceDecl.ofProperties
      extensions := ← records ps 7 FieldDecl.ofProperties
      options? := ← record? ps 8 FileOptions.ofProperties
      locations := (← record? ps 9 Location.listOfProperties).getD []
      publicDependencies := ← integers ps 10
      weakDependencies := ← integers ps 11
      edition? := ← text? ps 12 }

end Protobind
