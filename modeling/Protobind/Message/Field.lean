import Protobind.Message.Value

/-!
# Field tables

The table of a class says for every field which attribute holds the value and how it is encoded.
-/

namespace Protobind

/-- The kind of a table entry: one of the kinds of the schema language, or a name that means nothing
to the codec. -/
inductive SlotKind where
  | known (kind : Kind)
  | other (name : String)
  deriving DecidableEq

namespace SlotKind

def ofName (name : String) : SlotKind :=
  match Kind.ofName? name with
  | some kind => .known kind
  | none => .other name

def name : SlotKind → String
  | .known kind => kind.name
  | .other name => name

def isMessage : SlotKind → Bool
  | .known kind => kind.isMessage
  | .other _ => false

def mapName : String := "map"

def isMap : SlotKind → Bool
  | .known _ => false
  | .other name => name == mapName

def isPackable : SlotKind → Bool
  | .known kind => kind.isNumeric
  | .other name => name != mapName

end SlotKind

/-- An entry of a table, without what it says of the entries of a map. -/
structure Slot where
  attr : String
  kind : SlotKind
  tag : Tag
  typeName? : Option String := none
  deriving DecidableEq

def Slot.source (slot : Slot) : String :=
  s!"Field({Text.quote slot.attr}, {Text.quote slot.kind.name}, {Text.quote slot.tag.text})"

/-- An entry of a field table. A map has entries of its own for its keys and values. -/
inductive Field where
  | plain (slot : Slot)
  | map (slot : Slot) (key value : Field)
  deriving DecidableEq

namespace Field

def slot : Field → Slot
  | .plain slot => slot
  | .map slot _ _ => slot

def number (f : Field) : Int := f.slot.tag.number

def isMap : Field → Bool
  | .plain slot => slot.kind.isMap
  | .map .. => true

def make (slot : Slot) (key? value? : Option Field) : Field :=
  match key?, value? with
  | some key, some value => if slot.kind.isMap then .map slot key value else .plain slot
  | _, _ => .plain slot

end Field

end Protobind
