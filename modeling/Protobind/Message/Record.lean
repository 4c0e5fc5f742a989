import Protobind.Message.Value

/-!
# Storage of messages

A message keeps what it holds in attributes. Its raw extensions and unknown records are attributes
too, kept apart as long as they are what they should be. All attributes together are a dictionary,
which is an attribute as well.
-/

namespace Protobind

def extensionsAttr : String := "_extensions"

def unknownAttr : String := "_unrecognized"

def dictionaryAttr : String := "__dict__"

def rawExtensions? : List (Value × Value) → Option (Dictionary Int Bytes)
  | [] => some []
  | (.int n, .bytes raw) :: rest => (rawExtensions? rest).map ((n, raw) :: ·)
  | _ => none

def extensionsValue (extensions : Dictionary Int Bytes) : Value :=
  .map (extensions.map fun (number, raw) => (.int number, .bytes raw))

namespace Record

def erase (m : Message) (attr : String) : Message :=
  { m with attrs := Dictionary.erase attr m.attrs }

variable (m : Message)

/-- A message with another value of a single attribute. Raw extensions and unknown records are kept
apart from the other attributes; a value that is none of these is an attribute like any other. -/
def storeOne (attr : String) (v : Value) : Message :=
  if attr == extensionsAttr then
    match v with
    | .map entries =>
      match rawExtensions? entries with
      | some raw => { m.erase attr with extensions? := some raw }
      | none => { m.set attr v with extensions? := none }
    | _ => { m.set attr v with extensions? := none }
  else if attr == unknownAttr then
    match v with
    | .bytes raw => { m.erase attr with unknown? := some raw }
    | _ => { m.set attr v with unknown? := none }
  else m.set attr v

def named (entries : List (Value × Value)) : List (String × Value) :=
  entries.filterMap fun
    | (.text name, v) => if name == dictionaryAttr then none else some (name, v)
    | _ => none

/-- A message with another value of an attribute. Another dictionary replaces all attributes; it is
kept for the order of its entries and for those that are no attributes. -/
def store (attr : String) (v : Value) : Message :=
  if attr == dictionaryAttr then
    match v with
    | .map entries =>
      (named entries).foldl (fun m (attr, v) => m.storeOne attr v)
        { type := m.type, attrs := [(attr, v)] }
    | _ => m
  else m.storeOne attr v

def storeAll (pairs : List (String × Value)) : Message :=
  pairs.foldl (fun m (attr, v) => m.store attr v) m

def ownOne? (attr : String) : Option Value :=
  (m.get? attr).or <|
    if attr == extensionsAttr then m.extensions?.map extensionsValue
    else if attr == unknownAttr then m.unknown?.map .bytes
    else none

def entry? : Value × Value → Option (Value × Value)
  | (.text name, v) =>
    (if name == dictionaryAttr then some v else m.ownOne? name).map (.text name, ·)
  | e => some e

/-- The entries of the dictionary of a message: those of the last one that was stored, with the
values that their attributes have now, and behind them the attributes that were stored since. -/
def entries (m : Message) : List (Value × Value) :=
  let known : List (Value × Value) := match m.get? dictionaryAttr with
    | some (.map entries) => entries
    | _ => []
  let names := dictionaryAttr :: (named known).map (·.1)
  let since := (m.attrs.map (·.1) ++ [extensionsAttr, unknownAttr]).eraseDups.filter
    (!names.contains ·)
  (known ++ since.map (Value.text ·, Value.null)).filterMap m.entry?

def own? (attr : String) : Option Value :=
  if attr == dictionaryAttr then some (.map m.entries) else m.ownOne? attr

def require (attr : String) : Result Value :=
  match m.own? attr with
  | some v => .ok v
  | none => .error .missingMember

def has (attr : String) : Bool := (m.own? attr).isSome

end Record

end Protobind
