import Protobind.Session.Evaluation

/-!
# Functions of the module for messages

What loaded modules can call to encode, decode and size messages, and to ask and fill registries.
-/

namespace Protobind.Support

open Binding (ofInt ofText ofBool nothing)

open Evaluation

/-- The parameters of a function, and how many are needed. -/
structure Signature where
  names : List String
  needed : Nat

def Signature.all (names : List String) : Signature := { names, needed := names.length }

def signature? (name : String) : Option Signature :=
  match name with
  | "size_varint" | "zigzag32" | "zigzag64" | "int32" | "int64" | "uint32" | "float64_bits"
  | "float32_bits" | "_quote" => some (.all ["value"])
  | "float64_from_bits" | "float32_from_bits" => some (.all ["bits"])
  | "original_type" => some (.all ["message_type_"])
  | "enum_name" => some (.all ["names", "value"])
  | "register_type" => some (.all ["message_type", "name"])
  | "message_type" | "enum_value_map" => some (.all ["name"])
  | "register_enum" => some ⟨["name", "names", "values", "enum_type"], 3⟩
  | "register_file" => some (.all ["filename", "descriptor"])
  | "file_descriptor" => some (.all ["filename"])
  | "register_extension" => some (.all ["desc"])
  | "registered_extensions" | "marshal" | "size" | "compact_text_string" | "_extension_ranges"
  | "_fields_by_number" => some (.all ["message"])
  | "register_message_set_type" => some (.all ["message_type_", "field_number", "name"])
  | "message_set_type" => some (.all ["type_id"])
  | "_tag" => some (.all ["number", "wire"])
  | "_size_bytes" => some (.all ["length"])
  | "_in_ranges" => some (.all ["number", "ranges"])
  | "_text_value" => some (.all ["name", "value"])
  | "unmarshal" | "merge" | "_merge_bytes" => some (.all ["data", "message"])
  | "has_extension" | "clear_extension" | "get_extension" | "_check_extendable" =>
    some (.all ["message", "desc"])
  | "set_extension" => some (.all ["message", "desc", "value"])
  | "marshal_message_set" | "_message_set_text" => some (.all ["extensions"])
  | "unmarshal_message_set" => some (.all ["data", "extensions"])
  | _ => none

def argumentsOf (sig : Signature) (args : Arguments) : Result (List (Option Binding)) := do
  let given ← args.slots sig.names
  if (given.take sig.needed).any Option.isNone then throw .wrongType
  pure given

def messageOf (b : Binding) : Result Message :=
  match b with
  | .value (.message m) => .ok m
  | _ => .error .missingMember

def extensionOf (b : Binding) : Result Extension :=
  match b with
  | .extension ext => .ok ext
  | _ => .error .missingMember

def dataOf (b : Binding) : Result Bytes := do (← b.asValue).toBytes

def integerOf (b : Binding) : Result Int := do (← b.asValue).toInteger

def labelIn (reg : Registry) (names : Binding) (value : Binding) : Result Binding := do
  match names.entries? with
  | none => throw .missingMember
  | some entries => do
    let n ← integerOf value
    match ← Binding.entryOf? reg (ofInt n) entries with
    | some (.value .null) | none => pure (ofText (toString n))
    | some b => pure b

def inRangesOf (reg : Registry) (number : Binding) : List Binding → Result Bool
  | [] => .ok false
  | .range first last :: rest => do
    let isInside ← if ← Binding.ordered reg .atMost first number then
        Binding.ordered reg .atMost number last
      else pure false
    if isInside then pure true else inRangesOf reg number rest
  | _ :: _ => .error .missingMember

def storeOf (b : Binding) : Result ExtensionStore := do
  match ← b.asValue with
  | .map entries =>
    match rawExtensions? entries with
    | some raw => pure (.records raw)
    | none => pure (.other (.map entries))
  | v => pure (.other v)

def merged (data : Binding) (m : Message) : Evaluation (Result Unit × Message) := do
  let bs ← give (dataOf data)
  match Protobind.merge (← registry) m bs with
  | .done m _ => pure (.ok (), m)
  | .failed fault m => pure (.error fault, m)

def answer? (reg : Registry) (name : String) (args : List (Option Binding)) :
    Option (Result Binding) :=
  let given : List Binding := args.filterMap id
  let onInt (b : Binding) (f : Int → Int) : Option (Result Binding) := some do
    pure (ofInt (f (← b.asInt)))
  match name, given with
  | "size_varint", [b] => onInt b fun n => Varint.size n
  | "zigzag32", [b] => onInt b fun n => zigzag32 n
  | "zigzag64", [b] => onInt b fun n => zigzag64 n
  | "int32", [b] => onInt b signed32
  | "int64", [b] => onInt b signed64
  | "uint32", [b] => onInt b fun n => word32 n
  | "float64_bits", [b] => some do
    match b.value? with
    | some v => do pure (ofInt (← v.doubleBits))
    | none => throw .badWord
  | "float32_bits", [b] => some do
    match b.value? with
    | some v => do pure (ofInt (← v.singleBits))
    | none => throw .badWord
  | "float64_from_bits", [b] => some do
    match b.asInt with
    | .ok n => do pure (.value (← Value.ofDoubleBits n))
    | .error _ => throw .badWord
  | "float32_from_bits", [b] => some do
    match b.asInt with
    | .ok n => do pure (.value (← Value.ofSingleBits n))
    | .error _ => throw .badWord
  | "_quote", [b] => some do
    match ← b.asValue with
    | .bytes bs => pure (ofText (Text.displayBytes bs))
    | _ => do pure (ofText (Text.displayBytes (← NumberMethod.bytesOf b)))
  | "_tag", [a, b] => some do
    let shifted ← Binding.joined reg .shiftLeft a (ofInt 3)
    Binding.joined reg .or shifted b
  | "_size_bytes", [b] => some do
    let n ← b.asInt
    pure (ofInt (Varint.size n + n))
  | "_in_ranges", [n, ranges] => some do
    pure (ofBool (← inRangesOf reg n (← ranges.items)))
  | "_text_value", [name, b] => some do
    let v ← b.asValue
    pure (ofText (← Display.named reg (compactText reg) (← name.display reg) v))
  | "enum_name", [names, b] => some (labelIn reg names b)
  | "original_type", [b] => some do
    match b with
    | .type id => pure (.type (reg.canonical id))
    | .builtin path => if Builtin.isClass path then pure b else throw .missingMember
    | .module _ | .support _ | .value (.message _) | .value (.enum ..) | .constant ..
    | .function .. | .closure .. | .extension _ | .field _ | .buffer _ | .error .. => pure b
    | _ => throw .missingMember
  | "message_type", [b] => some do
    if !b.isKey then throw .wrongType
    match b with
    | .value (.text s) => reg.messageClass s
    | _ => do throw (.usage (.unknownMessageType (← b.display reg)))
  | "enum_value_map", [b] => some do
    if !b.isKey then throw .wrongType
    match b with
    | .value (.text s) => pure ((reg.enumValues.get? s).getD nothing)
    | _ => pure nothing
  | "file_descriptor", [b] => some do
    if !b.isKey then throw .wrongType
    match b with
    | .value (.text s) => pure (((reg.files.get? s).map .value).getD nothing)
    | _ => pure nothing
  | "message_set_type", [b] => some do
    if !b.isKey then throw .wrongType
    match b.value?.bind fun v =>
        reg.messageSetTypes.find? fun (n, _) => Value.sameKey (.int n) v with
    | some (_, type, label) => pure (.row [type, ofText label])
    | none => pure nothing
  | "registered_extensions", [b] => some do
    let known := match b.value?.bind Registry.classOf? with
      | some id => reg.extensionsOf id
      | none => []
    pure (Binding.ofEntries (known.map fun (n, ext) => (ofInt n, .extension ext)))
  | "marshal", [b] => some do pure (.value (.bytes (← encode reg (← messageOf b))))
  | "size", [b] => some do
    if b.isNothing then throw (.unencodable .noMessage)
    pure (ofInt (← encodedSize reg (← messageOf b)))
  | "compact_text_string", [b] => some do
    pure (ofText (← compactText reg (← messageOf b)))
  | "_extension_ranges", [b] => some do
    match b.value? with
    | some v => do pure (.ranges (← reg.rangesOf v))
    | none => pure (.value (.list []))
  | "has_extension", [b, ext] => some do
    let ext ← extensionOf ext
    match b.value? with
    | some v => do pure (ofBool (← hasExtension v ext))
    | none => pure (ofBool false)
  | "get_extension", [b, ext] => some do
    pure (.value (← getExtension reg (← b.asValue) (← extensionOf ext)))
  | "_check_extendable", [b, ext] => some do
    reg.checkExtendable (← b.asValue) (← extensionOf ext)
    pure nothing
  | "marshal_message_set", [b] => some do
    pure (.value (.bytes (← MessageSet.encodeStore (← storeOf b))))
  | _, _ => none

/-- The answer of a function that changes its arguments or the registries; `none` when there is no
such function. -/
def perform (name : String) (args : List (Option Binding)) : Evaluation (Option Called) := do
  let done : Called := { answer := nothing }
  match name, args with
  | "register_type", [some b, some label] => do
    let label ← give label.asText
    change fun reg => reg.registerMessage b label
    pure (some done)
  | "register_enum", [some label, some _, some values, type?] => do
    let label ← give label.asText
    change fun reg => reg.registerEnum label values (type?.filter (!·.isNothing))
    pure (some done)
  | "register_file", [some label, some data] => do
    let label ← give label.asText
    let data ← give data.asValue
    change fun reg => (reg.registerFile label data, [])
    pure (some done)
  | "register_extension", [some ext] => do
    let ext ← give (extensionOf ext)
    change fun reg => reg.registerExtension ext
    pure (some done)
  | "register_message_set_type", [some b, some n, some label] => do
    let n ← give n.asInt
    let label ← give label.asText
    change fun reg => (reg.registerMessageSet b n label, [])
    pure (some done)
  | "clear_extension", [some b, some ext] => do
    let ext ← give (extensionOf ext)
    match b.value? with
    | some v =>
      let new ← give (clearExtension v ext)
      pure (some { done with changes := [(0, .value new)] })
    | none => pure (some done)
  | "set_extension", [some b, some ext, some v] => do
    let new ← askRegistry fun reg => do
      setExtension reg (← b.asValue) (← extensionOf ext) (← v.asValue)
    pure (some { done with changes := [(0, .value new)] })
  | "merge", [some data, some b] | "_merge_bytes", [some data, some b] => do
    let (result, new) ← merged data (← give (messageOf b))
    give result
    pure (some { done with changes := [(1, .value (.message new))] })
  | "unmarshal", [some data, some b] => do
    let m ← give (messageOf b)
    let m ← askRegistry fun reg => reg.reset m
    let (result, new) ← merged data m
    give result
    pure (some { done with changes := [(1, .value (.message new))] })
  | "unmarshal_message_set", [some data, some b] => do
    let store ← give (storeOf b)
    let (store, fault?) := MessageSet.decodeStore store (← give (dataOf data))
    match fault? with
    | some fault => throw fault
    | none => pure (some { done with changes := [(1, .value store.value)] })
  | _, _ => pure none

def fieldOf (args : Arguments) : Result Binding := do
  match ← argumentsOf ⟨["attr", "kind", "tag", "type_name", "key", "value"], 3⟩ args with
  | [some attr, some kind, some tag, type?, key?, value?] =>
    let attr ← attr.asText
    let part (b? : Option Binding) : Option Field := match b? with
      | some (.field f) => some f
      | _ => none
    let typeName? := type?.bind fun b => b.asText.toOption
    match Tag.parse attr (← tag.asText) with
    | .ok tag =>
      pure (.field (Field.make { attr, kind := .ofName (← kind.asText), tag, typeName? }
        (part key?) (part value?)))
    | .error e => throw (.badTag e)
  | _ => throw .wrongType

def extensionDescribed (args : Arguments) : Result Binding := do
  let names :=
    ["extended_type", "extension_type", "field", "name", "tag", "filename", "type_name"]
  match ← argumentsOf ⟨names, 6⟩ args with
  | [some (.type extended), some kind, some number, some name, some tag, some file, type?] =>
    pure (.extension
      { extended, kind := .ofName (← kind.asText), number := ← number.asInt, name := ← name.asText
        tag := ← tag.asText, file := ← file.asText
        typeName? := type?.bind fun b => b.asText.toOption })
  | _ => pure .hidden

def construct? (name : String) (args : Arguments) : Option (Result Binding) :=
  match name with
  | "ExtensionRange" => some do
    match ← argumentsOf (.all ["start", "end"]) args with
    | [some first, some last] => pure (.range first last)
    | _ => throw .wrongType
  | "Field" => some (fieldOf args)
  | "ExtensionDesc" => some (extensionDescribed args)
  | "Buffer" => some do
    match ← args.slots ["data"] with
    | [some b] => do pure (.buffer { data := ← dataOf b })
    | _ => pure (.buffer {})
  | "BadWireTypeError" => some do
    match ← argumentsOf (.all ["number", "wire", "expected"]) args with
    | [some number, some wire, some expected] =>
      let shown (b : Binding) : Result String := b.display {}
      pure (.error "proto.BadWireTypeError" [ofText
        (s!"proto: bad wiretype for field {← shown number}: " ++
          s!"got wiretype {← shown wire}, want {← shown expected}")])
    | _ => throw .wrongType
  | "Enum" | "Message" | "OneofVariant" => some (.ok .hidden)
  | _ => none

def call (name : String) (args : Arguments) : Evaluation Called := do
  match construct? name args with
  | some b => do pure { answer := ← give b }
  | none =>
    match signature? name with
    | none =>
      if Builtin.isError ("proto." ++ name) then
        pure { answer := .error ("proto." ++ name) args.placed }
      else pure { answer := .hidden }
    | some sig =>
      let given ← give (argumentsOf sig args)
      match ← perform name given with
      | some called => pure called
      | none =>
        match answer? (← registry) name given with
        | some answer => do pure { answer := ← give answer }
        | none => pure { answer := .hidden }

end Protobind.Support
