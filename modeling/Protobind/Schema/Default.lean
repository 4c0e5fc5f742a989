import Protobind.Error
import Protobind.Name.Reference
import Protobind.Number.Reading
import Protobind.Schema.Declaration
import Protobind.Text.Escape

/-!
# Default values

A default is written as text. It appears twice in a module: in the tag of its field, and as an
expression that the getter falls back to.
-/

namespace Protobind

def roundSingle (d : Double) : Except GenerateError Double :=
  match d.toSingle? with
  | some bits => .ok (Double.ofSingle bits)
  | none => .error (.fatal .singleOverflow)

def fewestDigitsFrom (single : Bool) (d : Double) : List Nat → Except GenerateError String
  | [] => .ok d.toText
  | count :: counts => do
    let text := d.general count
    let parsed := (readDouble? text).getD d
    let parsed ← if single then roundSingle parsed else .ok parsed
    if parsed.equal d then .ok text else fewestDigitsFrom single d counts

/-- A number in the general form with the fewest digits, at most 17, that read back as it. With
`single`, numbers are rounded to 32 bits first. -/
def fewestDigits (single : Bool) (d : Double) : Except GenerateError String := do
  let d ← if single then roundSingle d else .ok d
  fewestDigitsFrom single d ((List.range 17).map (· + 1))

def lookupLast? {α β : Type} [BEq α] (key : α) (pairs : List (α × β)) : Option β :=
  pairs.reverse.lookup key

def isSpecialNumber (s : String) : Bool := s == "inf" || s == "-inf" || s == "nan"

/-- The default of a field as its tag shows it: truth values as `1` and `0`, values of an enum as
their numbers, floating-point numbers with the fewest digits. -/
def FieldDecl.tagDefault (f : FieldDecl) (enumValues? : Option (List (String × Int))) :
    Except GenerateError String :=
  match f.kind with
  | .bool => .ok (if f.default == "true" then "1" else "0")
  | .enum =>
    match enumValues?.bind (lookupLast? f.default) with
    | some n => .ok (toString n)
    | none => .error (.reported (.missingEnumValue f.default))
  | .float | .double =>
    if isSpecialNumber f.default then .ok f.default
    else
      match readDouble? f.default with
      | some d => fewestDigits (f.kind == .float) d
      | none => .ok f.default
  | _ => .ok f.default

/-- The expression for a default. -/
inductive DefaultExpr where
  | truth (value : Bool)
  | text (value : String)
  | bytes (value : Bytes)
  | infinity (negative : Bool)
  | notANumber
  | constant (reference : Reference)
  | number (value : Double)
  | verbatim (source : String)
  deriving DecidableEq

def DefaultExpr.source : DefaultExpr → String
  | .truth value => if value then "True" else "False"
  | .text value => Text.quote value
  | .bytes value => Text.quoteBytes value
  | .infinity negative => if negative then "-math.inf" else "math.inf"
  | .notANumber => "math.nan"
  | .constant reference => reference.source
  | .number value => value.toText
  | .verbatim source => source

/-- The expression for the default of a field, when it has one. The constants of an enum are those
of `module?`, behind `constantPrefix`. The spellings of special numbers are recognised for every
kind that is neither a truth value nor text nor bytes. -/
def FieldDecl.defaultExpr (f : FieldDecl) (module? : Option String) (constantPrefix : String) :
    Except GenerateError (Option DefaultExpr) :=
  if f.default.isEmpty then .ok none
  else
    match f.kind with
    | .bool => .ok (some (.truth (f.default == "true")))
    | .string => .ok (some (.text f.default))
    | .bytes => .ok (some (.bytes (Text.unescape f.default)))
    | kind =>
      if f.default == "inf" then .ok (some (.infinity false))
      else if f.default == "-inf" then .ok (some (.infinity true))
      else if f.default == "nan" then .ok (some .notANumber)
      else
        match kind with
        | .enum => .ok (some (.constant { module?, name := constantPrefix ++ f.default }))
        | .float | .double =>
          match readDouble? f.default with
          | some d => .ok (some (.number d))
          | none => .error (.fatal (.unreadableNumber f.default))
        | _ => .ok (some (.verbatim f.default))

end Protobind
