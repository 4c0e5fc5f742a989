import Protobind.Message.Text
import Protobind.Object.Builtin
import Protobind.Object.View

/-!
# Things as text

The source form of a thing is the expression that would build it. Classes and built-in functions are
shown in angle brackets.
-/

namespace Protobind.Binding

def complexPart (d : Double) : String :=
  d.spell "0" fun d => (Decimal.Digits.shortest d).render ⟨16, false⟩

def complexSource (re im : Double) : String :=
  if re.isZero && !re.isNegative then complexPart im ++ "j"
  else
    let sign := if im.isNegative && !im.isNaN then "" else "+"
    "(" ++ complexPart re ++ sign ++ complexPart im ++ "j)"

def checkDigits (n : Int) : Result Unit :=
  if IntegerError.unwritten ≤ n.natAbs then .error (.unsuitable IntegerError.unwrittenMessage)
  else .ok ()

def sourceIn (reg : Registry) : Nat → Binding → Result String
  | 0, _ => .error (.raised "RecursionError" "")
  | fuel + 1, b =>
    let each (items : List Binding) : Result String := do
      pure (", ".intercalate (← items.mapM (sourceIn reg fuel)))
    match b.view with
    | .list items => do pure ("[" ++ (← each items) ++ "]")
    | .row items => do pure (Text.row (← items.mapM (sourceIn reg fuel)))
    | .set [] fixed => .ok (if fixed then "frozenset()" else "set()")
    | .set items fixed => do
      let body := "\x7b" ++ (← each items) ++ "\x7d"
      pure (if fixed then "frozenset(" ++ body ++ ")" else body)
    | .dictionary entries => do
      let texts ← entries.mapM fun (k, v) => do
        pure ((← sourceIn reg fuel k) ++ ": " ++ (← sourceIn reg fuel v))
      pure ("\x7b" ++ ", ".intercalate texts ++ "\x7d")
    | .numbers first stop step =>
      .ok (if step = 1 then s!"range({first}, {stop})" else s!"range({first}, {stop}, {step})")
    | .range first last => do
      let first ← sourceIn reg fuel first
      let last ← sourceIn reg fuel last
      pure s!"ExtensionRange(start={first}, end={last})"
    | .listing form items => do pure (form ++ "([" ++ (← each items) ++ "])")
    | .complex re im => .ok (complexSource re im)
    | .extension ext => .ok ext.source
    | .field f => .ok f.slot.source
    | .error path args => do pure (Builtin.lastName path ++ "(" ++ (← each args) ++ ")")
    | .type id => .ok (s!"<class {Text.singleQuote}" ++ reg.classPath id ++ s!"{Text.singleQuote}>")
    | .builtin path => .ok (Builtin.source path)
    | .value v => do
      match v with
      | .int n => checkDigits n
      | _ => pure ()
      sourceForm reg v
    | _ => .error .notShowable

def source (reg : Registry) (b : Binding) : Result String := sourceIn reg maxDepth b

/-- A thing as text: a text is itself, an enum value its name, a message its compact text, an error
what it was made from, anything else its source form. -/
def display (reg : Registry) (b : Binding) : Result String :=
  match b with
  | .error _ [] => .ok ""
  | .error "KeyError" [arg] => arg.source reg
  | .error _ [arg] =>
    match arg.value? with
    | some v => displayText reg v
    | none => arg.source reg
  | .error _ args => (Binding.row args).source reg
  | _ =>
    match b.value? with
    | some (.int n) => do
      checkDigits n
      displayText reg (.int n)
    | some (.list _) | some (.map _) => b.source reg
    | some v => displayText reg v
    | none => b.source reg

end Protobind.Binding
