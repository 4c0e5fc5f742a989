import Protobind.Text.Quoted

/-!
# Faults of a compilation

What is wrong with a request is reported as a `CompileError`. Defects that are noticed below that
level stop the run without a report and are `Fatal`.
-/

namespace Protobind

/-- What an error is about. -/
inductive ErrorFamily where
  | internal
  | unresolved
  | parameter
  deriving DecidableEq

/-- What is wrong with a request. -/
inductive CompileError where
  | unknownType (type : Int) (field : String)
  | missingEnumValue (value : String)
  | nestedMessages (message : String) (expected found : Nat) (path : String)
  | nestedEnums (message path : String)
  | extendsNoMessage (field extendee path : String)
  | oneofKind (kind field : String)
  | badSource (moduleName : String)
  | missingFile (name : String)
  | missingType (name : String)
  | missingImport (type file : String)
  | unknownParameter (argument : String)
  deriving DecidableEq

namespace CompileError

def family : CompileError → ErrorFamily
  | .missingFile _ | .missingType _ | .missingImport .. => .unresolved
  | .unknownParameter _ => .parameter
  | _ => .internal

def summary : CompileError → String
  | .unknownType type field => s!"unknown type {type} for field {field}"
  | .missingEnumValue value => s!"cannot find value for enum constant {value}"
  | .nestedMessages message expected found _ =>
    s!"nesting failure for {message}: expected {expected} nested messages, found {found}"
  | .nestedEnums message _ => s!"nesting failure for enums of {message}"
  | .extendsNoMessage field extendee _ =>
    s!"extension {field} extends {extendee}, which is not a message"
  | .oneofKind kind field => s!"unhandled oneof field kind {kind} for field {field}"
  | .badSource _ => "bad Python source code was generated"
  | .missingFile name => "can't find file " ++ Text.quote name
  | .missingType name => s!"can't find object with type {name}"
  | .missingImport type file =>
    s!"failed finding publicly imported dependency for {type}, used in {file}"
  | .unknownParameter argument => "unknown parameter " ++ Text.quote argument

def path? : CompileError → Option String
  | .nestedMessages _ _ _ path | .nestedEnums _ path | .extendsNoMessage _ _ path
  | .missingImport _ path => some path
  | _ => none

def message (e : CompileError) : String :=
  let head := "pybuf codegen error: " ++ e.summary
  match e.path? with
  | none => head
  | some path => if path.isEmpty then head else head ++ "\n    at " ++ path

end CompileError

/-- A defect that stops a run without a report. -/
inductive Fatal where
  | unclosedQuotation
  | unreadableNumber (text : String)
  | singleOverflow
  | indexOutOfRange
  | duplicateNames (batch : List String)
  | nullInName
  | nullInSource
  | endlessMap
  deriving DecidableEq

def singleOverflowMessage : String := "float too large to pack with f format"

def Fatal.message? : Fatal → Option String
  | .unclosedQuotation => some "No closing quotation"
  | .unreadableNumber text => some ("could not convert string to float: " ++ Text.quote text)
  | .singleOverflow => some singleOverflowMessage
  | .indexOutOfRange | .endlessMap => none
  | .duplicateNames batch => some ("Duplicate names in batch: " ++ Text.quoteRow batch)
  | .nullInName => some "embedded null character"
  | .nullInSource => some "source code string cannot contain null bytes"

/-- A fault of a run, with or without a report. -/
inductive GenerateError where
  | reported (error : CompileError)
  | fatal (error : Fatal)
  deriving DecidableEq

end Protobind
