import Protobind.Compile.Request
import Protobind.Schema.Deserialize
import Protobind.Wire.Gzip

/-!
# Exchanging requests and modules

The bytes of a request, and those of the modules that answer it.
-/

namespace Protobind

def Request.deserialize (data : Bytes) : Except DecodeError Request := do
  let ps ← Properties.ofBytes data
  pure
    { generate := ← Properties.texts ps 1
      parameter := (← Properties.text? ps 2).getD ""
      files := ← Properties.records ps 15 (FileDecl.ofProperties data.length) }

namespace ModulePlan

def source (p : ModulePlan) : String := p.render (some (Gzip.member p.descriptor))

def serialize (p : ModulePlan) : Bytes :=
  Serialize.text 1 p.outputName ++ Serialize.text 15 p.source

end ModulePlan

def optionalFieldsFeature : Int := 1

def serializeModules (plans : List ModulePlan) : Bytes :=
  Serialize.integer 2 optionalFieldsFeature ++
    Serialize.many (fun p => Serialize.record 15 p.serialize) plans

end Protobind
