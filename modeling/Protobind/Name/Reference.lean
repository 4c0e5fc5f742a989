/-!
# References

A module refers to its own names as they stand, and to those of another one behind its alias.
-/

namespace Protobind

/-- A name of a module, as another module or the module itself refers to it. -/
structure Reference where
  module? : Option String := none
  name : String
  deriving DecidableEq

def Reference.source (r : Reference) : String :=
  match r.module? with
  | none => r.name
  | some module => module ++ "." ++ r.name

end Protobind
