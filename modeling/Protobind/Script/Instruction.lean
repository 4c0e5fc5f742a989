import Protobind.Script.Expression

/-!
# Instructions

What a module does line by line: it evaluates expressions and binds names. Instructions that hold
others, raise errors or import modules are known only as such.
-/

namespace Protobind

/-- An instruction. -/
inductive Instruction where
  | evaluate (value : Expression)
  | assign (targets : List Expression) (value : Expression)
  | update (target : Expression) (sign : BinarySign) (value : Expression)
  /-- Notes the type of a target, which may be assigned a value. -/
  | declare (target note : Expression) (value? : Option Expression)
  | delete (target : Expression)
  | pass
  /-- An import, a check, an error that is raised, or an instruction with blocks of others. -/
  | other

end Protobind
