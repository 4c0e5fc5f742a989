import Protobind.Module.Print
import Protobind.Script.Program

/-!
# Well-formed modules

A module can be written only when its text spells a program. Names of the schema stand in the text
as they are, so one that is no identifier mostly spoils it. Null characters are noticed before the
text is read.
-/

namespace Protobind

def ModulePlan.check (p : ModulePlan) : Except GenerateError Unit :=
  let source := p.chars none
  if p.outputName.toList.contains '\x00' then .error (.fatal .nullInName)
  else if source.contains '\x00' then .error (.fatal .nullInSource)
  else if (Program.ofChars? source).isNone then .error (.reported (.badSource p.outputName))
  else .ok ()

end Protobind
