import Protobind.Text.CodeTable

/-!
# Alphanumeric characters

Letters of every script and characters with a numeric value are alphanumeric. Most of them are
digits or may start an identifier.
-/

namespace Protobind.Text

/-- The characters that start identifiers, but are neither letters nor numbers. -/
def nonAlphanumericStart : CodeTable := .ofRows
  ["1885-1;892;16"]

def otherAlphanumeric : CodeTable := .ofRows
  ["bc-2;2bc;67a-5;179-5;79-2;86-6;da-6;12-8;bb;80;77-9;43f-a;474-9;957-f;2a;2e0-a;a-a;a-a;50-9;a",
   "281;a;a;56a;132;363-3;8b-9;1f-7;2-e;21-9;28-e;7571-5;5429-5;197-1;75;2;2;2;2;2;2;2;120-1",
   "168-2c;42-3;12-1;156-1a;25-3;535-7;1a-6;28-8;4c-4;17-5;a1-1;3-f;3-2d;45-4;35-1;1f-2;4c-4;69-7",
   "19-7;2a-6;14b-5;16a-15;9f-9;2b-3;71-6;90-a;17c-13;546-1;1af-8;368-12;354-14;4b87-6;31f-16",
   "644a-13;6d-18;154f-8;3a2-3a;2-2;2-3;4d-2c;2-e;3ce-1"]

end Protobind.Text
