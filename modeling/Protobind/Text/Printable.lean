import Protobind.Text.CodeTable

/-!
# Printable characters

Everything is printable but controls, format characters, unassigned code points and separators other
than the space.
-/

namespace Protobind.Text

def otherPrintable : CodeTable := .ofRows
  ["a1-8;2-1;2-3;3;2;2;3;4;18;20;1cb-3;d-d;6-6;2;2-10;76;9;6-1;71;8c;6-1;d1-5;2a-1;3-2;2f;2;3;3",
   "2d-1;12-9;c;2-2;4b-3;67;a;b;14-1;2-d;e9-3;5-1;31-e;20;2a;dc-1;b;82-1;7-1;2;79;7a-1;7f;83-7;7d",
   "8;5;cb;2a;7b;4b;10;b-1;a6-16;3-5;15;2;2;2-3;48;39-7;2-5;2-c;70-5;4f-1;5c;265-8;28-9;67;26d-1",
   "2d-1;4f-2;48-1;9e-2;2-3;25-a;136;4-1;99-21;1f-1;81-6;2-5;11;9c-10;a-a;7e-3;3c-4;3f-1;41-7;c",
   "2ea;2-2;c-2;e-2;e-2;e-1;12-17;9-e;3-12;2-9;1c-4;c-4;12-20;1d-3;2-2;1c-1;2-3;2-1;b;2-1;7-5;2;2",
   "2;11-1;5-4;6-3;2;3b-1;5-296;1a-a;52-4d;17-275;1f-3df;3-1f;2-68;e6-5;f-3;2-1;71;90-2e;2-2d",
   "23-19;2-58;d-d5;1b-b;6-3;4-18;10;6-1;6-2;5c-1;4;5b;95-1;5-9;21-23;1d-1e;c-1d;9;10-1f;b-26",
   "10-13f;19c1-3f;5691-36;38-1;10e-2;61-3;b;74-5;9-16;a-1;68-1;9e-3;b-3;3b-3;57-1;29-2;2;32-1;30",
   "62-c;11-1;7d-3;18-2;65-1;11-1;6a;f-1;80;4f3e;89-10;17c-11;80;2d-3;11-9;17-2;3-17;4-2;2-12;2-3",
   "96-e;b-6;1b-3;2;1b-a;7b-6;2-6;e-1;103-2;35-8;3a-10;3-2;2-c;4;30-2c;1a3;31;19f;2e8;20-1;a7;20",
   "111-8;27;49;28-6;43-6;5a-3;311;a8-4;2d-3;be-6;6e-1;2-3;7f-3;31-1;50-3;5;e;2-2;59-5;6c;1a2-4",
   "b-1;2;69;fb-16;6a-2;1d-c;4d;83-3;fc;109-2;9c;5d-7;54-2;2-4;19f-4;2b-1;286-1;dd-1c;e;471-4",
   "b7d-1;3a7c-1;86;42-8;5-1;352-3;148;4cba;3;12b1-73;3d-f5;b-26;3-3b;6-2;17-1;8-1d;5-3c;16-41;4",
   "bb-56;36b;1a;20;1a;20;1a;20;1a;20;1a;3d-1ff;38-3;33-7;2-d;2-6;6c4;1b0;65f-1;34d;4;7e;1c2-1",
   "10f-2b;5-63;d-e;3-e;2-e;2-24;18-a0;39-1c;e-2b;5-8;8-1;f-5;9b-3d7;6-f;4-c;4-73;d-58;8-b;5;10-b",
   "5-37;9-9;7-27;9-1d;3-1;4f-153;d-d;3-4;4-4;4-6;a-1c;4-a;6-5;b-9;7-7;9-6;a-92;2-36"]

end Protobind.Text
