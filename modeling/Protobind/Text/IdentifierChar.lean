import Protobind.Text.CodeTable

/-!
# Identifier characters

The characters outside ASCII that may start an identifier, and those that may follow besides them
and the decimal digits.
-/

namespace Protobind.Text

def nonAsciiIdentifierStart : CodeTable := .ofRows
  ["aa;b;5;6-16;2-1e;2-1c9;5-b;f-4;8;2;82-4;2-1;4-2;2;7;2-2;2;2-13;2-52;2-8a;9-a5;2-25;3;7-28",
   "48-1a;5-3;2e-2a;24-1;2-62;2;10-1;8-1;b-2;3;11;2-1d;1e-58;c;19-20;a-1;5;6-15;5;a;4;18-18;8-a",
   "6-17;2-5;12-29;3b-35;4;13;8-9;10-f;5-7;3-1;3-15;2-6;2;4-3;4;11;e-1;2-2;f-1;b;9-5;5-1;3-15;2-6",
   "2-1;2-1;2-1;20-3;2;14-2;11-8;2-2;2-15;2-6;2-1;2-4;4;13;10-1;18;c-7;3-1;3-15;2-6;2-1;2-4;4;1f-1",
   "2-2;10;12;2-5;4-2;2-3;4-1;2;2-1;4-1;4-2;4-b;17;35-7;2-2;2-16;2-f;4;1b-2;3;3-1;1f;5-7;2-2;2-16",
   "2-9;2-4;4;20-1;2-1;10-1;12-8;2-2;2-28;3;11;6-2;9-2;19-5;6-11;4-17;2-8;2;3-6;3b-2f;2;e-6;3b-1;2",
   "2-4;2-17;2;2-9;2;b;3-4;2;16-3;21;40-7;2-23;1c-4;74-2a;15;11-5;5-3;4;4-1;8-2;5-c;d;12-25;2;6",
   "3-2a;2-14c;2-3;3-6;2;2-3;3-28;2-3;3-20;2-3;3-6;2;2-3;3-e;2-38;2-3;3-42;26-f;11-55;3-5;4-26b",
   "3-10;2-19;6-4a;4-a;8-11;e-12;f-11;f-c;2-2;10-33;24;5;44-58;8-28;2;6-45;b-1e;32-1d;3-4;c-2b",
   "5-19;37-16;a-34;53;5e-2e;12-7;37-1d;e-1;b-2b;1b-23;2a-2;b-23;3-8;8-2a;3-2;2a-3;2-5;2-1;4;6-bf",
   "41-115;3-5;3-25;3-5;3-7;2;2;2;2-1e;3-34;2-6;2;4-2;2-6;4-3;3-5;5-c;6-2;2-6;75;e;11-c;66;5;3-9;2",
   "3-5;7;2;2;2-f;3-3;6-4;5;12-28;a78-e4;7-3;4-1;d-25;2;6;3-37;8;11-16;a-6;2-6;2-6;2-6;2-6;2-6;2-6",
   "2-6;227-2;1a-8;8-4;3-4;5-55;7-2;2-59;2-3;6-2a;2-5d;12-1f;31-f;201-19bf;41-568c;44-2d;3-10c;4-f",
   "b-1;15-2e;11-1e;3-4f;28-8;3-66;3-3f;6-1;2;2-4;19-f;2-2;2-3;2-16;1e-33;f-31;3f-5;4;2-1;c-1b",
   "b-16;1a-1c;8-2e;1d;11-4;2-9;b-4;2-28;18-2;2-7;15-16;4;4-31;2;4-1;3-4;3;2;19-2;3-a;8-2;d-5;3-5",
   "3-5;a-6;2-6;2-2a;2-d;7-72;1e-2ba3;d-16;5-30;2105-16d;3-69;27-6;d-4;6;2-9;2-c;2-4;2;2-1;2-1",
   "2-6b;22-8a;7-d9;13-3f;3-35;29-9;78;2;4;2;2;2;2-7d;25-19;7-19;c-37;3-1e;4-5;3-5;3-5;3-2;24-b",
   "2-19;2-12;2-1;2-e;3-d;23-7a;46-34;10c-1c;4-30;30-1f;e-1d;6-25;b-1d;3-23;5-7;2-4;2b-9d;13-23",
   "5-23;5-27;9-33;d-a;2-e;2-6;2-1;2-a;2-e;2-6;2-1;44-136;a-15;b-7;19-5;2-29;2-8;46-5;3;2-2b;2-1;4",
   "3-16;b-16;a-1e;42-12;2-1;b-15;b-19;47-37;7-1;41;10-3;2-2;2-1c;2b-1c;4-1c;24-7;2-1b;1c-35;b-15",
   "b-12;e-11;6f-48;38-32;e-32;e-23;15d-29;7-1;4f-1c;b;9-15;2b-11;2f-14;1c-16;d-34;3a-1;3;e-2c",
   "21-18;1b-23;1e;3;9-22;4;d-2f;f-3;16;2;24-11;2-18;55-6;2;2-3;2-e;2-9;8-2e;27-7;3-1;3-15;2-6;2-1",
   "2-4;4;13;d-4;9f-34;13-3;15-2;1f-2f;15-1;2;b9-2e;2a-3;25-2f;15;3c-2a;e;48-1a;26-6;ba-2b;75-3f",
   "20-7;3;3-7;2-1;2-17;10;2;5f-7;3-26;11;2;1d;b-27;8;16;c-2d;14;13-48;108-8;2-24;12;32-1d;71-6",
   "2-1;2-25;16;1a-5;2-1;2-1f;f;148-12;be;50-399;67-6e;12-c3;a4d-60;10-42e;fd2-246;21ba-238;8-1e",
   "12-4e;12-1d;13-2f;11-3;20-14;6-12;2b1-3f;81-4a;6;43-c;41-1;2;1d-17f7;9-4d5;2b-8;22e8-3;2-6;2-1",
   "2-122;2e-2;12-3;9-18b;905-6a;6-c;4-8;8-9;1767-54;2-46;2-1;3;3-1;3-3;2-b;2;2-6;2-40;2-3;3-7;2-6",
   "2-1b;2-3;2-4;2;4-6;2-153;3-18;2-18;2-1e;2-18;2-1e;2-18;2-1e;2-18;2-1e;2-18;2-7;735-1e;1e2-2c",
   "b-6;11;142-1d;13-2b;4f5-6;2-3;2-1;2-e;2-c4;3c-43;8;4b5-3;2-1a;2-1;2;3;2-9;2-3;2;2;7;5;2;2;2-2",
   "2-1;2;3;2;2;2;2;2-1;2;3-3;2-6;2-3;2-3;2;2-9;2-10;6-2;2-4;2-10;1145-a6df;21-1038;8-dd;3-1681",
   "f-1d30;c20-21d;5e3-134a"]

def otherIdentifierContinue : CodeTable := .ofRows
  ["b7;249-6f;18;fc-4;10a-2c;2;2-1;2-1;2;49-a;31-14;11;66-6;3-5;3-1;2-3;24;1f-1a;5c-a;3b-8;a;19-3",
   "2-8;2-2;2-4;2c-2;3d-7;2b-17;2-20;37-2;2-11;2-6;b-1;1e-2;39;2-6;3-1;3-2;a;b-1;1b;3-2;39;2-4;5-1",
   "3-2;4;1f-1;4;c-2;39;2-7;2-2;2-2;15-1;17-5;2-2;39;2-6;3-1;3-2;8-2;b-1;1f;3c-4;4-2;2-3;a;29-4;38",
   "2-6;2-2;2-3;8-1;c-1;1e-2;39;2-6;2-2;2-3;8-1;c-1;1d-3;38-1;2-6;2-2;2-3;a;b-1;1e-2;47;5-5;2;2-7",
   "13-1;3e;2-7;d-7;63;2-9;c-5;4b-1;1c;2;2;5-1;32-13;2-1;6-a;2-23;a;65-13;18-3;5-2;2-2;3-6;4-3;e-b",
   "2;b-3;2c0-2;a-8;3a1-3;1d-2;1e-1;1f-1;41-1f;a;2e-2;2;9a;77-b;5-b;9f;3d-4;3a-9;2-1c;3;31-d;2-f",
   "32-4;30-10;27-8;d-2;1f-c;39-d;31-13;99-2;2-14;5;7;3-2;c7-3f;240-1;14;7c-c;5;4-b;bff-2;8e;61-1f",
   "22b-5;6a-1;75d5;5-9;21-1;51-1;111;4;5;18-4;5;54-1;33-11;1b-11;e;27-7;1a-c;2d-3;30-d;25;44-d;d",
   "9-1;2e-2;33;2-2;3-1;6-1;2;2a-4;6-1;ed-7;2-1;4f31;2e2-f;11-f;4-1;19-2;f0;5f-1;25e;e3;96-4;687-2",
   "2-1;6-3;29-2;5;a6-1;23e-3;184-1;9a-a;32-3;7b-2;36-e;2a;3-1;b-3;2e-a;8;3e-2;25-d;11-1;2d;d-2",
   "31-d;9-3;2-1;5d-b;7;a1-b;16-3;38-1;2-6;3-1;3-2;a;b-1;3-6;4-4;c1-11;18;52-13;ec-6;3-8;1c-1",
   "53-10;6b-c;66-e;101-e;f6-5;2-1;3-3;2;2-1;8e-6;3-6;4;1d-9;29-6;2-3;9;a-a;2f-f;196-7;2-7;53-15",
   "2-d;7b-5;4;2-1;2-6;2;43-4;2-1;2-4;15c-3;4bfa-4;3c-6;419;2-36;8-3;52;c-1;4cac-1;1262-2d;3-16",
   "21f-4;4-5;9-7;3-6;1f-3;95-2;7bc-36;5-31;9;f;17-4;2-e;551-6;2-10;3-6;2-1;2-4;106-6;178;3e-3",
   "5e1-6;6e-6;c17b6-ef"]

end Protobind.Text
