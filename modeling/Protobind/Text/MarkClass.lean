import Protobind.Text.CodeTable

/-!
# Classes of marks

The class of a mark says where it is placed; marks of different classes may change places. A
character that is no mark has the class zero.
-/

namespace Protobind.Text

def markGroup (cs : List Char) : Nat × CodeTable :=
  let (value, marks) := (cutAt? ' ' cs).getD (cs, [])
  (CodeEntry.number value, .ofRows [String.ofList marks])

def markGroups : List (Nat × CodeTable) :=
  ["1 334-4;199c;e-6;3ea-1;5-2;b-1;4-1;e94e;60b7-4;51aa;14c9-2/6 16ff0-1",
   "7 93c;80;80;80;80;100;80;37b;afd;b2;51;8d7c;6707;b9;57;6c;b3;52-1;10a;7d;fd;f7;183;109;3ff",
   "7 1e94a/8 3099-1",
   "9 94d;80;80;80;80;80;80;80;6e-1;11;7d;70;80;ca;b5-1;6da-1;1f;9e;28e;e4;66-1;47-1;118c;7a87",
   "9 a82c;98;8f;6d;136;f7;5e52;607;2a;f;3a;7a-1;8c;75;b5;63;f5;80;fd;80;77;75;10e;104-1;a2;54",
   "9 11a47;52;1a6;105-1;52/a 5b0/b 5b1/c 5b2/d 5b3/e 5b4/f 5b5/10 5b6/11 5b7/12 5b8;f/13 5b9-1",
   "14 5bb/15 5bc/16 5bd/17 5bf/18 5c1/19 5c2/1a fb1e/1b 64b;2a5/1c 64c;2a5/1d 64d;2a5/1e 618;36",
   "1f 619;36/20 61a;36/21 651/22 652/23 670/24 711/54 c55/5b c56/67 e38-1/6b e48-3/76 eb8-1",
   "7a ec8-3/81 f71/82 f72;8-3;3/84 f74/ca 321-1;5-1;1aa8/d6 1dce/d8 31b;c1e;1c22c-1;8-4",
   "da 1dfa;1230",
   "dc 316-3;3-4;3-3;3-a;6-3;b-2;4-1;5-3;3-1;237;5;5;7-5;3;1b;90-1;6;3;84;7;3;44;3;3-2;2-1;2;4;2",
   "dc 746;2;aa;b;5c-2;3e-2;34-4;10;3;3;4-2;7;3-1;58;5c6-1;1c;2;8f;c7;8ae;dd;67;36-5;3;2-1;3-1;6",
   "dc 1b6c;169-4;3-3;e;d5;8;5;2a;4;2;2e9;4-3;883c-2;187;5373-6;3d0;e3;72d;2d;ac;460-1;4;2-3;33",
   "dc 10f85;c1f6-7;8-1;1745-6/de 59a;13;138c;16f4/e0 302e-1/e2 1d16d/e4 5ae;12fb;54e-1;1233",
   "e6 300-14;29-7;2;4-2;4-2;5;4;8-c;114-4;10b-3;2-2;3-5;7-1;2-1;3;15;4c-7;3c-1;3-4;2-1;78-6;3-3",
   "e6 6e4;3-1;3-1;44;2-1;2-1;4;3;2-2;2;2;2;2-1;a1-6;2;23-3;2-8;2-2;2-4;6b;4-3;2b-4;6-d;3-1;2-1",
   "e6 8ea-2;7-2;2-1;3-4;52;2-1;aa;584-1;3-1;3d6-2;47e;15d;dd;5e-7;34-4;7-1;5-1;3-4;2-3;9d;2-6",
   "e6 1cd0-2;8-1;5;14;4-1;c7-1;2-6;2-1;5-24;6;3;2d2-1;3-3;4-1;5;6;2;7;bff-2;ef-1f;7870;5-9;21-1",
   "e6 a6f0-1;1ef-11;1bf;2-1;4-1;6-1;2;535f-6;8-1;547-4;695;29;ad;23f-3;184-1;9c-2;2;36;2;17c-2",
   "e6 11366-6;4-4;ea;56d2-6;664f-4;21-3;95-2;dbc-6;2-10;3-6;2-1;2-4;106-6;178;3e-3;655-5",
   "e8 315;5;3e;1a9e;1236/e9 35c;3;3;1a9a/ea 35d-1;2-1;1a6c/f0 345"].flatMap fun row =>
    (splitOn '/' row.toList).map markGroup

end Protobind.Text
