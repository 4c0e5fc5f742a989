import Protobind.Text.CodeTable

/-!
# Decompositions

The characters of identifiers that are made of others, or stand for others, are decomposed. In a
range, consecutive characters stand for consecutive ones; a letter with marks is followed by the
small one with the same marks.
-/

namespace Protobind.Text

def decompositions : CodeTable := .ofRows
  ["aa 61;b 3bc;5 6f;6 41 300; 41 301; 41 302; 41 303; 41 308; 41 30a;2 43 327; 45 300; 45 301",
   " 45 302; 45 308; 49 300; 49 301; 49 302; 49 308;2 4e 303; 4f 300; 4f 301; 4f 302; 4f 303",
   " 4f 308;3 55 300; 55 301; 55 302; 55 308; 59 301;3 61 300; 61 301; 61 302; 61 303; 61 308",
   " 61 30a;2 63 327; 65 300; 65 301; 65 302; 65 308; 69 300; 69 301; 69 302; 69 308;2 6e 303",
   " 6f 300; 6f 301; 6f 302; 6f 303; 6f 308;3 75 300; 75 301; 75 302; 75 308; 79 301;2 79 308",
   "-1 41 304;-1 41 306;-1 41 328;-1 43 301;-1 43 302;-1 43 307;-1 43 30c;-1 44 30c;3-1 45 304",
   "-1 45 306;-1 45 307;-1 45 328;-1 45 30c;-1 47 302;-1 47 306;-1 47 307;-1 47 327;-1 48 302",
   "3-1 49 303;-1 49 304;-1 49 306;-1 49 328; 49 307;2 49 4a; 69 6a;-1 4a 302;-1 4b 327;2-1 4c 301",
   "-1 4c 327;-1 4c 30c;-1 4c b7;3-1 4e 301;-1 4e 327;-1 4e 30c; 2bc 6e;3-1 4f 304;-1 4f 306",
   "-1 4f 30b;3-1 52 301;-1 52 327;-1 52 30c;-1 53 301;-1 53 302;-1 53 327;-1 53 30c;-1 54 327",
   "-1 54 30c;3-1 55 303;-1 55 304;-1 55 306;-1 55 30a;-1 55 30b;-1 55 328;-1 57 302;-1 59 302",
   " 59 308;-1 5a 301;-1 5a 307;-1 5a 30c; 73;21-1 4f 31b;e-1 55 31b;14 44 5a 30c;-1 44 7a 30c",
   " 4c 4a;-1 4c 6a; 4e 4a;-1 4e 6a;-1 41 30c;-1 49 30c;-1 4f 30c;-1 55 30c;-1 55 308 304",
   "-1 55 308 301;-1 55 308 30c;-1 55 308 300;2-1 41 308 304;-1 41 307 304;-1 c6 304;3-1 47 30c",
   "-1 4b 30c;-1 4f 328;-1 4f 328 304; 1b7 30c; 292 30c; 6a 30c; 44 5a;-1 44 7a;-1 47 301",
   "3-1 4e 300;-1 41 30a 301;-1 c6 301;-1 d8 301;-1 41 30f;-1 41 311;-1 45 30f;-1 45 311;-1 49 30f",
   "-1 49 311;-1 4f 30f;-1 4f 311;-1 52 30f;-1 52 311;-1 55 30f;-1 55 311;-1 53 326;-1 54 326",
   "3-1 48 30c;7-1 41 307;-1 45 327;-1 4f 308 304;-1 4f 303 304;-1 4f 307;-1 4f 307 304;-1 59 304",
   "7d 68; 266; 6a; 72; 279; 27b; 281; 77; 79;28 263; 6c; 73; 78; 295;5c-1 300;2 313; 308 301",
   "30 2b9;12 391 301; b7; 395 301; 397 301; 399 301;2 39f 301;2 3a5 301; 3a9 301; 3b9 308 301",
   "1a 399 308; 3a5 308; 3b1 301; 3b5 301; 3b7 301; 3b9 301; 3c5 308 301;1a 3b9 308; 3c5 308",
   " 3bf 301; 3c5 301; 3c9 301;2 3b2; 3b8; 3a5; 3a5 301; 3a5 308; 3c6; 3c0;1a 3ba;-1 3c1;2 398",
   " 3b5;4 3a3;7 415 300; 415 308;2 413 301;4 406 308;5 41a 301; 418 300; 423 306;b 418 306",
   "20 438 306;17 435 300; 435 308;2 433 301;4 456 308;5 43a 301; 438 300; 443 306;18 474 30f",
   " 475 30f;4a-1 416 306;e-1 410 306;-1 410 308;3-1 415 306;3 4d8 308; 4d9 308;-1 416 308",
   "-1 417 308;3-1 418 304;-1 418 308;-1 41e 308;3 4e8 308; 4e9 308;-1 42d 308;-1 423 304",
   "-1 423 308;-1 423 30b;-1 427 308;3-1 42b 308;8e 565 582;9b 627 653; 627 654; 648 654; 627 655",
   " 64a 654;4f 627 674; 648 674; 6c7 674; 64a 674;48 6d5 654;2 6c1 654;11 6d2 654;256 928 93c",
   "8 930 93c;3 933 93c;24 915 93c; 916 93c; 917 93c; 91c 93c; 921 93c; 922 93c; 92b 93c; 92f 93c",
   "6c 9c7 9be; 9c7 9d7;10 9a1 9bc; 9a2 9bc;2 9af 9bc;54 a32 a3c;3 a38 a3c;23 a16 a3c; a17 a3c",
   " a1c a3c;3 a2b a3c;ea b47 b56;3 b47 b3e; b47 b57;10 b21 b3c; b22 b3c;37 b92 bd7;36 bc6 bbe",
   " bc7 bbe; bc6 bd7;7c c46 c56;78 cbf cd5;7 cc6 cd5; cc6 cd6;2 cc6 cc2; cc6 cc2 cd5;7f d46 d3e",
   " d47 d3e; d46 d57;8e dd9 dca;2 dd9 dcf; dd9 dcf dca; dd9 ddf;55 e4d e32;80 ecd eb2;29 eab e99",
   " eab ea1;66 f42 fb7;a f4c fb7;5 f51 fb7;5 f56 fb7;5 f5b fb7;d f40 fb5;a f71 f72;2 f71 f74",
   " fb2 f80; fb2 f71 f80; fb3 f80; fb3 f71 f80;8 f71 f80;12 f92 fb7;a f9c fb7;5 fa1 fb7;5 fa6 fb7",
   "5 fab fb7;d f90 fb5;6d 1025 102e;d6 10dc;a0a 1b05 1b35;2 1b07 1b35;2 1b09 1b35;2 1b0b 1b35",
   "2 1b0d 1b35;4 1b11 1b35;29 1b3a 1b35;2 1b3c 1b35;3 1b3e 1b35; 1b3f 1b35;2 1b42 1b35;1e9 41; c6",
   " 42;2-1 44; 18e;-7 47;2 4f; 222; 50; 52;-1 54; 57; 61;-1 250; 1d02; 62;-1 64; 259;-1 25b; 67",
   "2 6b; 6d; 14b; 6f; 254;-1 1d16; 70;-1 74; 1d1d; 26f; 76; 1d25;-2 3b2;-1 3c6; 69; 72;-1 75",
   "-1 3b2; 3c1;-1 3c6;e 43d;23 252; 63; 255; f0; 25c; 66; 25f; 261; 265;-2 268; 1d7b; 29d; 26d",
   " 1d85; 29f; 271; 270;-3 272; 278;-1 282; 1ab;-1 289; 1d1c;-1 28b; 7a;-2 290; 3b8;2b2 69;e 6e",
   "11 61; 65; 6f; 78; 259; 68;-3 6b; 70;-1 73;66 43;5 190;3 67; 48; 48; 48; 68; 127; 49; 49; 4c",
   " 6c;2 4e;4-2 50; 52; 52;7 5a;2 3a9;2 5a;2 4b; 41 30a;-1 42;2 65;-1 45;2 4d; 6f;-3 5d0; 69",
   "3 3c0; 3b3; 393; 3a0;6 44;-1 64;-1 69;17 49; 49 49; 49 49 49; 49 56; 56; 56 49; 56 49 49",
   " 56 49 49 49; 49 58; 58; 58 49; 58 49 49; 4c;-1 43; 4d; 69; 69 69; 69 69 69; 69 76; 76; 76 69",
   " 76 69 69; 76 69 69 69; 69 78; 78; 78 69; 78 69 69; 6c;-1 63; 6d;afd 6a; 56;f2 2d61;2c9 5341",
   "-1 5344;12 304b 3099;2 304d 3099;2 304f 3099;2 3051 3099;2 3053 3099;2 3055 3099;2 3057 3099",
   "2 3059 3099;2 305b 3099;2 305d 3099;2 305f 3099;2 3061 3099;3 3064 3099;2 3066 3099",
   "2 3068 3099;7 306f 3099; 306f 309a;2 3072 3099; 3072 309a;2 3075 3099; 3075 309a;2 3078 3099",
   " 3078 309a;2 307b 3099; 307b 309a;17 3046 3099;a 309d 3099; 3088 308a;d 30ab 3099;2 30ad 3099",
   "2 30af 3099;2 30b1 3099;2 30b3 3099;2 30b5 3099;2 30b7 3099;2 30b9 3099;2 30bb 3099",
   "2 30bd 3099;2 30bf 3099;2 30c1 3099;3 30c4 3099;2 30c6 3099;2 30c8 3099;7 30cf 3099; 30cf 309a",
   "2 30d2 3099; 30d2 309a;2 30d5 3099; 30d5 309a;2 30d8 3099; 30d8 309a;2 30db 3099; 30db 309a",
   "17 30a6 3099;3 30ef 3099; 30f0 3099; 30f1 3099; 30f2 3099;4 30fd 3099; 30b3 30c8;32-1 1100",
   " 11aa; 1102;-1 11ac;-2 1103;-5 11b0; 111a;-2 1106; 1121;-9 1109;-14 1161; 1160;-1 1114;-1 11c7",
   " 11cc; 11ce; 11d3; 11d7; 11d9; 111c; 11dd; 11df;-1 111d; 1120;-1 1122; 1127; 1129;-4 112b",
   " 1132; 1136; 1140; 1147; 114c;-1 11f1;-2 1157;-1 1184; 1188;-1 1191; 1194; 119e; 11a1;750e 44a",
   " 44c;d3 a76f;82 43; 46; 51;4 126; 153;363 a727; ab37; 26b; ab52;a 28d;4f97 66 66; 66 69; 66 6c",
   " 66 66 69; 66 66 6c; 73 74; 73 74;d 574 576; 574 565; 574 56b; 57e 576; 574 56d;6 5d9 5b4",
   "2 5f2 5b7; 5e2; 5d0;-1 5d3;-2 5db; 5e8; 5ea;2 5e9 5c1; 5e9 5c2; 5e9 5bc 5c1; 5e9 5bc 5c2",
   " 5d0 5b7; 5d0 5b8; 5d0 5bc; 5d1 5bc; 5d2 5bc; 5d3 5bc; 5d4 5bc; 5d5 5bc; 5d6 5bc;2 5d8 5bc",
   " 5d9 5bc; 5da 5bc; 5db 5bc; 5dc 5bc;2 5de 5bc;2 5e0 5bc; 5e1 5bc;2 5e3 5bc; 5e4 5bc;2 5e6 5bc",
   " 5e7 5bc; 5e8 5bc; 5e9 5bc; 5ea 5bc; 5d5 5b9; 5d1 5bf; 5db 5bf; 5e4 5bf; 5d0 5dc;2e4 5f; 5f",
   "19 5f; 5f; 5f;c1-9 30;8-19 41;5 5f;2-19 61;c 30f2; 30a1; 30a3; 30a5; 30a7; 30a9; 30e3; 30e5",
   " 30e7; 30c3; 30fc; 30a2; 30a4; 30a6; 30a8;-1 30aa; 30ad; 30af; 30b1; 30b3; 30b5; 30b7; 30b9",
   " 30bb; 30bd; 30bf; 30c1; 30c4; 30c6; 30c8;-5 30ca; 30d2; 30d5; 30d8; 30db;-4 30de; 30e4; 30e6",
   "-5 30e8; 30ef; 30f3;-1 3099; 1160;-1 1100; 11aa; 1102;-1 11ac;-2 1103;-5 11b0; 111a;-2 1106",
   " 1121;-9 1109;4-5 1161;3-5 1167;3-5 116d;3-2 1173;7a5-1 2d0; e6; 299; 253;2 2a3; ab66; 2a5",
   " 2a4;-1 256; 1d91; 258; 25e; 2a9; 264; 262; 260; 29b; 127; 29c; 267; 284;-1 2aa; 26c; 1df04",
   " a78e; 26e; 1df05; 28e; 1df06; f8;-1 276; 71; 27a; 1df08;-1 27d; 280; 2a8; 2a6; ab67; 2a7; 288",
   " 2c71;2 28f;-1 2a1; 298;-2 1c0; 1df0a; 1df1e;8e0 11099 110ba;2 1109b 110ba;f 110a5 110ba",
   "83 11131 11127; 11132 11127;21c 11347 1133e; 11347 11357;16f 114b9 114ba; 114b9 114b0",
   "2 114b9 114bd;fc 115b8 115af; 115b9 115af;37d 11935 11930;bac8-19 41;-19 61;-19 41;-6 61",
   "2-11 69;-19 41;-19 61; 41;2-1 43;3 47;3-1 4a;3-3 4e;2-7 53;-3 61;2 66;2-6 68;2-a 70;-19 41",
   "-19 61;-1 41;2-3 44;3-7 4a;2-6 53;2-19 61;-1 41;2-3 44;2-4 49;2 4f;4-6 53;2-19 61;-19 41",
   "-19 61;-19 41;-19 61;-19 41;-19 61;-19 41;-19 61;-19 41;-19 61;-19 41;-19 61; 131; 237",
   "3-10 391; 398;-6 3a3;2-18 3b1;2 3b5; 3b8; 3ba; 3c6; 3c1; 3c0;-10 391; 398;-6 3a3;2-18 3b1",
   "2 3b5; 3b8; 3ba; 3c6; 3c1; 3c0;-10 391; 398;-6 3a3;2-18 3b1;2 3b5; 3b8; 3ba; 3c6; 3c1; 3c0",
   "-10 391; 398;-6 3a3;2-18 3b1;2 3b5; 3b8; 3ba; 3c6; 3c1; 3c0;-10 391; 398;-6 3a3;2-18 3b1;2 3b5",
   " 3b8; 3ba; 3c6; 3c1; 3c0;-1 3dc;3-9 30;-9 30;-9 30;-9 30;-9 30;23f1-9 30"]

end Protobind.Text
