import Protobind.Text.CodeTable

/-!
# Compositions

Most compositions undo a decomposition; the tables here hold what the decompositions do not tell.
-/

namespace Protobind.Text

def neverComposed : CodeTable := .ofRows
  ["132-1;c-1;9;7b-8;25-2;151;243;ee-3;2e0-7;7d-82;fe-1;2d6-186;1172-50;f24;60-cdfd"]

/-- Pairs of code points outside identifiers: the first, the second, and what they are composed
to. -/
def compositions : CodeTable := .ofRows
  ["3c 338 226e; 338 2260; 338 226f;6a 300 1fed;0 301 385;0 342 1fc1;1f17 300 1fcd;0 301 1fce",
   "0 342 1fcf;3f 300 1fdd;0 301 1fde;0 342 1fdf;192 338 219a;2 338 219b;2 338 21ae;3c 338 21cd",
   "2 338 21cf;2 338 21ce;2f 338 2204;5 338 2209;3 338 220c;18 338 2224;2 338 2226;17 338 2241",
   "7 338 2244;2 338 2247;3 338 2249;5 338 226d;14 338 2262;3 338 2270; 338 2271;d 338 2274",
   " 338 2275;3 338 2278; 338 2279;3 338 2280; 338 2281; 338 22e0; 338 22e1;5 338 2284; 338 2285",
   "3 338 2288; 338 2289;a 338 22e2; 338 22e3;10 338 22ac;6 338 22ad; 338 22ae;2 338 22af",
   "7 338 22ea; 338 22eb; 338 22ec; 338 22ed"]

end Protobind.Text
