import Protobind.Text.CodeTable

/-!
# Digits

The runs of ten characters that spell decimal numbers, and the other characters with a digit value.
-/

namespace Protobind.Text

/-- The decimal digits outside ASCII: each range is made of runs of ten, `0` first. -/
def nonAsciiDecimal : CodeTable := .ofRows
  ["660-9;87-9;c7-9;19d-9;77-9;77-9;77-9;77-9;77-9;77-9;77-9;77-9;77-9;61-9;77-9;47-9;117-9;47-9",
   "747-9;27-9;12d-9;81-9;a7-9;7-9;b7-9;57-9;87-9;7-9;89c7-9;2a7-9;27-9;c7-9;17-9;57-9;197-9",
   "5317-9;587-9;887-9;32d-9;81-9;3d-9;91-9;117-9;157-9;77-9;177-9;67-9;67-9;1a7-9;67-9;2f7-9;f7-9",
   "47-9;4cb7-9;57-9;87-9;6c75-31;941-9;1a7-9;657-9;1297-9"]

def otherDigit : CodeTable := .ofRows
  ["b2-1;6;12b0-8;669;696;4-5;7-9;3d7-8;c-8;c-8;5a;b-8;2;277-8;2-8;2-8;e2ae-3;41d-8;1ea-8;e0a6-a"]

end Protobind.Text
