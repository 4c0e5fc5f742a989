/-!
# Cutting text at separators
-/

namespace Protobind.Text

def splitOn (sep : Char) : List Char → List (List Char)
  | [] => [[]]
  | c :: cs =>
    if c = sep then [] :: splitOn sep cs
    else
      match splitOn sep cs with
      | [] => [[c]]
      | piece :: pieces => (c :: piece) :: pieces

def cutAt? (sep : Char) : List Char → Option (List Char × List Char)
  | [] => none
  | c :: cs =>
    if c = sep then some ([], cs) else (cutAt? sep cs).map fun (left, right) => (c :: left, right)

def afterLast (sep : Char) (cs : List Char) : List Char :=
  (cs.reverse.takeWhile (· ≠ sep)).reverse

def beforeLast (sep : Char) (cs : List Char) : List Char :=
  if sep ∈ cs then ((cs.reverse.dropWhile (· ≠ sep)).drop 1).reverse else cs

end Protobind.Text
