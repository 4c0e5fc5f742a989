import Protobind.Dictionary
import Protobind.Schema.Declaration

/-!
# Comments

Nothing but the text of a module depends on comments.
-/

namespace Protobind

/-- Comments by path. -/
abbrev Comments := Dictionary String String

/-- The comments of a file. The last of several for one path counts. -/
def FileDecl.comments (decl : FileDecl) : Comments :=
  Dictionary.ofPairs <| decl.locations.filterMap fun l =>
    l.comment?.map fun comment => (String.intercalate "," (l.path.map toString), comment)

/-- A file without its comments. -/
def FileDecl.bare (decl : FileDecl) : FileDecl := { decl with locations := [] }

namespace Comments

def packagePath : Nat := 2

def package? (comments : Comments) : Option String := comments.get? (toString packagePath)

def insert (c : String × String) : List (String × String) → List (String × String)
  | [] => [c]
  | d :: rest => if c.1 ≤ d.1 then c :: d :: rest else d :: insert c rest

def sorted (comments : Comments) : List (String × String) := comments.foldr insert []

end Comments

end Protobind
