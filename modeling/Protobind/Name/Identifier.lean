import Protobind.Text.Lines
import Protobind.Text.Normal

/-!
# Identifiers

Names as the generated modules may use them.
-/

namespace Protobind.Name

def keywords : List String :=
  ["False", "None", "True", "and", "as", "assert", "async", "await", "break", "class", "continue",
   "def", "del", "elif", "else", "except", "finally", "for", "from", "global", "if", "import", "in",
   "is", "lambda", "nonlocal", "not", "or", "pass", "raise", "return", "try", "while", "with",
   "yield"]

def isKeyword (s : String) : Bool := keywords.contains s

def spellsIdentifier : List Char → Bool
  | [] => false
  | c :: cs => Text.isIdentifierStart c && cs.all Text.isIdentifierContinue

def isGap (c : Char) : Bool := c == ' ' || c == '\t' || c == '\x0c'

def withoutGaps (cs : List Char) : String :=
  String.ofList (Text.dropEndWhile isGap (cs.dropWhile isGap))

def normal (s : String) : String := Text.normalForm (withoutGaps s.toList)

def escapeKeyword (s : String) : String := if isKeyword s then "_" ++ s else s

def escapeDigit (s : String) : String :=
  match s.toList with
  | c :: _ => if Text.isDigitLike c then "_" ++ s else s
  | [] => s

/-- Maps any name to an identifier: what is neither letter nor number becomes an underscore, and
keywords and leading digits get one in front. -/
def clean (name : String) : String :=
  escapeDigit <| escapeKeyword <|
    String.ofList (name.toList.map fun c => if Text.isAlphanumeric c then c else '_')

def base (path : String) : String :=
  String.ofList (Text.beforeLast '.' (Text.afterLast '/' path.toList))

/-- The attribute that a name inside the body of a class stands for: a name that starts with two
underscores and does not end with two belongs to the class, and is spelled with the name of the
class in front. -/
def mangled (className name : String) : String :=
  let cs := name.toList
  let owner := className.toList.dropWhile (· == '_')
  if ['_', '_'].isPrefixOf cs && !(['_', '_'].isPrefixOf cs.reverse) && !owner.isEmpty then
    "_" ++ String.ofList owner ++ name
  else name

end Protobind.Name
