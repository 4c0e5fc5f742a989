/-!
# CamelCase

Names of the schema have underscores between words; those of classes are in CamelCase.
-/

namespace Protobind.Name

def isLower (c : Char) : Bool := 'a' ≤ c && c ≤ 'z'

def startsLower : List Char → Bool
  | [] => false
  | c :: _ => isLower c

/-- CamelCases the rest of a name. `inWord` says that a lower-case letter continues a word; a word
ends at a digit and at an underscore in front of a lower-case letter, which is dropped. -/
def camelFrom (inWord : Bool) : List Char → List Char
  | [] => []
  | c :: cs =>
    if isLower c then (if inWord then c else c.toUpper) :: camelFrom true cs
    else if c = '_' && startsLower cs then camelFrom false cs
    else c :: camelFrom (!c.isDigit) cs

/-- CamelCases the characters of a name. A leading underscore becomes `X`, so that the result starts
with a capital letter. -/
def camelChars : List Char → List Char
  | '_' :: cs => 'X' :: camelFrom false cs
  | cs => camelFrom false cs

def camel (name : String) : String := String.ofList (camelChars name.toList)

def camelPath (parts : List String) : String := String.intercalate "_" (parts.map camel)

end Protobind.Name
