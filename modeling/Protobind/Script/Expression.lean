import Protobind.Number.Double
import Protobind.Wire.Bytes

/-!
# Expressions

The default of an integer field stands in the module as it stands in the schema, so what a module
mentions may be any expression.
-/

namespace Protobind

/-- A sign in front of an operand. -/
inductive UnarySign where
  | minus
  | plus
  | invert
  deriving DecidableEq

/-- A sign between operands. -/
inductive BinarySign where
  | or
  | xor
  | and
  | shiftLeft
  | shiftRight
  | plus
  | minus
  | times
  | divide
  | floorDivide
  | modulo
  | product
  | power
  deriving DecidableEq

def BinarySign.level : BinarySign → Nat
  | .or => 0
  | .xor => 1
  | .and => 2
  | .shiftLeft | .shiftRight => 3
  | .plus | .minus => 4
  | .times | .divide | .floorDivide | .modulo | .product => 5
  | .power => 6

/-- A sign that compares. -/
inductive ComparisonSign where
  | less
  | greater
  | atMost
  | atLeast
  | equal
  | unequal
  | within
  | outside
  | same
  | different
  deriving DecidableEq

/-- What elements are collected to. -/
inductive CollectionForm where
  | row
  | list
  | set
  | stream
  deriving DecidableEq

/-- How a parameter is given. -/
inductive ParameterForm where
  | placed
  | plain
  | named
  | rest
  | keywords
  deriving DecidableEq

/-- A parameter of a function. -/
structure Parameter (α : Type) where
  form : ParameterForm
  name : String
  default? : Option α := none

/-- An expression. -/
inductive Expression where
  | nothing
  | ellipsis
  | truth (value : Bool)
  | integer (value : Nat)
  | number (value : Double)
  | imaginary (value : Double)
  | text (value : String)
  | bytes (value : Bytes)
  | template (parts : List Expression)
  | hole (value : Expression) (conversion? : Option Char) (layout? : Option Expression)
  | hidden
  | name (name : String)
  | named (name : String) (value : Expression)
  /-- A function without a name. The names that are its `own` get their values inside of it. When it
  `hands` out values, it answers with them one by one. -/
  | function (params : List (Parameter Expression)) (own : List String) (hands : Bool)
      (body : Expression)
  | member (object : Expression) (name : String)
  | unary (sign : UnarySign) (operand : Expression)
  | binary (sign : BinarySign) (left right : Expression)
  | negation (operand : Expression)
  | both (left right : Expression)
  | either (left right : Expression)
  | comparison (first : Expression) (rest : List (ComparisonSign × Expression))
  | choice (test yes no : Expression)
  | starred (operand : Expression)
  | collection (form : CollectionForm) (items : List Expression)
  | dictionary (entries : List (Option Expression × Expression))
  | part (object key : Expression)
  | slice (lower? upper? step? : Option Expression)
  /-- A call; a keyword argument without a name stands for all entries of a dictionary. -/
  | call (function : Expression) (args : List Expression)
      (keywords : List (Option String × Expression))
  /-- The elements that an expression has for all values of some names. -/
  | comprehension (form : CollectionForm) (key? : Option Expression) (element : Expression)
      (clauses : List (Expression × Expression × List Expression))

namespace Expression

mutual

def isTarget : Expression → Bool
  | .name _ | .member .. | .part .. => true
  | .starred e => isTarget e
  | .collection form items => (form == .row || form == .list) && areTargets items
  | _ => false

def areTargets : List Expression → Bool
  | [] => true
  | e :: es => isTarget e && areTargets es

end

def isStarred : Expression → Bool
  | .starred _ => true
  | _ => false

mutual

def binds (name : String) : Expression → Bool
  | .name n => n == name
  | .member _ n => n == name
  | .starred e => binds name e
  | .collection _ items => anyBinds name items
  | _ => false

def anyBinds (name : String) : List Expression → Bool
  | [] => false
  | e :: es => binds name e || anyBinds name es

end

mutual

def hasFewStars : Expression → Bool
  | .starred e => hasFewStars e
  | .collection _ items => (items.filter isStarred).length ≤ 1 && allHaveFewStars items
  | _ => true

def allHaveFewStars : List Expression → Bool
  | [] => true
  | e :: es => hasFewStars e && allHaveFewStars es

end

mutual

def isDeletable : Expression → Bool
  | .name _ | .member .. | .part .. => true
  | .collection form items => (form == .row || form == .list) && areDeletable items
  | _ => false

def areDeletable : List Expression → Bool
  | [] => true
  | e :: es => isDeletable e && areDeletable es

end

def isSingleTarget : Expression → Bool
  | .name _ | .member .. | .part .. => true
  | _ => false

def name? : Expression → Option String
  | .name n => some n
  | _ => none

end Expression

end Protobind
