import Protobind.Text.Classes
import Protobind.Text.Composition
import Protobind.Text.Decomposition
import Protobind.Text.MarkClass

/-!
# The normal form of identifiers

Two spellings of an identifier are the same name when they have the same normal form: all characters
are decomposed, marks are put in the order of their classes, and what can be composed is composed
again. Ligatures and the like are decomposed for good. Korean syllables follow a rule.
-/

namespace Protobind.Text

/-! ## Syllables -/

namespace Syllable

def base : Nat := 0xac00
def leading : Nat := 0x1100
def vowel : Nat := 0x1161
def trailing : Nat := 0x11a7
def vowels : Nat := 21
def trailings : Nat := 28
def leadings : Nat := 19

def isSyllable (n : Nat) : Bool := base ≤ n && n < base + leadings * vowels * trailings

def parts (n : Nat) : List Nat :=
  let i := n - base
  [leading + i / (vowels * trailings), vowel + i % (vowels * trailings) / trailings] ++
    (if i % trailings = 0 then [] else [trailing + i % trailings])

/-- The syllable of a consonant and a vowel, or of a syllable and a trailing consonant. -/
def compose? (a b : Nat) : Option Nat :=
  if leading ≤ a && a < leading + leadings && vowel ≤ b && b < vowel + vowels then
    some (base + ((a - leading) * vowels + (b - vowel)) * trailings)
  else if isSyllable a && (a - base) % trailings = 0 &&
      trailing < b && b < trailing + trailings then
    some (a + (b - trailing))
  else none

end Syllable

/-! ## Decomposing and composing -/

def markClass (n : Nat) : Nat :=
  ((markGroups.find? fun (_, marks) => (marks.find? n).isSome).map (·.1)).getD 0

def CodeEntry.parts (e : CodeEntry) (i : Nat) : List Nat :=
  match e.values with
  | [] => []
  | [value] => [value + i]
  | letter :: marks => (letter + 32 * i) :: marks

def decompose (n : Nat) : List Nat :=
  if n < 128 then [n]
  else if Syllable.isSyllable n then Syllable.parts n
  else
    match decompositions.find? n with
    | none => [n]
    | some e => e.parts (n - e.first)

def insertMark (n : Nat) : List Nat → List Nat
  | [] => [n]
  | m :: rest => if markClass n < markClass m then m :: insertMark n rest else n :: m :: rest

def orderMarks (ns : List Nat) : List Nat :=
  let place (placed : List Nat) (n : Nat) : List Nat :=
    if markClass n = 0 then n :: placed else insertMark n placed
  (ns.foldl place []).reverse

/-- The character of a table that is decomposed into the given code points, but not for good. -/
def recompose? (ns : List Nat) : Option Nat :=
  decompositions.entries.findSome? fun e =>
    ((List.range (e.last + 1 - e.first)).find? fun i =>
      e.parts i == ns && (neverComposed.find? (e.first + i)).isNone).map (e.first + ·)

def compose? (a b : Nat) : Option Nat :=
  Syllable.compose? a b <|> recompose? (decompose a ++ [b]) <|>
    (compositions.entries.find? fun e => e.first = a && e.values.head? = some b).bind
      (·.values.getLast?)

/-- Composes what can be composed. `marks` are the marks behind the character `starter`, in reverse;
a mark reaches the character only past marks of lower classes. -/
def composeFrom (starter : Nat) (marks : List Nat) : List Nat → List Nat
  | [] => starter :: marks.reverse
  | n :: rest =>
    let reaches := match marks with
      | [] => true
      | m :: _ => decide (markClass m < markClass n)
    match if reaches then compose? starter n else none with
    | some composed => composeFrom composed marks rest
    | none =>
      if markClass n = 0 then starter :: marks.reverse ++ composeFrom n [] rest
      else composeFrom starter (n :: marks) rest

def composeAll (ns : List Nat) : List Nat :=
  ns.takeWhile (markClass · ≠ 0) ++
    (match ns.dropWhile (markClass · ≠ 0) with
    | [] => []
    | n :: rest => composeFrom n [] rest)

def normalForm (s : String) : String :=
  if s.toList.all isAscii then s
  else
    let ns := orderMarks (s.toList.flatMap fun c => decompose c.toNat)
    String.ofList ((composeAll ns).map Char.ofNat)

end Protobind.Text
