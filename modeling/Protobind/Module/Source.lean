import Protobind.Text.Lines

/-!
# Source text

A module is written as lines, each with a depth of indentation, unless it has no text.
-/

namespace Protobind

/-- A line and its depth. -/
structure Line where
  depth : Nat := 0
  text : String
  deriving DecidableEq

namespace Line

def indentWidth : Nat := 4

def render (l : Line) : String :=
  if l.text.isEmpty then "\n"
  else "".pushn ' ' (indentWidth * l.depth) ++ l.text ++ "\n"

end Line

namespace Source

def lines (texts : List String) : List Line := texts.map fun text => { text }

def block (ls : List Line) : List Line := ls.map fun l => { l with depth := l.depth + 1 }

def render (ls : List Line) : String := String.join (ls.map Line.render)

def chars (ls : List Line) : List Char := ls.flatMap fun l => l.render.toList

theorem toList_render (ls : List Line) : (render ls).toList = chars ls := by
  simp [render, chars, List.flatMap, Function.comp_def]

def dropBlank : List Char → List Char
  | ' ' :: cs => cs
  | cs => cs

def textLines (text : String) : List (List Char) :=
  Text.splitOn '\n' (Text.dropEndWhile (· == '\n') text.toList)

def comment (text : String) : List Line :=
  lines <| (textLines text).map fun cs =>
    String.ofList (Text.trimEnd ('#' :: ' ' :: dropBlank cs))

/-- A step of writing lines. -/
inductive Edit where
  | line (text : String)
  | lines (texts : List String)
  | comment (text : String)
  | enter
  /-- The following lines stand one level less deep. -/
  | leave
  deriving DecidableEq

/-- The text that a step appends at a depth, and the depth behind it. Only a level that was entered
can be left. -/
def Edit.apply : Nat → Edit → Option (String × Nat)
  | depth, .line text => some (Line.render { depth, text }, depth)
  | depth, .lines texts =>
    some (String.join (texts.map fun text => Line.render { depth, text }), depth)
  | depth, .comment text =>
    some (Source.render ((Source.comment text).map fun l => { l with depth }), depth)
  | depth, .enter => some ("", depth + 1)
  | 0, .leave => none
  | depth + 1, .leave => some ("", depth)

/-- The texts that steps append one after another, if no step leaves a level that was not
entered. -/
def Edit.run : Nat → List Edit → Option (List String)
  | _, [] => some []
  | depth, e :: es => do
    let (text, depth) ← e.apply depth
    pure (text :: (← Edit.run depth es))

end Source

end Protobind
