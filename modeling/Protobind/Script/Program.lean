import Protobind.Script.Instruction
import Protobind.Script.Grammar

/-!
# The grammar of programs

Instructions stand on lines of their own or behind semicolons. A block stands on the same line, or
deeper on the following ones. What is in loops, trials and cases is not looked at.
-/

namespace Protobind

/-- The reader of blocks. -/
abbrev BlockReader := Parse (List Instruction)

/-- A program, and whether it can be compiled. -/
structure Program where
  instructions : List Instruction
  compiles : Bool

namespace Instruction

open Parse Expression

/-! ## Values and targets -/

def atEnd : Parse Bool := do
  match ← peek with
  | none | some .lineEnd | some (.mark ";") | some (.mark "=") | some (.mark ":") => pure true
  | _ => pure false

def rowOf (item : Parse Expression) : Parse Expression := do
  let first ← item
  if ← isNext (.mark ",") then
    let rest ← all (do
      if ← accept (.mark ",") then
        if ← atEnd then pure none else pure (some (← item))
      else pure none)
    pure (.collection .row (first :: rest))
  else
    require !first.isStarred
    pure first

def value : Parse Expression := do
  if ← isNext (.keyword "yield") then yielded ofTokens
  else
    rowOf (do
      if ← accept (.mark "*") then pure (.starred (← ofTokens (.signs 0)))
      else ofTokens .expression)

def condition : Parse Expression := naming ofTokens

def checkTarget (target : Expression) : Parse Unit := do
  if !target.isTarget then failure
  require (!target.binds constantName && target.hasFewStars)

def updateSign? : Token → Option BinarySign
  | .mark m =>
    match m with
    | "+=" => some .plus
    | "-=" => some .minus
    | "*=" => some .times
    | "/=" => some .divide
    | "//=" => some .floorDivide
    | "%=" => some .modulo
    | "@=" => some .product
    | "&=" => some .and
    | "|=" => some .or
    | "^=" => some .xor
    | ">>=" => some .shiftRight
    | "<<=" => some .shiftLeft
    | "**=" => some .power
    | _ => none
  | _ => none

def assignment : Parse Instruction := do
  let first ← value
  match (← peek).bind updateSign? with
  | some sign =>
    skip
    if !first.isSingleTarget then failure
    require (!first.binds constantName)
    pure (.update first sign (← value))
  | none =>
    if ← accept (.mark ":") then
      if !first.isSingleTarget then failure
      require (!first.binds constantName)
      let note ← ofTokens .expression
      let value? ← if ← accept (.mark "=") then do pure (some (← value)) else pure none
      pure (.declare first note value?)
    else
      let rest ← all (do if ← accept (.mark "=") then pure (some (← value)) else pure none)
      match rest.getLast? with
      | none => pure (.evaluate first)
      | some last =>
        let targets := first :: rest.dropLast
        targets.forM checkTarget
        pure (.assign targets last)

/-! ## Instructions on one line -/

def path : Parse (List String) := do
  let first ← word
  let rest ← all (do if ← accept (.mark ".") then pure (some (← word)) else pure none)
  pure (first :: rest)

def alias? : Parse (Option String) := do
  if ← accept (.keyword "as") then do pure (some (← word)) else pure none

def several {α : Type} (item : Parse α) : Parse (List α) := do
  let first ← item
  let rest ← all (do if ← accept (.mark ",") then pure (some (← item)) else pure none)
  pure (first :: rest)

def imports : Parse Unit := do
  let _ ← several (do
    let path ← path
    let alias? ← alias?
    require ((alias?.getD (path.headD "")) != constantName))

def importedName : Parse Unit := do
  let name ← word
  let alias? ← alias?
  require ((alias?.getD name) != constantName)

def levels : Parse Nat := do
  let points ← all (do
    if ← accept (.mark ".") then pure (some 1)
    else if ← accept (.mark "...") then pure (some 3)
    else pure none)
  pure (points.foldl (· + ·) 0)

def importFrom : Parse Unit := do
  let level ← levels
  let path ← if level ≠ 0 && (← isNext (.keyword "import")) then pure [] else path
  expect (.keyword "import")
  -- What a program expects of its language it has to tell in front of all else.
  require (path != ["__future__"])
  if ← accept (.mark "*") then pure ()
  else if ← accept (.mark "(") then
    importedName
    let _ ← restOf importedName ")"
  else
    let _ ← several importedName

def deletion : Parse Instruction := do
  let target ← rowOf (ofTokens (.signs 0))
  if !target.isDeletable then failure
  require (!target.binds constantName)
  pure (.delete target)

def optionalValue : Parse (Option Expression) := do
  if ← atEnd then pure none else do pure (some (← value))

def ofKeyword (word : String) : Parse (List Instruction) := do
  match word with
  | "pass" => pure [.pass]
  | "break" => do
    require (← get).inLoop
    pure [.pass]
  | "continue" => do
    require (← get).inLoop
    pure [.pass]
  | "return" => do
    let r ← get
    require (r.inFunction && !r.inGroup)
    let value? ← optionalValue
    modify fun r => { r with answers := r.answers || value?.isSome }
    pure [.pass]
  | "raise" => do
    if !(← atEnd) then
      let _ ← ofTokens .expression
      if ← accept (.keyword "from") then
        let _ ← ofTokens .expression
    pure [.other]
  | "global" => do
    let _ ← several Parse.word
    pure [.pass]
  | "nonlocal" => do
    let _ ← several Parse.word
    require (← get).inFunction
    pure [.pass]
  | "del" => do pure [← deletion]
  | "assert" => do
    let _ ← ofTokens .expression
    if ← accept (.mark ",") then
      let _ ← ofTokens .expression
    pure [.other]
  | "import" => do
    imports
    pure [.other]
  | "from" => do
    importFrom
    pure [.other]
  | _ => failure

def lineWords : List String :=
  ["pass", "break", "continue", "return", "raise", "global", "nonlocal", "del", "assert", "import",
   "from"]

def simple : Parse (List Instruction) := do
  match ← peek with
  | some (.keyword w) =>
    if lineWords.contains w then
      skip
      ofKeyword w
    else do pure [← assignment]
  | _ => do pure [← assignment]

def line : Parse (List Instruction) := do
  let first ← simple
  let rest ← all (do
    if ← accept (.mark ";") then
      if ← isNext .lineEnd then pure none else pure (some (← simple))
    else pure none)
  expect .lineEnd
  pure (first ++ rest.flatten)

/-! ## Instructions with blocks -/

section

variable (instructions : BlockReader)

def block : Parse Unit := do
  expect (.mark ":")
  if ← accept .lineEnd then
    expect .deeper
    let body ← instructions
    if body.isEmpty then failure
    expect .shallower
  else
    let _ ← line

/-- Skips the rest of a line with the block behind it, in at most `fuel` steps; `depth` blocks are
open. -/
def skipBlock (depth : Nat) : Nat → Parse Unit
  | 0 => failure
  | fuel + 1 => do
    match ← peek with
    | none => failure
    | some token =>
      skip
      match token with
      | .deeper => skipBlock (depth + 1) fuel
      | .shallower => if depth ≤ 1 then pure () else skipBlock (depth - 1) fuel
      | .lineEnd => if depth = 0 && !(← isNext .deeper) then pure () else skipBlock depth fuel
      | _ => skipBlock depth fuel

def blockBehind (word : String) : Parse Bool := do
  if ← accept (.keyword word) then
    block instructions
    pure true
  else pure false

def branches : Nat → Parse Unit
  | 0 => failure
  | fuel + 1 => do
    let _ ← condition
    block instructions
    if ← accept (.keyword "elif") then branches fuel
    else
      let _ ← blockBehind instructions "else"

/-! ### Definitions -/

def function : Parse Unit := do
  let name ← word
  require (name != constantName)
  expect (.mark "(")
  let _ ← parameters ofTokens true ")"
  if ← accept (.mark "->") then
    let _ ← ofTokens .expression
  let _ ← inside false (block instructions)

def classOf : Parse Unit := do
  let name ← word
  require (name != constantName)
  if ← accept (.mark "(") then
    let _ ← arguments ofTokens false
  let start (r : Reading) : Reading :=
    { r with inFunction := false, mayWait := false, waiting := 0 }
  apart start do
    block instructions
    require ((← get).waiting == 0)

def ofBlockWord? (word : String) : Option (Parse Unit) :=
  match word with
  | "if" => some (do branches instructions (← get).fuel)
  | "while" | "for" | "try" | "except" | "finally" | "with" | "async" =>
    some (do skipBlock 0 (← get).fuel)
  | "def" => some (function instructions)
  | "class" => some (classOf instructions)
  | _ => none

def next : Parse (Option (List Instruction)) := do
  match ← peek with
  | none | some .shallower => pure none
  | some (.keyword w) =>
    match ofBlockWord? instructions w with
    | some read =>
      skip
      read
      pure (some [.other])
    | none => do pure (some (← line))
  | some (.word "match") =>
    -- The word is a name as well.
    let cases : Parse (List Instruction) := do
      skipBlock 0 (← get).fuel
      pure [.other]
    pure (some (← line <|> cases))
  | some _ => do pure (some (← line))

end

def ofBlock : Nat → BlockReader
  | 0 => failure
  | fuel + 1 => do pure (← all (next (ofBlock fuel))).flatten

def maxBlocks : Nat := 100

end Instruction

def Program.ofChars? (source : List Char) : Option Program := do
  let tokens ← Token.ofSource? source
  let (instructions, rest) ← (Instruction.ofBlock Instruction.maxBlocks).run (Parse.start tokens)
  if rest.tokens.isEmpty then
    pure { instructions, compiles := rest.compiles && rest.waiting == 0 }
  else none

def Program.ofSource? (source : String) : Option Program := ofChars? source.toList

end Protobind
