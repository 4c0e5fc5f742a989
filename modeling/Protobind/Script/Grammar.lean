import Protobind.Script.Expression
import Protobind.Script.Parse
import Protobind.Script.Template

/-!
# The grammar of expressions

Expressions are read level by level, from the level that binds least to the one that binds most.
-/

namespace Protobind

/-- A level of the grammar. -/
inductive GrammarLevel where
  | expression
  | disjunction
  | conjunction
  | inversion
  | comparison
  | signs (level : Nat)
  | signed
  | power
  deriving DecidableEq

/-- The readers of all levels. -/
abbrev LevelReader := GrammarLevel → Parse Expression

namespace Expression

open Parse

def signLevels : Nat := 6

def binarySign? : Token → Option BinarySign
  | .mark m =>
    match m with
    | "|" => some .or
    | "^" => some .xor
    | "&" => some .and
    | "<<" => some .shiftLeft
    | ">>" => some .shiftRight
    | "+" => some .plus
    | "-" => some .minus
    | "*" => some .times
    | "/" => some .divide
    | "//" => some .floorDivide
    | "%" => some .modulo
    | "@" => some .product
    | _ => none
  | _ => none

def unarySign? : Token → Option UnarySign
  | .mark "-" => some .minus
  | .mark "+" => some .plus
  | .mark "~" => some .invert
  | _ => none

def comparisonSign? : List Token → Option (ComparisonSign × List Token)
  | .keyword "in" :: rest => some (.within, rest)
  | .keyword "not" :: .keyword "in" :: rest => some (.outside, rest)
  | .keyword "is" :: .keyword "not" :: rest => some (.different, rest)
  | .keyword "is" :: rest => some (.same, rest)
  | .mark m :: rest =>
    match m with
    | "<" => some (.less, rest)
    | ">" => some (.greater, rest)
    | "<=" => some (.atMost, rest)
    | ">=" => some (.atLeast, rest)
    | "==" => some (.equal, rest)
    | "!=" => some (.unequal, rest)
    | _ => none
  | _ => none

def constantName : String := "__debug__"

/-! ## Parts of expressions -/

section

variable (read : LevelReader)

def naming : Parse Expression := do
  match (← get).tokens with
  | .word w :: .mark ":=" :: _ =>
    skip
    skip
    require (w != constantName && !(← get).inSource)
    modify fun r => { r with given := w :: r.given }
    pure (.named w (← read .expression))
  | _ => read .expression

def givesName : Parse Bool := do
  match (← get).tokens with
  | _ :: .mark ":=" :: _ => pure true
  | _ => pure false

def element : Parse Expression := do
  if ← accept (.mark "*") then pure (.starred (← read (.signs 0))) else naming read

/-- What stands behind the word that hands out a value, which only functions do. -/
def yielded : Parse Expression := do
  skip
  require (← get).inFunction
  modify fun r => { r with hands := r.hands + 1 }
  if ← accept (.keyword "from") then
    require !(← get).mayWait
    let _ ← read .expression
  else
    let item : Parse Expression := do
      if ← accept (.mark "*") then pure (.starred (← read (.signs 0))) else read .expression
    let atEnd : Parse Bool := do
      match ← peek with
      | none | some .lineEnd | some (.mark ")") | some (.mark "]") | some (.mark "\x7d")
      | some (.mark "=") | some (.mark ";") | some (.mark ":") => pure true
      | _ => pure false
    if !(← atEnd) then
      let first ← item
      if ← isNext (.mark ",") then
        let _ ← all (do
          if ← accept (.mark ",") then
            if ← atEnd then pure none else pure (some (← item))
          else pure none)
      else require !first.isStarred
  pure .hidden

def targets : Parse Expression := do
  let item : Parse Expression := do
    if ← accept (.mark "*") then pure (.starred (← read (.signs 0))) else read (.signs 0)
  let first ← item
  if ← isNext (.mark ",") then
    let rest ← all (do
      if ← accept (.mark ",") then
        if ← isNext (.keyword "in") then pure none else pure (some (← item))
      else pure none)
    pure (.collection .row (first :: rest))
  else
    require !first.isStarred
    pure first

def clause (form : CollectionForm) (isFirst : Bool) :
    Parse (Option (Expression × Expression × List Expression)) := do
  let waits ← accept (.keyword "async")
  if ← accept (.keyword "for") then
    if waits && form != .stream then wait
    let target ← targets read
    if !target.isTarget then failure
    expect (.keyword "in")
    let source ← source isFirst (read .disjunction)
    let conditions ← all (do
      if ← accept (.keyword "if") then pure (some (← read .disjunction)) else pure none)
    pure (some (target, source, conditions))
  else if waits then failure
  else pure none

def isClause : Parse Bool := do pure ((← isNext (.keyword "for")) || (← isNext (.keyword "async")))

/-- A comprehension behind its element, up to a closing mark; in front of the element, reading was
at `start`. -/
def comprehensionOf (form : CollectionForm) (start : Reading) (key? : Option Expression)
    (item : Expression) (closing : String) : Parse Expression := do
  if item.isStarred then failure
  let first? ← clause read form true
  let clauses := first?.toList ++ (← all (clause read form false))
  expect (.mark closing)
  let given := (← get).given
  let fresh := given.take (given.length - start.given.length)
  require !(fresh.any fun w => clauses.any fun (target, _) => target.binds w)
  let r ← get
  require (r.hands - start.hands == r.handsSources - start.handsSources)
  if form == .stream then
    modify fun r =>
      { r with waiting := start.waiting + (r.waitingSources - start.waitingSources) }
  pure (.comprehension form key? item clauses)

def parenthesised : Parse Expression := do
  if ← accept (.mark ")") then pure (.collection .row [])
  else if ← isNext (.keyword "yield") then
    let e ← yielded read
    expect (.mark ")")
    pure e
  else
    let start ← get
    let first ← element read
    if ← isClause then comprehensionOf read .stream start none first ")"
    else if ← accept (.mark ")") then
      if first.isStarred then failure else pure first
    else pure (.collection .row (first :: (← restOf (element read) ")")))

def listed : Parse Expression := do
  if ← accept (.mark "]") then pure (.collection .list [])
  else
    let start ← get
    let first ← element read
    if ← isClause then comprehensionOf read .list start none first "]"
    else pure (.collection .list (first :: (← restOf (element read) "]")))

def entry : Parse (Option Expression × Expression) := do
  if ← accept (.mark "**") then pure (none, ← read (.signs 0))
  else
    let key ← read .expression
    expect (.mark ":")
    pure (some key, ← read .expression)

def braced : Parse Expression := do
  if ← accept (.mark "\x7d") then pure (.dictionary [])
  else if ← isNext (.mark "**") then
    let first ← entry read
    pure (.dictionary (first :: (← restOf (entry read) "\x7d")))
  else
    let start ← get
    let giving ← givesName
    let first ← element read
    let isEntry ← if giving || first.isStarred then pure false else accept (.mark ":")
    if isEntry then
      let value ← read .expression
      if ← isClause then comprehensionOf read .set start (some first) value "\x7d"
      else pure (.dictionary ((some first, value) :: (← restOf (entry read) "\x7d")))
    else if ← isClause then comprehensionOf read .set start none first "\x7d"
    else pure (.collection .set (first :: (← restOf (element read) "\x7d")))

def bound : Parse (Option Expression) := do
  match ← peek with
  | some (.mark ":") | some (.mark ",") | some (.mark "]") => pure none
  | _ => pure (some (← read .expression))

def sliceOrKey : Parse Expression := do
  let giving ← givesName
  let key : Parse Expression := do
    if ← accept (.mark "*") then pure (.starred (← read .expression)) else naming read
  let lower? ← if ← isNext (.mark ":") then pure none else pure (some (← key))
  let plain := !giving && !((lower?.map isStarred).getD false)
  let isSlice ← if plain then accept (.mark ":") else pure false
  if isSlice then
    let upper? ← bound read
    let step? ← if ← accept (.mark ":") then bound read else pure none
    pure (.slice lower? upper? step?)
  else
    match lower? with
    | some key => pure key
    | none => failure

def keyOf : Parse Expression := do
  let first ← sliceOrKey read
  if ← accept (.mark "]") then
    pure (if first.isStarred then .collection .row [first] else first)
  else pure (.collection .row (first :: (← restOf (sliceOrKey read) "]")))

/-- An argument of a call. -/
inductive Argument where
  | positional (e : Expression)
  | keyword (name : String) (e : Expression)
  | merged (e : Expression)

def argument : Parse Argument := do
  match (← get).tokens with
  | .mark "*" :: _ => do
    skip
    pure (.positional (.starred (← read .expression)))
  | .mark "**" :: _ => do
    skip
    pure (.merged (← read .expression))
  | .word w :: .mark "=" :: _ => do
    skip
    skip
    require (w != constantName)
    pure (.keyword w (← read .expression))
  | _ => do pure (.positional (← naming read))

/-- Whether arguments stand in a possible order: those by position first, only those with a star
also behind keywords. -/
def ordered (keywords merged : Bool) : List Argument → Bool
  | [] => true
  | .positional e :: rest =>
    (if e.isStarred then !merged else !keywords && !merged) && ordered keywords merged rest
  | .keyword .. :: rest => ordered true merged rest
  | .merged _ :: rest => ordered keywords true rest

def arguments (collects : Bool) : Parse (List Expression × List (Option String × Expression)) := do
  if ← accept (.mark ")") then pure ([], [])
  else
    let start ← get
    let first ← argument read
    match first, ← isClause with
    | .positional e, true => do
      if !collects then failure
      pure ([← comprehensionOf read .stream start none e ")"], [])
    | _, _ =>
      let args := first :: (← restOf (argument read) ")")
      if !ordered false false args then failure
      let keywords : List (Option String × Expression) := args.filterMap fun
        | .keyword word e => some (some word, e)
        | .merged e => some (none, e)
        | .positional _ => none
      let words : List String := keywords.filterMap (·.1)
      require (decide words.Nodup)
      pure (args.filterMap fun | .positional e => some e | _ => none, keywords)

def trailer (e : Expression) : Parse (Option Expression) := do
  match (← get).tokens with
  | .mark "." :: .word w :: _ => do
    skip
    skip
    pure (some (.member e w))
  | .mark "(" :: _ => do
    skip
    let (args, keywords) ← arguments read true
    pure (some (.call e args keywords))
  | .mark "[" :: _ => do
    skip
    pure (some (.part e (← keyOf read)))
  | _ => pure none

def trailers : Nat → Expression → Parse Expression
  | 0, e => pure e
  | fuel + 1, e => do
    match ← trailer read e with
    | some e => trailers fuel e
    | none => pure e

/-! ## Texts -/

def textPart : Parse (Option Token) := do
  match ← peek with
  | some (.text s) => do
    skip
    pure (some (.text s))
  | some (.bytes bs) => do
    skip
    pure (some (.bytes bs))
  | some (.template isRaw body) => do
    skip
    pure (some (.template isRaw body))
  | some .hidden => do
    skip
    pure (some .hidden)
  | _ => pure none

mutual

def ofPiece (hole : String → Parse Expression) : Template.Piece → Parse Expression
  | .text s => pure (.text s)
  | .unknown => pure .hidden
  | .hole source conversion? none => do pure (.hole (← hole source) conversion? none)
  | .hole source conversion? (some layout) => do
    let value ← hole source
    pure (.hole value conversion? (some (.template (← ofPieces hole layout))))

def ofPieces (hole : String → Parse Expression) : List Template.Piece → Parse (List Expression)
  | [] => pure []
  | piece :: pieces => do
    let e ← ofPiece hole piece
    pure (e :: (← ofPieces hole pieces))

end

def holeOf (source : String) : Parse Expression := do
  let tokens := (← get).tokens
  match Token.ofPart? (String.ofList (Text.trim source.toList)) with
  | none => failure
  | some inner =>
    modify fun r => { r with tokens := inner ++ [.mark ")"] }
    let e ← parenthesised read
    if !(← get).tokens.isEmpty then failure
    modify fun r => { r with tokens }
    pure e

def textParts : List Token → Parse (List Expression)
  | [] => pure []
  | .text s :: rest => do pure (.text s :: (← textParts rest))
  | .template isRaw body :: rest => do
    match Template.ofBody? isRaw body with
    | none => failure
    | some pieces => do
      let parts ← ofPieces (holeOf read) pieces
      pure (parts ++ (← textParts rest))
  | _ :: rest => do pure (.hidden :: (← textParts rest))

def text? : Expression → Option String
  | .text s => some s
  | _ => none

def isHidden : Expression → Bool
  | .hidden => true
  | _ => false

def joined (parts : List Token) : Parse Expression := do
  let bytes := parts.filterMap fun | .bytes bs => some bs | _ => none
  if bytes.length = parts.length then pure (.bytes bytes.flatten)
  else if !bytes.isEmpty then failure
  else
    let parts ← textParts read parts
    let texts := parts.filterMap text?
    if parts.any isHidden then pure .hidden
    else if texts.length = parts.length then pure (.text (String.join texts))
    else pure (.template parts)

/-! ## Operands -/

def ofKeyword (word : String) : Parse Expression :=
  match word with
  | "True" => pure (.truth true)
  | "False" => pure (.truth false)
  | "None" => pure .nothing
  | _ => failure

def atom : Parse Expression := do
  let parts ← all textPart
  if !parts.isEmpty then joined read parts
  else
    match ← peek with
    | some token =>
      skip
      match token with
      | .integer n => pure (.integer n)
      | .number d => pure (.number d)
      | .imaginary d => pure (.imaginary d)
      | .word w => pure (.name w)
      | .keyword w => ofKeyword w
      | .mark "..." => pure .ellipsis
      | .mark "(" => parenthesised read
      | .mark "[" => listed read
      | .mark "\x7b" => braced read
      | _ => failure
    | none => failure

/-! ## Functions -/

/-- A part of a list of parameters. -/
inductive ParamToken where
  | plain (name : String) (default? : Option Expression)
  /-- Takes all arguments that are left; without a name it only ends those by position. -/
  | rest (name? : Option String)
  | keywords (name : String)
  | divider

def ParamToken.name? : ParamToken → Option String
  | .plain word _ => some word
  | .rest word? => word?
  | .keywords word => some word
  | .divider => none

def note (annotated starred : Bool) : Parse Unit := do
  let isNote ← if annotated then accept (.mark ":") else pure false
  if isNote then
    let isStar ← if starred then accept (.mark "*") else pure false
    let _ ← read (if isStar then .signs 0 else .expression)

def param (annotated : Bool) : Parse ParamToken := do
  if ← accept (.mark "/") then pure .divider
  else if ← accept (.mark "**") then
    let name ← word
    note read annotated false
    pure (.keywords name)
  else if ← accept (.mark "*") then
    match ← peek with
    | some (.word w) =>
      skip
      note read annotated true
      pure (.rest (some w))
    | _ => pure (.rest none)
  else
    let name ← word
    note read annotated false
    if ← accept (.mark "=") then pure (.plain name (some (← read .expression)))
    else pure (.plain name none)

def orderedParams (first divided defaults taken needsName : Bool) : List ParamToken → Bool
  | [] => !needsName
  | .divider :: rest =>
    !first && !divided && !taken && orderedParams false true defaults taken needsName rest
  | .plain _ default? :: rest =>
    (taken || default?.isSome || !defaults) &&
      orderedParams false divided (defaults || default?.isSome) taken false rest
  | .rest name? :: rest => !taken && orderedParams false divided defaults true name?.isNone rest
  | [.keywords ..] => !needsName
  | .keywords .. :: _ => false

def parametersOf (taken : Bool) (known : List (Parameter Expression)) :
    List ParamToken → List (Parameter Expression)
  | [] => known
  | .divider :: rest =>
    parametersOf taken (known.map fun p => { p with form := .placed }) rest
  | .plain word default? :: rest =>
    let form : ParameterForm := if taken then .named else .plain
    parametersOf taken (known ++ [{ form, name := word, default? }]) rest
  | .rest none :: rest => parametersOf true known rest
  | .rest (some word) :: rest =>
    parametersOf true (known ++ [{ form := .rest, name := word }]) rest
  | .keywords word :: rest =>
    parametersOf taken (known ++ [{ form := .keywords, name := word }]) rest

def parameters (annotated : Bool) (closing : String) : Parse (List (Parameter Expression)) := do
  let params ← if ← accept (.mark closing) then pure []
    else do
      let first ← param read annotated
      pure (first :: (← restOf (param read annotated) closing))
  if !orderedParams true false false false false params then failure
  let names := params.filterMap ParamToken.name?
  require (decide names.Nodup && !names.contains constantName)
  pure (parametersOf false [] params)

def anonymous : Parse Expression := do
  let params ← parameters read false ":"
  let (body, own, hands) ← inside false (read .expression)
  pure (.function params own hands body)

/-! ## Levels -/

def joinedBy (word : String) (join : Expression → Expression → Expression)
    (operand : GrammarLevel) : Parse Expression := do
  let first ← read operand
  let rest ← all (do
    if ← accept (.keyword word) then pure (some (← read operand)) else pure none)
  pure (rest.foldl join first)

def compared : Parse (Option (ComparisonSign × Expression)) := do
  match comparisonSign? (← get).tokens with
  | some (sign, rest) => do
    modify fun r => { r with tokens := rest }
    pure (some (sign, ← read (.signs 0)))
  | none => pure none

def signed (level : Nat) : Parse (Option (BinarySign × Expression)) := do
  match (← peek).bind binarySign? with
  | some sign =>
    if sign.level = level then
      skip
      pure (some (sign, ← read (.signs (level + 1))))
    else pure none
  | none => pure none

def ofLevel : GrammarLevel → Parse Expression
  | .expression => do
    if ← accept (.keyword "lambda") then anonymous read
    else
      let e ← read .disjunction
      if ← accept (.keyword "if") then
        let test ← read .disjunction
        expect (.keyword "else")
        pure (.choice test e (← read .expression))
      else pure e
  | .disjunction => joinedBy read "or" .either .conjunction
  | .conjunction => joinedBy read "and" .both .inversion
  | .inversion => do
    if ← accept (.keyword "not") then pure (.negation (← read .inversion)) else read .comparison
  | .comparison => do
    let first ← read (.signs 0)
    let rest ← all (compared read)
    pure (if rest.isEmpty then first else .comparison first rest)
  | .signs level => do
    if level < signLevels then
      let first ← read (.signs (level + 1))
      let rest ← all (signed read level)
      pure (rest.foldl (fun left (sign, right) => .binary sign left right) first)
    else read .signed
  | .signed => do
    match (← peek).bind unarySign? with
    | some sign =>
      skip
      pure (.unary sign (← read .signed))
    | none => read .power
  | .power => do
    let waits ← accept (.keyword "await")
    if waits then wait
    let operand ← atom read
    let base ← trailers read (← get).tokens.length operand
    let base := if waits then .hidden else base
    if ← accept (.mark "**") then pure (.binary .power base (← read .signed)) else pure base

end

def readLevel : Nat → LevelReader
  | 0, _ => failure
  | fuel + 1, level => ofLevel (readLevel fuel) level

def stepsPerToken : Nat := signLevels + 10

def ofTokens : LevelReader := fun level => do
  readLevel (stepsPerToken * (← get).fuel) level

def parse? (rename : String → String) (source : String) : Option Expression := do
  let tokens ← Token.ofPart? source
  let tokens := tokens.map fun
    | .word w => .word (rename w)
    | token => token
  let (e, rest) ← (ofTokens .expression).run (start tokens)
  if rest.tokens.isEmpty then pure e else none

end Expression

end Protobind
