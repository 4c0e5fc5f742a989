import Protobind.Script.Token

/-!
# Templates

A template has holes in curly brackets. A hole holds the source of an expression and may say how its
value becomes a text: by an equals sign that the source is shown too, by a letter how the value is
converted, and by a layout, which may have holes itself. Outside of layouts a doubled bracket stands
for itself.
-/

namespace Protobind.Template

/-- A part of a template. -/
inductive Piece where
  | text (value : String)
  | unknown
  | hole (source : String) (conversion? : Option Char) (layout? : Option (List Piece))

def isBracket (c : Char) : Bool := c == '\x7b' || c == '\x7d'

def literal (isRaw inLayout : Bool) : Nat → List Char → List Char × List Char
  | 0, cs => ([], cs)
  | _, [] => ([], [])
  | fuel + 1, c :: cs =>
    let next (taken rest : List Char) : List Char × List Char :=
      let (more, rest) := literal isRaw inLayout fuel rest
      (taken ++ more, rest)
    if isBracket c then
      if !inLayout && cs.head? == some c then next [c] (cs.drop 1) else ([], c :: cs)
    else
      match c, isRaw, cs with
      | '\\', false, 'N' :: '\x7b' :: rest =>
        let name := rest.takeWhile (· != '\x7d')
        next (['\\', 'N', '\x7b'] ++ name ++ (rest.drop name.length).take 1)
          (rest.drop (name.length + 1))
      | '\\', false, d :: rest => if isBracket d then next [c, c] (d :: rest) else next [c, d] rest
      | _, _, _ => next [c] cs

def closing (c : Char) : Char :=
  if c == '(' then ')' else if c == '[' then ']' else '\x7d'

/-- The characters of the expression in a hole, behind those that are given in reverse, in at most
`fuel` steps. -/
def expressionChars? (quote brackets before : List Char) :
    Nat → List Char → Option (List Char × List Char)
  | 0, _ => none
  | _, [] => none
  | fuel + 1, c :: cs =>
    if c == '\\' then none
    else if !quote.isEmpty then
      if quote.isPrefixOf (c :: cs) then
        expressionChars? [] brackets (quote ++ before) fuel ((c :: cs).drop quote.length)
      else expressionChars? quote brackets (c :: before) fuel cs
    else if Token.isQuote c then
      let quote := if [c, c].isPrefixOf cs then [c, c, c] else [c]
      expressionChars? quote brackets (quote ++ before) fuel ((c :: cs).drop quote.length)
    else if c == '(' || c == '[' || c == '\x7b' then
      expressionChars? [] (closing c :: brackets) (c :: before) fuel cs
    else if c == '#' then none
    else if brackets.isEmpty && ['!', '=', '<', '>'].contains c && cs.head? == some '=' then
      expressionChars? [] [] ('=' :: c :: before) fuel (cs.drop 1)
    else if brackets.isEmpty && ['!', ':', '\x7d', '='].contains c then
      some (before.reverse, c :: cs)
    else if c == ')' || c == ']' || c == '\x7d' then
      if brackets.head? == some c then
        expressionChars? [] (brackets.drop 1) (c :: before) fuel cs
      else none
    else expressionChars? [] brackets (c :: before) fuel cs

def conversion? : List Char → Option (Option Char × List Char)
  | '!' :: c :: rest =>
    if ['s', 'r', 'a'].contains c && ((rest.head?.map fun c => c == ':' || c == '\x7d').getD false)
    then some (some c, rest)
    else none
  | '!' :: _ => none
  | rest => some (none, rest)

def maxNesting : Nat := 2

def pieces? (isRaw : Bool) : Nat → Nat → List Char → Option (List Piece × List Char)
  | 0, _, _ => none
  | fuel + 1, level, cs => do
    let (chars, rest) := literal isRaw (level != 0) cs.length cs
    let texts ← if chars.isEmpty then some []
      else
        match Token.ofChars? isRaw chars with
        | some (.text s) => some [Piece.text s]
        | some _ => some [Piece.unknown]
        | none => none
    match rest with
    | [] => if level = 0 then some (texts, []) else none
    | '\x7b' :: rest =>
      if maxNesting ≤ level then none
      let (source, rest) ← expressionChars? [] [] [] rest.length rest
      if source.all Text.isBlank then none
      let (shown, rest) := match rest with
        | '=' :: rest =>
          let gap := rest.takeWhile Text.isBlank
          (source ++ ['='] ++ gap, rest.drop gap.length)
        | rest => ([], rest)
      let (conversion?, rest) ← conversion? rest
      let (layout?, rest) ← match rest with
        | ':' :: rest => (pieces? isRaw fuel (level + 1) rest).map fun (l, rest) => (some l, rest)
        | rest => some (none, rest)
      match rest with
      | '\x7d' :: rest =>
        let conversion? :=
          if conversion?.isNone && layout?.isNone && !shown.isEmpty then some 'r' else conversion?
        let hole := Piece.hole (String.ofList source) conversion? layout?
        let (more, rest) ← pieces? isRaw fuel level rest
        let label := if shown.isEmpty then [] else [Piece.text (String.ofList shown)]
        some (texts ++ label ++ hole :: more, rest)
      | _ => none
    | rest => if level = 0 then none else some (texts, rest)

def ofBody? (isRaw : Bool) (body : String) : Option (List Piece) :=
  (pieces? isRaw (body.length + 1) 0 body.toList).map (·.1)

end Protobind.Template
