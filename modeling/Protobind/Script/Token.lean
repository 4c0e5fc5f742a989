import Protobind.Name.Identifier
import Protobind.Number.Reading
import Protobind.Text.CharName
import Protobind.Text.Escape
import Protobind.Text.Quoted

/-!
# Tokens

Gaps and comments separate tokens and are dropped. The end of a line and the depth of the next one
count only outside of brackets.
-/

namespace Protobind

/-- A token. -/
inductive Token where
  | word (text : String)
  | keyword (text : String)
  | integer (value : Nat)
  | number (value : Double)
  | imaginary (value : Double)
  | text (value : String)
  | bytes (value : Bytes)
  /-- A text with holes, as it stands between its quotation marks. -/
  | template (isRaw : Bool) (body : String)
  | hidden
  | mark (text : String)
  | lineEnd
  | deeper
  | shallower
  deriving DecidableEq

namespace Token

/-- Reads something from the front of a text. -/
abbrev Scan (α : Type) := List Char → Option (α × List Char)

/-! ## Numbers -/

def digits? (isDigit : Char → Bool) : Scan (List Char)
  | [] => some ([], [])
  | c :: rest =>
    if isDigit c then (digits? isDigit rest).map fun (ds, rest) => (c :: ds, rest)
    else if c == '_' then
      match rest with
      | [] => none
      | d :: _ => if isDigit d then digits? isDigit rest else none
    else some ([], c :: rest)

def followers : List (List Char) :=
  ["and", "else", "for", "if", "in", "is", "not", "or"].map String.toList

def mayFollow (rest : List Char) : Bool :=
  followers.any (·.isPrefixOf rest) ||
    match rest with
    | [] => true
    | c :: _ => !(Text.isIdentifierContinue c || 128 ≤ c.toNat)

def ending (imaginary? : Option Double) (token : Token) (rest : List Char) :
    Option (Token × List Char) :=
  let marked := rest.head? == some 'j' || rest.head? == some 'J'
  let (token, rest) := match imaginary?, marked with
    | some d, true => (.imaginary d, rest.drop 1)
    | _, _ => (token, rest)
  if mayFollow rest then some (token, rest) else none

/-- The exponent of a decimal number, with the letter in front; none when the letter starts a
keyword, and a failure when it starts anything else. -/
def exponent? : Scan (List Char)
  | [] => some ([], [])
  | e :: rest =>
    if e != 'e' && e != 'E' then some ([], e :: rest)
    else
      let (sign, digits) := match rest with
        | '+' :: digits => (['+'], digits)
        | '-' :: digits => (['-'], digits)
        | digits => ([], digits)
      if ((digits.head?.map Char.isDigit).getD false) then
        (digits? Char.isDigit digits).map fun (ds, rest) => (e :: sign ++ ds, rest)
      else if sign.isEmpty && mayFollow (e :: rest) then some ([], e :: rest)
      else none

def fraction? (whole : List Char) : Scan Token := fun cs => do
  let (places, rest) ← match cs with
    | '.' :: rest =>
      if ((rest.head?.map Char.isDigit).getD false) then
        (digits? Char.isDigit rest).map fun (ds, rest) => ('.' :: ds, rest)
      else some (['.'], rest)
    | cs => some ([], cs)
  let (exponent, rest) ← exponent? rest
  let value ← Numeral.fraction? false (whole ++ places ++ exponent)
  if places.isEmpty && exponent.isEmpty then
    -- A whole number has no needless zeros in front, unless it is an imaginary one.
    let plain := whole.all (· == '0') ||
      (whole.head? != some '0' && whole.length ≤ IntegerError.maxDigits)
    match ← ending (some value) (.integer ((Numeral.digitsValue? whole).getD 0)) rest with
    | (.integer n, rest) => if plain then pure (.integer n, rest) else none
    | other => pure other
  else ending (some value) (.number value) rest

def numeral? : Scan Token := fun cs =>
  let based? := match cs with
    | '0' :: sign :: rest => (Numeral.baseOfMark? sign).map fun base => (base, rest)
    | _ => none
  match based? with
  | some (base, rest) => do
    let (ds, rest) ← digits? (fun c => (Numeral.digitValue? base c).isSome) rest
    let n ← Numeral.valueIn? base ds
    ending none (.integer n) rest
  | none => do
    let (whole, rest) ← if cs.head? == some '.' then some ([], cs) else digits? Char.isDigit cs
    fraction? whole rest

def startsNumber : List Char → Bool
  | '.' :: c :: _ => c.isDigit
  | c :: _ => c.isDigit
  | [] => false

/-! ## Texts -/

/-- What the letters in front of a quoted text say. -/
structure Quotation where
  isRaw : Bool := false
  isBytes : Bool := false
  isTemplate : Bool := false

def quotation? (letters : List Char) : Option Quotation :=
  match String.ofList (letters.map Char.toLower) with
  | "" | "u" => some {}
  | "r" => some { isRaw := true }
  | "b" => some { isBytes := true }
  | "br" | "rb" => some { isRaw := true, isBytes := true }
  | "f" => some { isTemplate := true }
  | "fr" | "rf" => some { isRaw := true, isTemplate := true }
  | _ => none

def isQuote (c : Char) : Bool := c == Text.singleQuote || c == Text.doubleQuote

def quoted? (closing : List Char) (before : List Char) : Scan (List Char)
  | [] => none
  | '\\' :: c :: rest => quoted? closing (c :: '\\' :: before) rest
  | c :: rest =>
    if closing.isPrefixOf (c :: rest) then
      some (before.reverse, (c :: rest).drop closing.length)
    else if closing.length = 1 && c == '\n' then none
    else quoted? closing (c :: before) rest

def hexNumber? (count : Nat) : Scan Nat := fun cs =>
  let ds := cs.take count
  if ds.length = count then do
    pure (← ds.foldlM (fun n c => (Text.hexValue? c).map (16 * n + ·)) 0, cs.drop count)
  else none

/-- What an escape stands for. -/
inductive Escape where
  | code (number : Nat)
  | dropped
  | plain

def byName? : Scan Escape
  | '\x7b' :: rest =>
    match Text.cutAt? '\x7d' rest with
    | some (name, rest) => (Text.codeNamed? (String.ofList name)).map fun n => (.code n, rest)
    | none => none
  | _ => none

def escape? (isBytes : Bool) : Scan Escape
  | [] => none
  | c :: rest =>
    if c == '\n' then some (.dropped, rest)
    else if (Text.octalValue? c).isSome then
      let ds := Text.octalRun 3 (c :: rest)
      some (.code (Text.octalNumber ds), (c :: rest).drop ds.length)
    else
      match c, isBytes with
      | 'x', _ => (hexNumber? 2 rest).map fun (n, rest) => (.code n, rest)
      | 'u', false => (hexNumber? 4 rest).map fun (n, rest) => (.code n, rest)
      | 'U', false => (hexNumber? 8 rest).map fun (n, rest) => (.code n, rest)
      | 'N', false => byName? rest
      | '?', _ => some (.plain, c :: rest)
      | _, _ =>
        match Text.simpleEscape? c with
        | some b => some (.code b.toNat, rest)
        | none => some (.plain, c :: rest)

def codes? (isRaw isBytes : Bool) : Nat → List Char → Option (List Nat)
  | _, [] => some []
  | 0, _ :: _ => none
  | fuel + 1, c :: rest =>
    if c == '\\' && !isRaw then do
      let (e, rest) ← escape? isBytes rest
      let codes ← codes? isRaw isBytes fuel rest
      match e with
      | .code n => pure (n :: codes)
      | .dropped => pure codes
      | .plain => pure ('\\'.toNat :: codes)
    else if isBytes && 128 ≤ c.toNat then none
    else (codes? isRaw isBytes fuel rest).map (c.toNat :: ·)

/-- The character with a number; `none` where a number is of no character at all. -/
def charOf? (n : Nat) : Option (Option Char) :=
  if 1114112 ≤ n then none
  else if 55296 ≤ n && n < 57344 then some none
  else some (some (Char.ofNat n))

def ofChars? (isRaw : Bool) (body : List Char) : Option Token := do
  let codes ← codes? isRaw false body.length body
  let chars ← codes.mapM charOf?
  if chars.any Option.isNone then pure .hidden
  else pure (.text (String.ofList (chars.filterMap id)))

def ofBody? (q : Quotation) (body : List Char) : Option Token :=
  if q.isBytes then (codes? q.isRaw true body.length body).map fun codes =>
    .bytes (codes.map UInt8.ofNat)
  else if q.isTemplate then some (.template q.isRaw (String.ofList body))
  else ofChars? q.isRaw body

def quotedText? (q : Quotation) : Scan Token
  | [] => none
  | c :: rest => do
    let closing := if [c, c].isPrefixOf rest then [c, c, c] else [c]
    let (body, rest) ← quoted? closing [] ((c :: rest).drop closing.length)
    pure (← ofBody? q body, rest)

/-! ## Marks -/

def marks : List String :=
  ["**=", "//=", ">>=", "<<=", "...", "**", "//", ">>", "<<", "<=", ">=", "==", "!=", "->", "+=",
   "-=", "*=", "/=", "%=", "&=", "|=", "^=", "@=", ":=", "(", ")", "[", "]", "\x7b", "\x7d", ",",
   ":", ".", ";", "=", "<", ">", "+", "-", "*", "/", "%", "&", "|", "^", "~", "@"]

def markChars : List (List Char × String) := marks.map fun m => (m.toList, m)

def mark? : Scan String := fun cs =>
  (markChars.find? fun (m, _) => m.isPrefixOf cs).map fun (m, sign) => (sign, cs.drop m.length)

def maxBrackets : Nat := 200

/-- The largest number of depths that lines stand at, besides none. -/
def maxDepths : Nat := 99

def depthBehind (depth : Nat) (mark : String) : Nat :=
  if mark == "(" || mark == "[" || mark == "\x7b" then depth + 1
  else if mark == ")" || mark == "]" || mark == "\x7d" then depth - 1
  else depth

/-! ## The depth of lines -/

/-- The columns that a line starts at: with a tab up to the next multiple of eight, and with a tab
as a single column. -/
structure Indentation where
  column : Nat := 0
  narrow : Nat := 0
  deriving DecidableEq

def Indentation.ofLine (first : Nat) (i : Indentation) : List Char → Indentation × List Char
  | ' ' :: rest => Indentation.ofLine first ⟨i.column + 1, i.narrow + 1⟩ rest
  | '\t' :: rest => Indentation.ofLine first ⟨(i.column / 8 + 1) * 8, i.narrow + 1⟩ rest
  | '\x0c' :: rest => Indentation.ofLine first {} rest
  | '\\' :: '\n' :: c :: rest =>
    Indentation.ofLine (if first = 0 then i.column else first) i (c :: rest)
  | rest => (if first = 0 then i else ⟨first, first⟩, rest)

/-- The indentations of the blocks around. -/
abbrev Depths := List Indentation

def atDepth? (i : Indentation) (depths : Depths) : Option (List Token × Depths) :=
  let top := depths.headD {}
  if i.column = top.column then
    if i.narrow = top.narrow then some ([], depths) else none
  else if top.column < i.column then
    if top.narrow < i.narrow && depths.length < maxDepths then some ([.deeper], i :: depths)
    else none
  else
    let rest := depths.dropWhile fun d => i.column < d.column
    let dropped := depths.length - rest.length
    if rest.headD {} = i then some (List.replicate dropped .shallower, rest) else none

/-! ## Scanning -/

/-- The tokens so far, and where the scanner stands. -/
structure Scanner where
  found : List Token := []
  depth : Nat := 0
  depths : Depths := []
  atStart : Bool := true

def Scanner.push (s : Scanner) (token : Token) : Scanner := { s with found := token :: s.found }

def Scanner.finish (s : Scanner) : List Token :=
  let ended := if s.atStart then s.found else .lineEnd :: s.found
  (List.replicate s.depths.length Token.shallower ++ ended).reverse

def isBlankLine : List Char → Bool
  | [] => true
  | c :: _ => c == '#' || c == '\n'

def scan? : Nat → Scanner → List Char → Option Scanner
  | _, s, [] => some s
  | 0, _, _ :: _ => none
  | fuel + 1, s, c :: cs =>
    if s.atStart then
      let (indentation, rest) := Indentation.ofLine 0 {} (c :: cs)
      if isBlankLine rest then
        scan? fuel s ((rest.dropWhile (· != '\n')).drop 1)
      else
        match atDepth? indentation s.depths with
        | some (tokens, depths) =>
          scan? fuel { s with found := tokens ++ s.found, depths, atStart := false } rest
        | none => none
    else if c == '\n' then
      if s.depth ≠ 0 then scan? fuel s cs
      else scan? fuel { s.push .lineEnd with atStart := true } cs
    else if Name.isGap c then scan? fuel s cs
    else if c == '\\' && cs.head? == some '\n' then
      -- The line goes on behind its end.
      if (cs.drop 1).isEmpty then none else scan? fuel s (cs.drop 1)
    else if c == '#' then scan? fuel s (cs.dropWhile (· != '\n'))
    else if startsNumber (c :: cs) then
      (numeral? (c :: cs)).bind fun (token, rest) => scan? fuel (s.push token) rest
    else
      let letters := (c :: cs).takeWhile Text.isIdentifierContinue
      let rest := (c :: cs).drop letters.length
      match if (rest.head?.map isQuote).getD false then quotation? letters else none with
      | some q => (quotedText? q rest).bind fun (token, rest) => scan? fuel (s.push token) rest
      | none =>
        if Text.isIdentifierStart c then
          let spelling := String.ofList letters
          let token : Token :=
            if Name.isKeyword spelling then .keyword spelling
            else .word (Text.normalForm spelling)
          scan? fuel (s.push token) rest
        else
          (mark? (c :: cs)).bind fun (sign, rest) =>
            let depth := depthBehind s.depth sign
            if maxBrackets < depth then none
            else scan? fuel { s.push (.mark sign) with depth } rest

/-- A text in which every line ends in the same way, behind one that is given in reverse. -/
def withPlainBreaks (before : List Char) : List Char → List Char
  | [] => before.reverse
  | '\r' :: '\n' :: cs => withPlainBreaks ('\n' :: before) cs
  | '\r' :: cs => withPlainBreaks ('\n' :: before) cs
  | c :: cs => withPlainBreaks (c :: before) cs

def ofSource? (source : List Char) : Option (List Token) :=
  let cs := withPlainBreaks [] source
  -- Every step takes a character or starts a line.
  (scan? (2 * cs.length + 1) {} cs).map Scanner.finish

def ofPart? (source : String) : Option (List Token) :=
  let start : Scanner := { depth := 1, atStart := false }
  (scan? (2 * source.length + 1) start source.toList).map fun s => s.found.reverse

end Token

end Protobind
