/-!
# Names of characters

The Unicode names of the characters of ASCII. Those of letters and digits are made from the
character; the others are listed, with the further names of the control characters.
-/

namespace Protobind.Text

namespace CharName

def digits : List String :=
  ["ZERO", "ONE", "TWO", "THREE", "FOUR", "FIVE", "SIX", "SEVEN", "EIGHT", "NINE"]

def ofCode (code : Nat) : String :=
  let c := Char.ofNat code
  if c.isDigit then "DIGIT " ++ digits.getD (code - '0'.toNat) ""
  else if c.isUpper then "LATIN CAPITAL LETTER " ++ c.toString
  else if c.isLower then "LATIN SMALL LETTER " ++ c.toUpper.toString
  else ""

def listed : List (Nat × List String) :=
  [(0x0, ["NULL", "NUL"]), (0x1, ["START OF HEADING", "SOH"]), (0x2, ["START OF TEXT", "STX"]),
   (0x3, ["END OF TEXT", "ETX"]), (0x4, ["END OF TRANSMISSION", "EOT"]), (0x5, ["ENQUIRY", "ENQ"]),
   (0x6, ["ACKNOWLEDGE", "ACK"]), (0x7, ["ALERT", "BEL"]), (0x8, ["BACKSPACE", "BS"]),
   (0x9, ["CHARACTER TABULATION", "HORIZONTAL TABULATION", "HT", "TAB"]),
   (0xa, ["LINE FEED", "NEW LINE", "END OF LINE", "EOL", "LF", "NL"]),
   (0xb, ["LINE TABULATION", "VERTICAL TABULATION", "VT"]), (0xc, ["FORM FEED", "FF"]),
   (0xd, ["CARRIAGE RETURN", "CR"]), (0xe, ["SHIFT OUT", "LOCKING-SHIFT ONE", "SO"]),
   (0xf, ["SHIFT IN", "LOCKING-SHIFT ZERO", "SI"]), (0x10, ["DATA LINK ESCAPE", "DLE"]),
   (0x11, ["DEVICE CONTROL ONE", "DC1"]), (0x12, ["DEVICE CONTROL TWO", "DC2"]),
   (0x13, ["DEVICE CONTROL THREE", "DC3"]), (0x14, ["DEVICE CONTROL FOUR", "DC4"]),
   (0x15, ["NEGATIVE ACKNOWLEDGE", "NAK"]), (0x16, ["SYNCHRONOUS IDLE", "SYN"]),
   (0x17, ["END OF TRANSMISSION BLOCK", "ETB"]), (0x18, ["CANCEL", "CAN"]),
   (0x19, ["END OF MEDIUM", "EOM"]), (0x1a, ["SUBSTITUTE", "SUB"]), (0x1b, ["ESCAPE", "ESC"]),
   (0x1c, ["INFORMATION SEPARATOR FOUR", "FILE SEPARATOR", "FS"]),
   (0x1d, ["INFORMATION SEPARATOR THREE", "GROUP SEPARATOR", "GS"]),
   (0x1e, ["INFORMATION SEPARATOR TWO", "RECORD SEPARATOR", "RS"]),
   (0x1f, ["INFORMATION SEPARATOR ONE", "UNIT SEPARATOR", "US"]), (0x20, ["SPACE", "SP"]),
   (0x7f, ["DELETE", "DEL"]),
   (0x21, ["EXCLAMATION MARK"]), (0x22, ["QUOTATION MARK"]), (0x23, ["NUMBER SIGN"]),
   (0x24, ["DOLLAR SIGN"]), (0x25, ["PERCENT SIGN"]), (0x26, ["AMPERSAND"]), (0x27, ["APOSTROPHE"]),
   (0x28, ["LEFT PARENTHESIS"]), (0x29, ["RIGHT PARENTHESIS"]), (0x2a, ["ASTERISK"]),
   (0x2b, ["PLUS SIGN"]), (0x2c, ["COMMA"]), (0x2d, ["HYPHEN-MINUS"]), (0x2e, ["FULL STOP"]),
   (0x2f, ["SOLIDUS"]), (0x3a, ["COLON"]), (0x3b, ["SEMICOLON"]), (0x3c, ["LESS-THAN SIGN"]),
   (0x3d, ["EQUALS SIGN"]), (0x3e, ["GREATER-THAN SIGN"]), (0x3f, ["QUESTION MARK"]),
   (0x40, ["COMMERCIAL AT"]), (0x5b, ["LEFT SQUARE BRACKET"]), (0x5c, ["REVERSE SOLIDUS"]),
   (0x5d, ["RIGHT SQUARE BRACKET"]), (0x5e, ["CIRCUMFLEX ACCENT"]), (0x5f, ["LOW LINE"]),
   (0x60, ["GRAVE ACCENT"]), (0x7b, ["LEFT CURLY BRACKET"]), (0x7c, ["VERTICAL LINE"]),
   (0x7d, ["RIGHT CURLY BRACKET"]), (0x7e, ["TILDE"])]

end CharName

def codeNamed? (name : String) : Option Nat :=
  let name := String.ofList (name.toList.map Char.toUpper)
  if name.isEmpty then none
  else
    ((CharName.listed.find? fun (_, names) => names.contains name).map (·.1)).or
      ((List.range 128).find? fun code => CharName.ofCode code == name)

end Protobind.Text
