import ImportResolution.Json

/-! Writing JSON text, on one line or indented by two blanks. -/
namespace ImportResolution.Json

def escapeChar (c : Char) : List Char :=
  if c = '"' then ['\\','"']
  else if c = '\\' then ['\\','\\']
  else if c = '\n' then ['\\','n']
  else if c = '\r' then ['\\','r']
  else if c = '\t' then ['\\','t']
  else if c.toNat = 8 then ['\\','b']
  else if c.toNat = 12 then ['\\','f']
  else if c.toNat < 0x20 then
    ['\\','u','0','0',Text.hexDigit (c.toNat / 16),Text.hexDigit (c.toNat % 16)]
  else [c]

def quoted (s : String) : String := "\"" ++ String.ofList (s.toList.flatMap escapeChar) ++ "\""

/-- Digits with the point `places` from the right, at least one digit on either side. -/
def pointed (digits : List Char) (places : Nat) : String :=
  let padded := List.replicate (places + 1 - digits.length) '0' ++ digits
  let whole := padded.take (padded.length - places)
  let fraction := padded.drop (padded.length - places)
  String.ofList (whole ++ '.' :: (if fraction.isEmpty then ['0'] else fraction))

def decimalText (mantissa exponent : Int) : String :=
  let digits := (toString mantissa.natAbs).toList
  let sign := if mantissa < 0 then "-" else ""
  if exponent ≥ 0 then sign ++ String.ofList (digits ++ List.replicate exponent.toNat '0') ++ ".0"
  else sign ++ pointed digits exponent.natAbs

def commaSeparated (xs : List String) : String := ",".intercalate xs

mutual

def compact : Json → String
  | null => "null"
  | bool b => if b then "true" else "false"
  | int n => toString n
  | decimal m e => decimalText m e
  | str s => quoted s
  | arr xs => "[" ++ commaSeparated (compactAll xs) ++ "]"
  | obj ms => "\x7b" ++ commaSeparated (compactMembers ms) ++ "\x7d"

def compactAll : List Json → List String
  | [] => []
  | x :: r => compact x :: compactAll r

def compactMembers : List (String × Json) → List String
  | [] => []
  | (k,v) :: r => (quoted k ++ ":" ++ compact v) :: compactMembers r

end

def lineBreak (indent : Nat) : String := String.ofList ('\n' :: List.replicate (2*indent) ' ')

/-- Items on lines of their own between brackets. -/
def block (opening closing : String) (indent : Nat) (items : List String) : String :=
  if items.isEmpty then opening ++ closing
  else
    opening ++ commaSeparated (items.map (lineBreak (indent+1) ++ ·)) ++ lineBreak indent ++ closing

mutual

def pretty (indent : Nat) : Json → String
  | null => "null"
  | bool b => if b then "true" else "false"
  | int n => toString n
  | decimal m e => decimalText m e
  | str s => quoted s
  | arr xs => block "[" "]" indent (prettyAll (indent+1) xs)
  | obj ms => block "\x7b" "\x7d" indent (prettyMembers (indent+1) ms)

def prettyAll (indent : Nat) : List Json → List String
  | [] => []
  | x :: r => pretty indent x :: prettyAll indent r

def prettyMembers (indent : Nat) : List (String × Json) → List String
  | [] => []
  | (k,v) :: r => (quoted k ++ ": " ++ pretty indent v) :: prettyMembers indent r

end

end ImportResolution.Json
