import ImportResolution.Toml.Reader

/-! Writing TOML. Text takes the plainest quotes that hold it, and one of several lines starts on a line
of its own; a table writes its plain values first, then a section for each table in it. -/
namespace ImportResolution.Toml

/-- The longest run of `c`. -/
def longestRun (c : Char) (s : List Char) : Nat :=
  (s.foldl (fun best x => if x = c then (best.1+1,max best.2 (best.1+1)) else (0,best.2)) (0,0)).2

/-- A control character that only an escape can write; tab and line break have other ways. -/
def needsEscape (c : Char) : Bool :=
  c != '\t' && c != '\n' && (c.toNat < 0x20 || c.toNat = 0x7F)

def hexText (n : Nat) : List Char :=
  [Text.hexDigit (n/16 % 16),Text.hexDigit (n % 16)].map fun c =>
    if 'a' ≤ c then Char.ofNat (c.toNat - 32) else c

def escapeText (c : Char) : List Char :=
  if c = '\\' then ['\\','\\']
  else if c = '\t' then ['\\','t']
  else if c = '\n' then ['\\','n']
  else if c = '\r' then ['\\','r']
  else if c.toNat = 8 then ['\\','b']
  else if c.toNat = 12 then ['\\','f']
  else if needsEscape c then ['\\','u','0','0'] ++ hexText c.toNat
  else [c]

/-- Escaped text; `run` quotes stand before it, and one more than `most` in a row is escaped. -/
def escaped (long : Bool) (most run : Nat) : List Char → List Char
  | [] => []
  | '"' :: r =>
    if run < most then '"' :: escaped long most (run+1) r
    else '\\' :: '"' :: escaped long most 0 r
  | c :: r =>
    (if long && c = '\n' then [c] else escapeText c) ++
      escaped long most 0 r

def quoted (s : String) : String :=
  let cs := s.toList
  let controls := cs.any needsEscape
  let breaks := cs.contains '\n'
  let doubles := longestRun '"' cs
  let singles := longestRun '\'' cs
  let plain := !controls && !cs.contains '\\'
  let basic := "\"" ++ String.ofList (escaped false 0 0 cs) ++ "\""
  let opening := if breaks then "\n" else ""
  let longBasic := "\"\"\"" ++ opening ++ String.ofList (escaped true 2 0 cs) ++ "\"\"\""
  if plain && doubles = 0 && !breaks then basic
  else if !controls && singles = 0 && !breaks then "'" ++ s ++ "'"
  else if plain && doubles ≤ 2 then longBasic
  else if !controls && singles ≤ 2 then "'''" ++ opening ++ s ++ "'''"
  else if breaks then longBasic
  else basic

def keyText (key : String) : String :=
  if key != "" && key.toList.all isBareKey then key else quoted key

mutual

/-- A value on its own line; a list of several elements takes a line for each. -/
def valueText : Value → String
  | .text s => quoted s
  | .int n => toString n
  | .real literal => literal
  | .flag b => if b then "true" else "false"
  | .list [] => "[]"
  | .list [v] => "[" ++ valueText v ++ "]"
  | .list vs => "[\n" ++ elementLines vs ++ "]"
  | .table [] => "\x7b\x7d"
  | .table (m :: ms) =>
    "\x7b " ++ keyText m.1 ++ " = " ++ valueText m.2 ++ memberTexts ms ++ " \x7d"

def elementLines : List Value → String
  | [] => ""
  | v :: r => "    " ++ valueText v ++ ",\n" ++ elementLines r

def memberTexts : List (String × Value) → String
  | [] => ""
  | m :: r => ", " ++ keyText m.1 ++ " = " ++ valueText m.2 ++ memberTexts r

end

def Value.isTable : Value → Bool
  | .table _ => true
  | _ => false

/-- Whether a value has sections of its own. -/
def Value.isSection : Value → Bool
  | .table _ => true
  | .list vs => !vs.isEmpty && vs.all isTable
  | _ => false

/-- The lines of the plain values of a table. -/
def bodyText (ms : List (String × Value)) : String :=
  String.join ((ms.filter fun m => !m.2.isSection).map fun m =>
    keyText m.1 ++ " = " ++ valueText m.2 ++ "\n")

mutual

/-- The sections below a table, each with its header. -/
def sections (path : List String) : List (String × Value) → List String
  | [] => []
  | (k,v) :: r => sectionsOf (path ++ [keyText k]) v ++ sections path r

def sectionsOf (path : List String) : Value → List String
  | .table ms => ("[" ++ ".".intercalate path ++ "]\n" ++ bodyText ms) :: sections path ms
  | .list vs => elementSections path vs
  | _ => []

def elementSections (path : List String) : List Value → List String
  | [] => []
  | .table ms :: r =>
    ("[[" ++ ".".intercalate path ++ "]]\n" ++ bodyText ms) :: sections path ms
      ++ elementSections path r
  | _ :: r => elementSections path r

end

/-- The text of a document, a blank line before each section. -/
def print (ms : List (String × Value)) : String :=
  let top := bodyText ms
  "\n".intercalate ((if top = "" then [] else [top]) ++ sections [] ms)

end ImportResolution.Toml
