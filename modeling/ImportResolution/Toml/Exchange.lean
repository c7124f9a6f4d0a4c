import ImportResolution.Json
import ImportResolution.Toml.Value

/-! Values of TOML from JSON and back. Members that are null are as good as absent. -/
namespace ImportResolution.Toml.Value

mutual

def toJson : Value → Json
  | .text s => .str s
  | .int n => .int n
  | .real literal => .str literal
  | .flag b => .bool b
  | .list vs => .arr (toJsonAll vs)
  | .table ms => .obj (toJsonMembers ms)

def toJsonAll : List Value → List Json
  | [] => []
  | v :: r => toJson v :: toJsonAll r

def toJsonMembers : List (String × Value) → List (String × Json)
  | [] => []
  | (k,v) :: r => (k,toJson v) :: toJsonMembers r

end

mutual

def ofJson : Json → Value
  | .null => .table []
  | .bool b => .flag b
  | .int n => .int n
  | .decimal _ _ => .real ""
  | .str s => .text s
  | .arr xs => .list (ofJsonAll xs)
  | .obj ms => .table (ofJsonMembers ms)

def ofJsonAll : List Json → List Value
  | [] => []
  | j :: r => ofJson j :: ofJsonAll r

def ofJsonMembers : List (String × Json) → List (String × Value)
  | [] => []
  | (_,.null) :: r => ofJsonMembers r
  | (k,j) :: r => (k,ofJson j) :: ofJsonMembers r

end

end ImportResolution.Toml.Value
