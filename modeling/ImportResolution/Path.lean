import ImportResolution.Text

/-! Repository paths are texts of segments between slashes. A normalized one has no empty and no `.`
segment, and keeps `..` only where nothing before it can be taken back. -/
namespace ImportResolution.Path

def toPosix (s : String) : String := Text.replaceChar '\\' '/' s
def segments (s : String) : List String := Text.splitOn '/' s
def ofSegments (xs : List String) : String := "/".intercalate xs
def isRooted (s : String) : Bool := Text.startsWith "/" s

/-- Walks one segment on; the stack holds the segments that remain, the last one first. -/
def walkStep (rooted : Bool) (stack : List String) (segment : String) : List String :=
  if segment = "" ∨ segment = "." then stack
  else if segment = ".." then
    match stack with
    | last :: rest => if last ≠ ".." then rest else if rooted then stack else ".." :: stack
    | [] => if rooted then [] else [".."]
  else segment :: stack

def walk (rooted : Bool) (xs : List String) : List String := (xs.foldl (walkStep rooted) []).reverse

@[simp] theorem walkStep_empty (rooted : Bool) (stack : List String) :
    walkStep rooted stack "" = stack := by simp [walkStep]
@[simp] theorem walkStep_dot (rooted : Bool) (stack : List String) :
    walkStep rooted stack "." = stack := by simp [walkStep]
theorem walkStep_name (rooted : Bool) (stack : List String) {segment : String}
    (he : segment ≠ "") (hd : segment ≠ ".") (hdd : segment ≠ "..") :
    walkStep rooted stack segment = segment :: stack := by simp [walkStep,he,hd,hdd]

/-- The normal form of a path; a rooted path stays rooted, and `..` stops at its root. -/
def normalize (s : String) : String :=
  let posix := toPosix (Text.trim s)
  let rooted := isRooted posix
  let joined := ofSegments (walk rooted (segments posix))
  if rooted then "/" ++ joined else joined

/-- The path that `spec` names as seen from the directory `dir`. -/
def join (dir spec : String) : String :=
  if dir = "" ∨ dir = "." then normalize spec else normalize (dir ++ "/" ++ spec)

/-- A normalized relative path leaves the root when it starts with `..`. -/
def escapesRoot (rel : String) : Bool := rel == ".." || Text.startsWith "../" rel

/-- Whether a normalized path may name a file of the repository. -/
def isInside (rel : String) : Bool := rel != "" && !isRooted rel && !escapesRoot rel

def parent (rel : String) : String := ((Text.cutLast? '/' rel).map Prod.fst).getD ""
def baseName (rel : String) : String := ((Text.cutLast? '/' rel).map Prod.snd).getD rel

/-- Last segment cut before its last dot; a dot in front of the name opens no extension. -/
def cutExtension (name : String) : String × String :=
  match Text.cutLast? '.' name with
  | some (stem,ext) => if stem = "" then (name,"") else (stem,"." ++ ext)
  | none => (name,"")

def extension (rel : String) : String := (cutExtension (baseName rel)).2
def hasExtension (rel : String) : Bool := extension rel != ""
def withoutExtension (rel : String) : String :=
  match Text.cutLast? '/' rel with
  | some (dir,name) => dir ++ "/" ++ (cutExtension name).1
  | none => (cutExtension rel).1

/-- `dir/name`, or the name alone at the top. -/
def child (dir name : String) : String := if dir = "" then name else dir ++ "/" ++ name

end ImportResolution.Path
