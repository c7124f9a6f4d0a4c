import ImportResolution.Digest.Sha256
import ImportResolution.Location
import ImportResolution.Text.Case

/-! The indexed files of a repository. A path is found by its spelling, by its spelling in another
case, or as a candidate whose extension is left to be guessed. -/
namespace ImportResolution

/-- Distinct paths, rising. -/
structure FileSet where
  paths : List String
  ordered : paths.Pairwise (· < ·)
  deriving DecidableEq

namespace FileSet

theorem ext {a b : FileSet} (h : a.paths = b.paths) : a = b := by
  cases a; cases b; simp_all

def ofList (xs : List String) : FileSet :=
  ⟨Text.distinctSorted xs,Text.pairwise_distinctSorted xs⟩

instance : Inhabited FileSet := ⟨ofList []⟩
instance : Membership String FileSet := ⟨fun f p => p ∈ f.paths⟩

def contains (f : FileSet) (path : String) : Bool := f.paths.contains path
def size (f : FileSet) : Nat := f.paths.length
def isEmpty (f : FileSet) : Bool := f.paths.isEmpty

theorem mem_def {p : String} {f : FileSet} : p ∈ f ↔ p ∈ f.paths := Iff.rfl
@[simp] theorem contains_iff (f : FileSet) (p : String) : f.contains p = true ↔ p ∈ f := by
  simp [contains,mem_def]
@[simp] theorem mem_ofList (p : String) (xs : List String) : p ∈ ofList xs ↔ p ∈ xs := by
  simp [ofList,mem_def]

/-- The normal forms of paths, less those that name nothing inside the root. -/
def ofPaths (xs : List String) : FileSet := ofList ((xs.map Path.normalize).filter Path.isInside)

theorem isInside_of_mem_ofPaths {p : String} {xs : List String} (h : p ∈ ofPaths xs) :
    Path.isInside p = true := by
  simp only [ofPaths,mem_ofList,List.mem_filter] at h
  exact h.2

def schema : String := "file-lookup-v1"

/-- Digest of the paths in their order. -/
def fingerprint (f : FileSet) : String := Digest.ofParts schema f.paths

def rootHash (root : String) : String := Digest.ofText root

/-- Digest that ties a file set to the place of its root. -/
def compatibility (rootHash fileSetFingerprint : String) : String :=
  Digest.ofParts schema [rootHash,fileSetFingerprint]

end FileSet

/-- A file offered for indexing: its place, and its path where the caller knows it. -/
structure Entry where
  abs : String
  rel : Option String := none
  deriving DecidableEq

namespace Entry

def rel? (root : String) (e : Entry) : Option String :=
  let rel? := match e.rel with
    | some rel => some (Path.normalize rel)
    | none => Location.within? root e.abs
  rel?.filter Path.isInside

end Entry

def FileSet.ofEntries (root : String) (entries : List Entry) : FileSet :=
  ofList (entries.filterMap (Entry.rel? root))

theorem FileSet.isInside_of_mem_ofEntries {p root : String} {entries : List Entry}
    (h : p ∈ ofEntries root entries) : Path.isInside p = true := by
  simp only [ofEntries,mem_ofList,List.mem_filterMap,Entry.rel?] at h
  obtain ⟨e,-,he⟩ := h
  exact (Option.filter_eq_some_iff.mp he).2

/-- A tree of small-case segments. -/
inductive Trie
  | node (children : List (String × Trie))

namespace Trie

def empty : Trie := .node []
def children : Trie → List (String × Trie)
  | .node cs => cs

def alterChild (key : String) (f : Trie → Trie) : List (String × Trie) → List (String × Trie)
  | [] => [(key,f empty)]
  | c :: r => if c.1 = key then (key,f c.2) :: r else c :: alterChild key f r

def insert : List String → Trie → Trie
  | [], t => t
  | s :: r, t => .node (alterChild s (insert r) t.children)

/-- Whether the segments lead to a node with a child whose name starts with the last of them. -/
def hasStart : List String → Trie → Bool
  | [], _ => false
  | [last], t => t.children.any fun c => Text.startsWith last c.1
  | s :: r, t =>
    match t.children.lookup s with
    | some child => hasStart r child
    | none => false

def filledSegments (s : String) : List String := (Path.segments s).filter (· ≠ "")

/-- Every segment of a path is folded on its own. -/
def insertPath (t : Trie) (path : String) : Trie :=
  insert ((filledSegments path).map Text.lower) t

/-- The path is folded as a whole and then cut. -/
def hasPathStart (t : Trie) (path : String) : Bool := hasStart (filledSegments (Text.lower path)) t

def ofPaths (paths : List String) : Trie := paths.foldl insertPath empty

end Trie

/-- A file set with what speeds up its search. -/
structure FileIndex where
  files : FileSet
  folded : List (String × String)
  trie : Trie
  folded_eq : folded = files.paths.map fun p => (Text.lower p,p)
  trie_eq : trie = Trie.ofPaths files.paths

namespace FileIndex

def of (files : FileSet) : FileIndex :=
  ⟨files,files.paths.map fun p => (Text.lower p,p),Trie.ofPaths files.paths,rfl,rfl⟩

instance : Inhabited FileIndex := ⟨of default⟩

@[simp] theorem files_of (files : FileSet) : (of files).files = files := rfl

/-- Extensions guessed for a candidate without one, the preferred first. -/
def guessedExtensions : List String :=
  [".ts",".tsx",".mts",".cts",".d.ts",".js",".jsx",".mjs",".cjs",".json"]

def contains (i : FileIndex) (path : String) : Bool := i.files.contains path

/-- The path itself, or else the least file that differs from it in case alone. -/
def spelled? (i : FileIndex) (path : String) : Option String :=
  if i.contains path then some path else i.folded.lookup (Text.lower path)

/-- The files that a path without extension may stand for, in the order of preference. -/
def spellings (base : String) : List String :=
  base :: (guessedExtensions.map (base ++ ·) ++ guessedExtensions.map (base ++ "/index" ++ ·))

/-- Finds a candidate: with an extension as it stands, without one by its spellings, which are tried
only below a start that the trie knows. -/
def candidate? (i : FileIndex) (path : String) : Option String :=
  let rel := Path.normalize path
  if !Path.isInside rel then none
  else if Path.hasExtension rel then i.spelled? rel
  else if !i.trie.hasPathStart rel then none
  else (spellings rel).findSome? i.spelled?

/-- The first hit of a list of candidates, each as it stands. -/
def first? (i : FileIndex) (candidates : List String) : Option String :=
  (Text.distinct ((candidates.map Path.normalize).filter Path.isInside)).findSome? i.spelled?

def isGoTest (path : String) : Bool := Text.endsWith "_test.go" path

/-- The files directly in a directory that end as asked, tests of Go packages last. -/
def filesIn (i : FileIndex) (dir : String) (ending : Option String) : List String :=
  let dir := Path.normalize dir
  let inDir := i.files.paths.filter fun p =>
    Path.parent p == dir && ending.all (Text.endsWith · p)
  inDir.filter (!isGoTest ·) ++ inDir.filter isGoTest

def hasStart (i : FileIndex) (path : String) : Bool := i.trie.hasPathStart path

theorem mem_of_spelled? {i : FileIndex} {p q : String} (h : i.spelled? p = some q) : q ∈ i.files := by
  simp only [spelled?] at h
  split at h
  · next hc =>
    obtain ⟨rfl⟩ := Option.some.inj h
    exact (FileSet.contains_iff _ _).mp hc
  · rw [i.folded_eq] at h
    rw [List.lookup_eq_some_iff] at h
    obtain ⟨l₁,l₂,hl,-⟩ := h
    have : (Text.lower p,q) ∈ i.files.paths.map fun p => (Text.lower p,p) := by rw [hl]; simp
    simp only [List.mem_map,Prod.mk.injEq] at this
    obtain ⟨x,hx,-,rfl⟩ := this
    exact hx

theorem mem_of_candidate? {i : FileIndex} {p q : String} (h : i.candidate? p = some q) :
    q ∈ i.files := by
  simp only [candidate?] at h
  split at h
  · simp at h
  split at h
  · exact mem_of_spelled? h
  split at h
  · simp at h
  obtain ⟨s,-,hs⟩ := List.exists_of_findSome?_eq_some h
  exact mem_of_spelled? hs

theorem mem_of_first? {i : FileIndex} {xs : List String} {q : String} (h : i.first? xs = some q) :
    q ∈ i.files := by
  obtain ⟨s,-,hs⟩ := List.exists_of_findSome?_eq_some h
  exact mem_of_spelled? hs

end FileIndex

/-- The storable form of an indexed file set. -/
structure Snapshot where
  schemaVersion : String
  rootHash : String
  fileSetFingerprint : String
  compatibilityFingerprint : String
  files : List String
  deriving DecidableEq, Repr

namespace Snapshot

def of (root fileSetFingerprint : String) (files : FileSet) : Snapshot where
  schemaVersion := FileSet.schema
  rootHash := FileSet.rootHash root
  fileSetFingerprint := fileSetFingerprint
  compatibilityFingerprint := FileSet.compatibility (FileSet.rootHash root) fileSetFingerprint
  files := files.paths

/-- The file set of a snapshot, if it was made under this root and bears the expected mark. -/
def restore? (root expected : String) (s : Snapshot) : Option FileSet :=
  if s.schemaVersion = FileSet.schema ∧ s.compatibilityFingerprint = expected
      ∧ s.rootHash = FileSet.rootHash root then
    some (FileSet.ofList s.files)
  else none

end Snapshot
end ImportResolution
