import ImportResolution.Digest.Sha256
import ImportResolution.Specifier
import ImportResolution.Text.Case

/-! Files that generators would write but the repository does not hold. A missing import is matched
against the outputs of the known sources, then against the sources it could come from, and last
against the habits of naming. -/
namespace ImportResolution.Artifact

def subdirs : List String := ["generated","__generated__","gen"]
def dirHints : List String := ["/generated/","/gen/","/__generated__/"]
def tokenHints : List String :=
  [".generated.",".gen.","_generated",".pb.",".g.dart",".designer."]

def protoSuffixes : List String :=
  [".pb.ts",".pb.js",".pb.go",".pb.swift",".pb.java",".pb.cc",".pb.h","_pb2.py","_pb2.pyi",
   "_pb2_grpc.py",".grpc.pb.ts",".grpc.pb.go"]
def graphqlSuffixes : List String :=
  [".generated.ts",".generated.js",".generated.tsx",".generated.jsx",".generated.d.ts"]
def openApiSuffixes : List String :=
  [".gen.ts",".generated.ts",".client.ts",".client.js",".types.ts",".schemas.ts",".api.ts"]
def openApiSourceSuffixes : List String :=
  [".openapi.yaml",".openapi.yml",".openapi.json",".swagger.yaml",".swagger.yml",".swagger.json"]
def openApiExtensions : List String := [".yaml",".yml",".json"]
def openApiNames : List String := ["openapi","swagger"]
def openApiClients : List String := ["client.ts","types.ts","schemas.ts","api.ts"]
def generatorTags : List String := ["generated","gen"]
def clientTags : List String := ["client","types","type","schemas","schema","api"]

/-- What precedes `tail`, whose letters may have any case. -/
def beforeTailFolded? (tail s : String) : Option String :=
  if tail.toList.isSuffixOf (s.toList.map Text.lowerAsciiChar) then
    some (String.ofList (s.toList.take (s.toList.length - tail.toList.length)))
  else none

/-- Whether a path without its extension is named as an interface document. -/
def looksLikeOpenApi (stem : String) : Bool :=
  let name := Text.lowerAscii (Path.baseName stem)
  openApiNames.contains name || Text.endsWith ".openapi" name || Text.endsWith ".swagger" name

inductive SourceKind
  | proto
  | graphql
  | dart
  | openApi
  deriving DecidableEq, Repr

/-- A source that generators read, less its extension. -/
def source? (rel : String) : Option (SourceKind × String) :=
  let ext := Text.lowerAscii (Path.extension rel)
  let stem := Path.withoutExtension rel
  if ext = "" ∨ stem = "" then none
  else if ext = ".proto" then some (.proto,stem)
  else if ext = ".graphql" ∨ ext = ".gql" then some (.graphql,stem)
  else if ext = ".dart" then some (.dart,stem)
  else if openApiExtensions.contains ext && looksLikeOpenApi stem then some (.openApi,stem)
  else none

/-- The paths that generators would write for a source. -/
def outputs : SourceKind → String → List String
  | .proto, stem =>
    protoSuffixes.flatMap fun suffix =>
      (stem ++ suffix) ::
        subdirs.map fun sub =>
          Path.join (Path.parent stem) (sub ++ "/" ++ Path.baseName stem ++ suffix)
  | .graphql, stem =>
    graphqlSuffixes.map (stem ++ ·)
      ++ subdirs.flatMap fun sub =>
        [".ts",".js"].map fun ext =>
          Path.join (Path.parent stem) (sub ++ "/" ++ Path.baseName stem ++ ext)
  | .dart, stem => [stem ++ ".g.dart"]
  | .openApi, stem =>
    let inDir := Path.join (Path.parent stem)
    let base := Path.baseName stem
    let short :=
      ((beforeTailFolded? ".openapi" base).or (beforeTailFolded? ".swagger" base)).filter (· ≠ "")
    let clients := if openApiNames.contains (Text.lowerAscii base) then openApiClients else []
    openApiSuffixes.map (stem ++ ·)
      ++ short.toList.flatMap (fun s =>
        (openApiSuffixes ++ ["-client.ts","-types.ts"]).map fun suffix => inDir (s ++ suffix))
      ++ clients.map inDir
      ++ subdirs.flatMap fun sub =>
        openApiSuffixes.map (fun suffix => inDir (sub ++ "/" ++ base ++ suffix))
          ++ clients.map fun file => inDir (sub ++ "/" ++ file)

def withoutTag (tags : List String) (s : String) : String :=
  ((tags.flatMap fun tag => ["-","_","."].map (· ++ tag)).findSome? fun tail =>
    beforeTailFolded? tail s).getD s

/-- Whether a name goes on with extensions, of which `limit` allows only so many. -/
def isExtensionChain (limit : Option Nat) (s : List Char) : Bool :=
  match limit with
  | none => !s.isEmpty
  | some most =>
    let parts := s.splitOn '.'
    parts.length ≤ most && parts.all (!·.isEmpty)

/-- What precedes the first marker in a name that extensions follow. -/
def beforeMarkerChars? (marker : List Char) (limit : Option Nat) : List Char → Option (List Char)
  | [] => none
  | c :: r =>
    match marker.isPrefixOf? ((c :: r).map Text.lowerAsciiChar) with
    | some ('.' :: exts) =>
      if isExtensionChain limit exts then some []
      else (beforeMarkerChars? marker limit r).map (c :: ·)
    | _ => (beforeMarkerChars? marker limit r).map (c :: ·)

/-- The path up to the first marker in its last segment. -/
def beforeMarker? (marker : String) (limit : Option Nat) (path : String) : Option String :=
  let name := Path.baseName path
  let dir := path.toList.take (path.toList.length - name.toList.length)
  (beforeMarkerChars? marker.toList limit name.toList).map fun s => String.ofList (dir ++ s)

/-- The path without its first generated directory, if it has one below another. -/
def collapse? (path : String) : Option String :=
  let folded := path.toList.map Text.lowerAsciiChar
  let cuts := dirHints.filterMap fun hint =>
    (Text.cutChars? hint.toList folded).map fun cut => (cut.1.length,hint.length)
  let first := cuts.foldl
    (fun best cut => match best with
      | none => some cut
      | some b => if cut.1 < b.1 then some cut else some b)
    none
  first.map fun cut =>
    String.ofList (path.toList.take cut.1 ++ '/' :: path.toList.drop (cut.1+cut.2))

/-- Interface documents that a path without extension may be generated from. -/
def documentsOf (base : String) : List String :=
  openApiSourceSuffixes.map (base ++ ·)
    ++ (if looksLikeOpenApi base then openApiExtensions.map (base ++ ·) else [])

def counterpartsBySuffix (path : String) : List String :=
  ((["_pb2_grpc.py","_pb2_grpc.pyi","_pb2.py","_pb2.pyi"].findSome? fun s =>
      beforeTailFolded? s path).map (· ++ ".proto")).toList
    ++ ((beforeMarker? ".grpc.pb" none path).map (· ++ ".proto")).toList
    ++ ((beforeMarker? ".pb" none path).map (· ++ ".proto")).toList
    ++ ((beforeTailFolded? ".g.dart" path).map (· ++ ".dart")).toList
    ++ (((beforeMarker? ".generated" (some 2) path).filter (· ≠ "")).map fun s =>
        [s ++ ".graphql",s ++ ".gql"]).getD []

def counterpartDocuments (path : String) : List String :=
  let base := Path.withoutExtension path
  let plain := withoutTag generatorTags base
  let bases := Text.distinct
    ([base,plain,withoutTag clientTags base,withoutTag clientTags plain].filter (· ≠ ""))
  let dir := Path.parent path
  bases.flatMap documentsOf
    ++ (if dir = "" then []
        else openApiNames.flatMap fun n => openApiExtensions.map fun e => Path.join dir (n ++ e))

/-- Sources of a path and of what it is without its generated directories. -/
def counterpartsFrom : Nat → String → List String
  | 0, _ => []
  | fuel+1, candidate =>
    let path := Path.normalize candidate
    if path = "" then []
    else
      counterpartsBySuffix path
        ++ (match collapse? path with
          | some shorter => shorter :: counterpartsFrom fuel shorter
          | none => [])
        ++ counterpartDocuments path

/-- Source files that a generated path could have come from, the most specific first; every
generated directory taken out shortens the path, so its length bounds the search. -/
def counterparts (candidate : String) : List String :=
  Text.distinct ((counterpartsFrom (candidate.length+1) candidate).filter (· ≠ ""))

inductive Match
  /-- A generator of a known source writes this path. -/
  | expectedOutput (candidate : String)
  /-- A known file is the source of this path. -/
  | counterpart (candidate source : String)
  /-- The names look generated. -/
  | tokenHint
  deriving DecidableEq, Repr

/-- Matches that rest on the file set, not on names alone. -/
def Match.isIndexed : Match → Bool
  | .tokenHint => false
  | _ => true

/-- The outputs to expect of a file set. -/
structure Expected where
  indexed : List String
  outputs : List String
  fingerprint : String
  deriving DecidableEq, Repr

/-- The place that a relative or rooted specifier points at. -/
def pointedAt? (importer specifier : String) : Option String :=
  let spec := Specifier.normalize specifier
  let importer := Path.normalize importer
  let candidate :=
    match Text.afterHead? "/" spec with
    | some rest => Path.normalize rest
    | none =>
      if !Text.startsWith "." spec then ""
      else if importer = "" then Path.normalize spec
      else Path.join (Path.parent importer) spec
  if candidate = "" then none else some candidate

def hasHints (importer specifier : String) : Bool :=
  let importer := Text.lowerAscii (Path.normalize importer)
  let specifier := Text.lowerAscii (Path.normalize specifier)
  dirHints.any (fun h => Text.contains h importer || Text.contains h specifier)
    || tokenHints.any (Text.contains · specifier)

namespace Expected

def version : String := "expected-artifacts-v1"

def of (files : List String) : Expected :=
  let indexed := Text.distinctSorted ((files.map Path.normalize).filter (· ≠ ""))
  let all := (indexed.filterMap source?).flatMap fun s => Artifact.outputs s.1 s.2
  let outputs := Text.distinctSorted (all.filter (· ≠ ""))
  ⟨indexed,outputs,Digest.ofParts version (outputs ++ "--indexed--" :: indexed)⟩

def isExpected (e : Expected) (rel : String) : Bool := e.outputs.contains rel

def matchCandidate? (e : Expected) (candidate : String) : Option Match :=
  if e.isExpected candidate then some (.expectedOutput candidate)
  else ((counterparts candidate).find? e.indexed.contains).map (.counterpart candidate)

def match? (e : Expected) (importer specifier : String) : Option Match :=
  ((pointedAt? importer specifier).bind e.matchCandidate?).or
    (if hasHints importer specifier then some .tokenHint else none)

end Expected
end ImportResolution.Artifact
