import ImportResolution.Language.Include
import ImportResolution.Language.Python
import ImportResolution.Reason

/-! Bare specifiers by the module conventions of the importer's ecosystem. Without a rule nothing is
found, and the specifier may name something outside. -/
namespace ImportResolution.Bare

/-- A file found, and the kind of rule that found it. -/
structure Hit where
  type : ResolvedType
  path : String
  deriving DecidableEq, Repr

/-- What the repository says about itself. -/
structure Names where
  goModule : Option String := none
  dartPackage : Option String := none
  deriving DecidableEq, Repr

def javaRoots : List String :=
  ["","src","app","lib","src/main/java","src/test/java","src/main/kotlin","src/test/kotlin"]

def kotlinRoots : List String :=
  ["","src","app","lib","src/main/kotlin","src/test/kotlin","src/main/java","src/test/java"]

/-- Source roots of a guest language of the Java platform. -/
def guestRoots (language : String) : List String :=
  "" :: ([language,"java","kotlin"].flatMap fun l => ["src/main/" ++ l,"src/test/" ++ l])
    ++ ["app","lib","src"]

/-- The directory that a Go import names: below the module itself, or below a conventional root. -/
def goPackage? (spec : String) (module : Option String) : Option String :=
  let below := (module.bind fun m => Text.afterHead? (m ++ "/") spec).filter (· ≠ "")
  match below with
  | some rest => some (Path.normalize rest)
  | none =>
    if ["internal/","pkg/","cmd/","src/"].any (Text.startsWith · spec) then
      some (Path.normalize spec)
    else none

def go? (i : FileIndex) (spec : String) (module : Option String) : Option String :=
  ((goPackage? spec module).filter (· ≠ "")).bind fun package =>
    (i.first? [package ++ ".go","src/" ++ package ++ ".go"]).or <|
      (i.filesIn package (some ".go")).head?.or
        (i.filesIn ("src/" ++ package) (some ".go")).head?

def swift? (i : FileIndex) (spec : String) : Option String :=
  if !Dotted.isIdentifier spec then none
  else
    let module := Text.before "." spec
    (i.first? ["Sources/" ++ module ++ "/" ++ module ++ ".swift",module ++ ".swift",
      "src/" ++ module ++ ".swift"]).or
      (i.filesIn ("Sources/" ++ module) (some ".swift")).head?

def julia? (i : FileIndex) (spec : String) : Option String :=
  let module := Text.trim (Text.before ":" spec)
  if !Dotted.isIdentifier module then none
  else
    (Dotted.parts module).getLast?.bind fun leaf =>
      let path := Path.ofSegments (Dotted.parts module)
      i.first? ["src/" ++ path ++ ".jl","src/" ++ path ++ "/" ++ leaf ++ ".jl",path ++ ".jl",
        path ++ "/" ++ leaf ++ ".jl",path ++ "/src/" ++ leaf ++ ".jl","test/" ++ path ++ ".jl"]

/-- The pieces between occurrences of a pattern of two colons. -/
def splitColons : List Char → List (List Char)
  | ':' :: ':' :: r => [] :: splitColons r
  | c :: r =>
    match splitColons r with
    | p :: more => (c :: p) :: more
    | [] => [[c]]
  | [] => [[]]

def isBraceOrBlank (c : Char) : Bool := c.toNat = 0x7B || c.toNat = 0x7D || Text.isBlank c

/-- The directory that a Rust path starts from, and its segments up to the first open one. -/
def rustPath? (spec : String) (importer : Importer) : Option (String × List String) :=
  let parts := ((splitColons spec.toList).map String.ofList).filter (· ≠ "")
  let clean (tail : List String) : List String :=
    (tail.map (Text.trimWhere isBraceOrBlank)).takeWhile fun s => s != "" && s != "*"
  match parts with
  | "crate" :: tail => some ("src",clean tail)
  | "self" :: tail => some (importer.dir,clean tail)
  | "super" :: tail => some (Path.parent importer.dir,clean tail)
  | _ => none

def rustCandidates (base : String) (tail : List String) : List String :=
  (Dotted.startsOf tail).flatMap fun start =>
    let stem := Path.join base (Path.ofSegments start)
    [stem ++ ".rs",stem ++ "/mod.rs"]

def rust? (i : FileIndex) (spec : String) (importer : Importer) : Option String :=
  if !Text.contains "::" spec then none
  else (rustPath? spec importer).bind fun p => i.first? (rustCandidates p.1 p.2)

/-- Colons in pairs become slashes. -/
def colonsToSlashes (spec : String) : String :=
  Path.ofSegments ((splitColons spec.toList).map String.ofList)

def luaCandidates (spec : String) : List String :=
  let module := Text.replaceChar '.' '/' spec
  ["","lua/","src/"].flatMap fun root =>
    [root ++ module ++ ".lua",root ++ module ++ "/init.lua"]

def path? (i : FileIndex) (spec : String) (importer : Importer) (names : Names) : Option String :=
  match importer.ecosystem with
  | .ruby => Search.rubyLoadPath? i spec
  | .python => Python.resolve? i spec importer
  | .perl =>
    if Text.contains "::" spec then
      let package := colonsToSlashes spec
      i.first? [package ++ ".pm","lib/" ++ package ++ ".pm"]
    else none
  | .lua => if Dotted.isIdentifier spec then i.first? (luaCandidates spec) else none
  | .php =>
    if Text.hasChar '\\' spec then
      i.first? (["","src/","app/","lib/"].map fun root => root ++ Path.toPosix spec ++ ".php")
    else none
  | .shell => if Search.looksLikePath spec then PathLike.resolve? i spec importer else none
  | .go => go? i spec names.goModule
  | .java => Dotted.resolve? i spec [".java",".kt"] javaRoots
  | .kotlin => Dotted.resolve? i spec [".kt",".kts",".java"] kotlinRoots
  | .cSharp => Dotted.resolve? i spec [".cs"] ["","src","app","lib"]
  | .swift => swift? i spec
  | .dart => Dart.resolve? i spec importer names.dartPackage
  | .scala =>
    (Dotted.normalize? spec).bind fun s =>
      Dotted.resolve? i s [".scala",".java",".kt"] (guestRoots "scala")
  | .groovy =>
    (Dotted.normalize? spec).bind fun s =>
      Dotted.resolve? i s [".groovy",".java",".kt"] (guestRoots "groovy")
  | .julia => julia? i spec
  | .cLike => if Search.looksLikePath spec then Include.resolve? i spec importer else none
  | .rust => rust? i spec importer
  | .bazel | .nix | .cMake | .toml | .pathLike =>
    if Search.looksLikePath spec then PathLike.resolve? i spec importer else none
  | .javaScript | .other => none

/-- The label of a hit for each ecosystem. -/
def typeOf : Ecosystem → ResolvedType
  | .ruby => .rubyLoadPath
  | .python => .pythonModule
  | .perl => .perlPackage
  | .lua => .luaModule
  | .php => .phpNamespace
  | .shell => .shellPath
  | .go => .goModule
  | .java => .javaPackage
  | .kotlin => .kotlinPackage
  | .cSharp => .cSharpNamespace
  | .swift => .swiftModule
  | .dart => .dartModule
  | .scala => .scalaPackage
  | .groovy => .groovyPackage
  | .julia => .juliaModule
  | .cLike => .cLikeInclude
  | .rust => .rustModule
  | _ => .pathLike

def resolve? (i : FileIndex) (spec : String) (importer : Importer) (names : Names) : Option Hit :=
  (path? i spec importer names).map fun p => ⟨typeOf importer.ecosystem,p⟩

end ImportResolution.Bare
