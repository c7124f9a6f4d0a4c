import ImportResolution.FileSet
import ImportResolution.Importer
import ImportResolution.Specifier

/-! Absolute specifiers that leave the repository: places of the system, and addresses that name a
host. -/
namespace ImportResolution.External

/-- Top directories of a host. -/
def systemRoots : List String :=
  ["etc","usr","opt","var","bin","sbin","lib","lib64","dev","proc","sys","run","tmp","home","root"]

def isSystemPath (spec : String) : Bool :=
  match Text.afterHead? "/" spec with
  | some rest => systemRoots.contains (Text.lowerAscii (Text.before "/" rest))
  | none => false

def isAsciiLetter (c : Char) : Bool := c.isAlpha
def isHostChar (c : Char) : Bool := c.isAlphanum || c = '.' || c = '-'

/-- A host has a name, a dot, and a last label of two letters or more. -/
def isHost (s : String) : Bool :=
  s != "" && s.toList.all isHostChar &&
    match Text.cutLast? '.' s with
    | some (name,label) => name != "" && 2 ≤ label.length && label.toList.all isAsciiLetter
    | none => false

/-- An address that takes its scheme from the page that it is on. -/
def isSchemeRelative (spec : String) : Bool :=
  match Text.afterHead? "//" spec with
  | some rest => isHost (String.ofList (rest.toList.takeWhile fun c => c ≠ '/' && c ≠ ':'))
  | none => false

/-- Whether an absolute specifier names something outside; a file of the repository at the same
place comes first. -/
def isAbsoluteExternal (i : FileIndex) (spec : String) (importer : Importer) : Bool :=
  isSchemeRelative spec ||
    match Text.afterHead? "/" spec with
    | none => false
    | some rooted =>
      importer.allowsAbsoluteExternal
        && (i.candidate? (Path.normalize rooted)).isNone
        && (isSystemPath spec || importer.has .shell)

end ImportResolution.External
