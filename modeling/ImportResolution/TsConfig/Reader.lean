import ImportResolution.Json.Fields
import ImportResolution.Json.Relaxed
import ImportResolution.TsConfig.Options

/-! Reading a configuration file. Unknown members are passed over once they are read; a known one must
have its type and must not be repeated. A list gives a record by place, and what follows the last
place is not read. -/
namespace ImportResolution.TsConfig

open Json (Written)

def optionalText? : Option Written → Option (Option String) := Written.optional? Written.str?

def pathsOf? : Written → Option (Table (List String)) := Written.table? Written.texts?

def extendsOf? : Option Written → Option (Option (String ⊕ List String))
  | none => some none
  | some .null => some none
  | some (.text s) => s.map fun s => some (.inl s)
  | some v => (Written.texts? v).map fun xs => some (.inr xs)

/-- Options from their values, in the order of the record. -/
def optionsOf? (baseUrl : Option Written) (paths : Option Written)
    (outDir rootDir declarationDir : Option Written) : Option CompilerOptions := do
  let paths ← match paths with
    | none => some Table.empty
    | some v => pathsOf? v
  return {
    baseUrl := ← optionalText? baseUrl
    paths
    outDir := ← optionalText? outDir
    rootDir := ← optionalText? rootDir
    declarationDir := ← optionalText? declarationDir }

/-- The members of a record, where all beside the known ones can be read. -/
def knownMembers? (known : List String) (v : Written) : Option Written.Members :=
  v.members?.filter fun ms => ms.all fun m => known.contains m.1 || m.2.isSound

def optionNames : List String := ["baseUrl","paths","outDir","rootDir","declarationDir"]

/-- Options by name, or all of them by place in a list. -/
def compilerOptions? : Written → Option CompilerOptions
  | .list (b :: p :: o :: r :: d :: _) => optionsOf? (some b) (some p) (some o) (some r) (some d)
  | v => do
    let ms ← knownMembers? optionNames v
    optionsOf? (← Written.single? ms "baseUrl") (← Written.single? ms "paths")
      (← Written.single? ms "outDir") (← Written.single? ms "rootDir")
      (← Written.single? ms "declarationDir")

def configOf? : Written → Option ConfigFile
  | .list [e] => do return { extendsSpec := ← extendsOf? (some e) }
  | .list (e :: o :: _) => do
    return { extendsSpec := ← extendsOf? (some e), options := ← compilerOptions? o }
  | v => do
    let ms ← knownMembers? ["extends","compilerOptions"] v
    let extendsSpec ← extendsOf? (← Written.single? ms "extends")
    match ← Written.single? ms "compilerOptions" with
    | none => return { extendsSpec }
    | some v => return { extendsSpec, options := ← compilerOptions? v }

def parse? (content : String) : Option ConfigFile := (Json.Relaxed.parse? content).bind configOf?

end ImportResolution.TsConfig
