import ImportResolution.Json
import ImportResolution.TsConfig.Chain
import ImportResolution.TsConfig.Profile

/-! Path configurations as JSON: a file, a chain of files, and the profile that they give. -/
namespace ImportResolution.TsConfig

def pathsToJson (paths : Table (List String)) : Json :=
  .obj (paths.entries.map fun e => (e.1,Json.strs e.2))

def ConfigFile.toJson (c : ConfigFile) : Json :=
  let parents : Json := match c.extendsSpec with
    | none => .null
    | some (.inl s) => .str s
    | some (.inr xs) => Json.strs xs
  .obj [("extends",parents),
    ("compilerOptions",.obj [("baseUrl",Json.optStr c.options.baseUrl),
      ("paths",pathsToJson c.options.paths),("outDir",Json.optStr c.options.outDir),
      ("rootDir",Json.optStr c.options.rootDir),
      ("declarationDir",Json.optStr c.options.declarationDir)])]

def MergedOptions.toJson (m : MergedOptions) : Json :=
  .obj [("baseUrl",Json.optStr m.baseUrl),("paths",pathsToJson m.paths),
    ("pathsBase",Json.optStr m.pathsBase),("outDir",Json.optStr m.outDir),
    ("rootDir",Json.optStr m.rootDir),("declarationDir",Json.optStr m.declarationDir)]

def PathRule.toJson (r : PathRule) : Json :=
  .obj [("pattern",.str r.pattern),("targets",Json.strs r.targets)]

def Profile.toJson (p : Profile) : Json :=
  .obj [("tsconfigRel",.str p.tsconfigRel),("baseUrl",Json.optStr p.baseUrl),
    ("pathsBase",.str p.pathsBase),("rules",.arr (p.rules.map PathRule.toJson)),
    ("outDir",Json.optStr p.outDir),("rootDir",Json.optStr p.rootDir),
    ("declarationDir",Json.optStr p.declarationDir),("fingerprint",.str p.fingerprint),
    ("hasPaths",.bool p.hasPaths)]

def PathHit.toJson (h : PathHit) : Json :=
  .obj [("path",.str h.path),("pattern",Json.optStr h.pattern),("tsconfig",.str h.tsconfigRel)]

end ImportResolution.TsConfig
