import ImportResolution.Language.PathLike

/-! Includes of C and imports of Dart: first as paths, then below conventional directories. -/
namespace ImportResolution

namespace Include

def roots : List String := ["include","src","lib","headers","vendor","third_party","third-party"]

def headerExtensions : List String :=
  [".h",".hpp",".hh",".hxx",".inc",".inl",".ipp",".tpp",".ixx",".cppm",".modulemap"]

def resolve? (i : FileIndex) (spec : String) (importer : Importer) : Option String :=
  (PathLike.resolve? i spec importer).or <|
    let rel := Path.normalize spec
    if rel = "" || Path.isRooted rel || Text.startsWith "." rel || Text.startsWith ":" rel then none
    else
      let bases := roots.map (· ++ "/" ++ rel)
      (i.first? bases).or
        (if Path.hasExtension rel then none else Search.fromBases? i bases headerExtensions [])

end Include

namespace Dart

/-- A `package:` address, at home only if it names the package itself. -/
def package? (i : FileIndex) (spec : String) (own : Option String) : Option String :=
  ((Text.afterHead? "package:" spec).bind (Text.cut? "/")).bind fun cut =>
    let name := Text.trim cut.1
    let path := Path.normalize cut.2
    if name = "" ∨ path = "" then none
    else
      let atHome := if own.all (· == name) then ["lib/" ++ path,path,"src/" ++ path] else []
      i.first? (atHome ++ ["packages/" ++ name ++ "/" ++ path,
        "third_party/dart/" ++ name ++ "/" ++ path])

def resolve? (i : FileIndex) (spec : String) (importer : Importer) (own : Option String) :
    Option String :=
  if Text.startsWith "dart:" spec then none
  else
    (package? i spec own).or <|
      if !Search.looksLikePath spec then none
      else
        (PathLike.resolve? i spec importer).or <|
          let rel := Path.normalize spec
          if rel = "" ∨ Path.isRooted rel then none
          else
            Search.fromBases? i
              [Path.join importer.dir rel,rel,"lib/" ++ rel,"src/" ++ rel] [".dart"] []

end Dart
end ImportResolution
