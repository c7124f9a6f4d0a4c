import ImportResolution.Path

/-! Build labels of the form `@repo//package:target`. A label without target names the target after
its package, and one without package belongs to the directory that it is read in. -/
namespace ImportResolution

structure Label where
  repo : Option String
  package : String
  target : String
  deriving DecidableEq, Repr

namespace Label

/-- The part of a label behind its double slash. -/
def ofBody? (repo : Option String) (body : String) : Option Label :=
  if Path.isRooted body then none
  else
    let cut := (Text.cut? ":" body).getD (body,Path.baseName body)
    if cut.1 = "" ∧ cut.2 = "" then none else some ⟨repo,cut.1,cut.2⟩

def parse? (spec dir : String) : Option Label :=
  let spec := Text.trim spec
  match Text.afterHead? "@" spec with
  | some rest => (Text.cut? "//" rest).bind fun cut => ofBody? (some cut.1) cut.2
  | none =>
    match Text.afterHead? "//" spec with
    | some body => ofBody? none body
    | none =>
      match Text.afterHead? ":" spec with
      | some target => if target = "" then none else some ⟨none,dir,target⟩
      | none => none

def render (l : Label) : String :=
  ((l.repo.map ("@" ++ ·)).getD "") ++ "//" ++ l.package ++ ":" ++ l.target

end Label
end ImportResolution
