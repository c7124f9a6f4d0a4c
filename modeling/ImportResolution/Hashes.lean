import ImportResolution.Digest.Sha256
import ImportResolution.Disk
import ImportResolution.Failure
import ImportResolution.Table

/-! Digests of file contents, by which a later run knows that a file is unchanged. -/
namespace ImportResolution.Hashes

def ofFile (d : Disk) (place : String) : Except Failure String :=
  match d.read place with
  | .ok content => .ok (Digest.ofBytes content)
  | .error e => .error (.fileRead place e.message)

/-- The digests of those importers that can be read. -/
def ofImporters (d : Disk) (root : String) (importers : List String) : Table String :=
  Table.ofList (importers.filterMap fun importer =>
    let rel := Path.normalize importer
    (ofFile d (Location.ofRelative root rel)).toOption.map fun h => (rel,h))

end ImportResolution.Hashes
