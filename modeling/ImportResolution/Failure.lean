/-! What can fail around a run: the cache on the disk, manifests, settings and inputs. The resolution of
a specifier never fails. -/
namespace ImportResolution

inductive Failure
  | cacheAccess (place cause : String)
  | cacheInvalid (details : String)
  | manifest (place reason : String)
  | fileRead (place cause : String)
  | settings (reason : String)
  | input (reason : String)
  deriving DecidableEq, Repr

namespace Failure

def message : Failure → String
  | cacheAccess place cause => "cache io error at '" ++ place ++ "': " ++ cause
  | cacheInvalid details => "invalid cache: " ++ details
  | manifest place reason => "Failed to parse manifest '" ++ place ++ "': " ++ reason
  | fileRead place cause => "Failed to read file '" ++ place ++ "': " ++ cause
  | settings reason => "Invalid configuration: " ++ reason
  | input reason => "Invalid input: " ++ reason

/-- The name of the failure for programs. -/
def code : Failure → String
  | cacheAccess _ _ => "RESOLUTION_CACHE_IO"
  | cacheInvalid _ => "RESOLUTION_INVALID_CACHE"
  | manifest _ _ => "MANIFEST_PARSE_ERROR"
  | fileRead _ _ => "FILE_READ_ERROR"
  | settings _ => "CONFIG_ERROR"
  | input _ => "INVALID_INPUT"

/-- What may help. -/
def suggestions : Failure → List String
  | cacheAccess _ _ =>
    ["Ensure the cache directory exists and is writable",
     "Check disk space and permissions",
     "Delete the on-disk cache to force a rebuild"]
  | cacheInvalid _ =>
    ["Delete the on-disk cache to force a rebuild",
     "Verify importgraph version compatibility with cache format"]
  | manifest _ _ =>
    ["Check JSON syntax, comments, and trailing commas",
     "Resolution continues without this manifest for the affected subtree"]
  | fileRead _ _ =>
    ["Check that the file exists and is readable",
     "Verify the repository root passed to the resolver"]
  | settings _ =>
    ["Check .importgraph/settings.toml for syntax errors",
     "Run 'importgraph init --force' to regenerate the configuration"]
  | input _ =>
    ["The imports file must be a JSON object mapping relative paths to arrays of specifiers"]

end Failure
end ImportResolution
