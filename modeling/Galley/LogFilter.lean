/-!
# The filter of the log

Which parts of the program write to its log is told by the environment.
-/
namespace Galley.LogFilter

def default : String := "lemc=info,tower_http=info"

/-- The directives of the general variable, else of the program's own, else the default ones. -/
def ofEnvironment (env : String → Option String) : String :=
  ((env "RUST_LOG").orElse fun _ => env "LEMC_LOG").getD default

end Galley.LogFilter
