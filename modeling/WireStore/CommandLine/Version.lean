/-!
# Version

The version of both programs, and the line each prints when asked for it.
-/

namespace WireStore

/-- The version of the library and of its programs. -/
def version : String := "0.1.0"

namespace CommandLine

/-- The line a program prints when asked for its version. -/
def versionLine (program : String) : String := program ++ " " ++ version ++ "\n"

end CommandLine

end WireStore
