import Reckoner.CommandLine.Arguments

/-!
# Usage and help

The lines that explain the command line.
-/

namespace Reckoner
namespace CommandLine

def usageLine : String :=
  "usage: infix-calculator [-h] [-v] [expressions ...]"

def helpLines : List String :=
  [usageLine,
    "",
    "Evaluate infix arithmetic expressions (evaluated strictly left to right)",
    "",
    "positional arguments:",
    "  expressions    Expressions to evaluate, e.g. '(2+3)*4'",
    "",
    "options:",
    "  -h, --help     show this help message and exit",
    "  -v, --verbose  Enable debug logging"]

def UsageError.lines (e : UsageError) : List String :=
  [usageLine, "infix-calculator: error: " ++ e.message]

end CommandLine
end Reckoner
