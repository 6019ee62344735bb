import Reshape.Command.Arguments

/-!
# Help

* `Topic.text` is what the program says about itself and its commands.
* `versionText` is its name and version.
-/

namespace Reshape.Command

/-- Name and version of the program. -/
def versionText : String := "rustic 0.1.0\n"

/-- What the program says about a topic. -/
def Topic.lines : Topic → List String
  | .program => [
      "Structural refactorings for Rust sources", "",
      "Usage: rustic [OPTIONS] <COMMAND>", "",
      "Commands:",
      "  convert-to-tuple  Convert a named-field struct or enum variant into a tuple struct",
      "  symbols           Print the structure of a file",
      "  lsp               Start the LSP server (communicates via stdin/stdout)",
      "  help              Print this message or the help of the given subcommand(s)", "",
      "Options:",
      "  -v, --verbose...  Increase logging verbosity (-v info, -vv debug, -vvv trace)",
      "  -h, --help        Print help",
      "  -V, --version     Print version"]
  | .convert => [
      "Convert a named-field struct or enum variant into a tuple struct", "",
      "Usage: rustic convert-to-tuple [OPTIONS] <LOCATION>", "",
      "Arguments:",
      "  <LOCATION>  Position of the declaration, as `<file>:<line>:<col>` (1-based)", "",
      "Options:",
      "      --root <ROOT>      Project directory whose files are searched for usages (defaults to the",
      "                         file's directory)",
      "  -v, --verbose...       Increase logging verbosity (-v info, -vv debug, -vvv trace)",
      "      --dry-run          Print the converted files instead of writing them",
      "      --config <CONFIG>  Configuration file (defaults to `rustic.toml` in the root)",
      "  -h, --help             Print help"]
  | .symbols => [
      "Print the structure of a file", "",
      "Usage: rustic symbols [OPTIONS] <FILE>", "",
      "Arguments:",
      "  <FILE>  Path to a Rust source file", "",
      "Options:",
      "  -v, --verbose...  Increase logging verbosity (-v info, -vv debug, -vvv trace)",
      "  -h, --help        Print help"]
  | .serve => [
      "Start the LSP server (communicates via stdin/stdout)", "",
      "Usage: rustic lsp [OPTIONS]", "",
      "Options:",
      "  -v, --verbose...  Increase logging verbosity (-v info, -vv debug, -vvv trace)",
      "  -h, --help        Print help"]
  | .help => [
      "Print this message or the help of the given subcommand(s)", "",
      "Usage: rustic help [COMMAND]...", "",
      "Arguments:",
      "  [COMMAND]...  Print help for the subcommand(s)"]

/-- What the program says about a topic, as one text. -/
def Topic.text (t : Topic) : String := "".intercalate (t.lines.map (· ++ "\n"))

end Reshape.Command
