import WorkflowLint.CommandLine.Option

/-! The help texts. -/

set_option autoImplicit false

namespace WorkflowLint.CommandLine

def helpLines : Scope → List String
  | .program =>
    ["Lint GitHub Actions workflow files",
      "",
      "Usage: wflint [OPTIONS] <COMMAND>",
      "",
      "Commands:",
      "  version  Show version",
      "  lint     Run lint checks",
      "  help     Print this message or the help of the given command",
      "",
      "Options:",
      "  -v, --verbose...  Increase log verbosity (-v info, -vv debug)",
      "  -h, --help        Print help",
      "  -V, --version     Print version",
      "",
      "Examples:",
      "  wflint lint .github/workflows",
      "  wflint lint --strict .github/workflows/ci.yml",
      "  wflint lint --output json --offline .github"]
  | .version =>
    ["Show version",
      "",
      "Usage: wflint version [OPTIONS]",
      "",
      "Options:",
      "  -v, --verbose...  Increase log verbosity (-v info, -vv debug)",
      "  -h, --help        Print help"]
  | .lint =>
    ["Run lint checks",
      "",
      "Usage: wflint lint [OPTIONS] <INPUT>...",
      "",
      "Arguments:",
      "  <INPUT>...  Files, directories or glob patterns (whitespace-separated lists accepted)",
      "",
      "Options:",
      "  -v, --verbose...             Increase log verbosity (-v info, -vv debug)",
      "  -s, --strict                 Return a non-zero exit code on warnings as well as errors",
      "      --output <OUTPUT>        Output mode: human|json (default: human)",
      "      --repo-root <REPO_ROOT>  Repository root used for config discovery (default: current dir)",
      "      --offline                Skip registry lookups (existence and update checks)",
      "  -h, --help                   Print help",
      "",
      "Exit codes:",
      "  0  no problems (or only warnings without --strict)",
      "  1  warnings with --strict",
      "  2  errors",
      "  255  no workflow files found"]
  | .help =>
    ["Print this message or the help of the given command",
      "",
      "Usage: wflint help [COMMAND]"]

def help (scope : Scope) : String := "\n".intercalate (helpLines scope) ++ "\n"

end WorkflowLint.CommandLine
