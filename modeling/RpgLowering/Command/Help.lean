/-! What the command says about itself. -/
namespace RpgLowering.Command

def usage : String := "Usage: rj [OPTIONS] <INPUT>"

def versionText : String := "rj 0.1.0\n"

def summary : String :=
  "Translate resolved RPG programs into Java\n\n" ++ usage ++ "\n\n" ++
  "Arguments:\n" ++
  "  <INPUT>  Resolved compilation unit, serialized as JSON\n\n" ++
  "Options:\n" ++
  "      --name <NAME>              Name of the generated class (defaults to the input file " ++
    "name)\n" ++
  "      --emit <EMIT>              Output to emit [default: java] [possible values: java, ir]\n" ++
  "  -v, --verbose...               Enable verbose logging (use multiple times for increased " ++
    "verbosity)\n" ++
  "  -q, --quiet                    Suppress non-error output\n" ++
  "      --log <LOG>                Set log level (overrides --verbose/--quiet) " ++
    "[possible values: error, warn, info, debug, trace]\n" ++
  "      --log-format <LOG_FORMAT>  Set log output format [default: pretty] " ++
    "[possible values: pretty, json]\n" ++
  "  -c, --config <CONFIG>          Configuration file path\n" ++
  "  -h, --help                     Print help (see more with '--help')\n" ++
  "  -V, --version                  Print version\n"

def manual : String :=
  "Translate resolved RPG programs into Java\n\n" ++ usage ++ "\n\n" ++
  "Arguments:\n" ++
  "  <INPUT>\n          Resolved compilation unit, serialized as JSON\n\n" ++
  "Options:\n" ++
  "      --name <NAME>\n" ++
  "          Name of the generated class (defaults to the input file name)\n\n" ++
  "      --emit <EMIT>\n" ++
  "          Output to emit\n          \n          [default: java]\n\n" ++
  "          Possible values:\n" ++
  "          - java: Generated Java source\n" ++
  "          - ir:   Pretty-printed intermediate representation\n\n" ++
  "  -v, --verbose...\n" ++
  "          Enable verbose logging (use multiple times for increased verbosity)\n\n" ++
  "  -q, --quiet\n          Suppress non-error output\n\n" ++
  "      --log <LOG>\n" ++
  "          Set log level (overrides --verbose/--quiet)\n          \n" ++
  "          [possible values: error, warn, info, debug, trace]\n\n" ++
  "      --log-format <LOG_FORMAT>\n" ++
  "          Set log output format\n          \n" ++
  "          [default: pretty]\n          [possible values: pretty, json]\n\n" ++
  "  -c, --config <CONFIG>\n          Configuration file path\n\n" ++
  "  -h, --help\n          Print help (see a summary with '-h')\n\n" ++
  "  -V, --version\n          Print version\n"

end RpgLowering.Command
