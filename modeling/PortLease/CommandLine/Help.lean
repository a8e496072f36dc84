import PortLease.CommandLine

namespace PortLease.CommandLine

def version : String := "1.3.19"

def configOption : String := "      --config <CONFIG>  Configuration file (YAML)"

def verboseOption : String := "  -v, --verbose          Enable verbose logging"

def helpOption : String := "  -h, --help             Print help"

def Topic.lines : Topic → List String
  | .program => [
      "ConceptKernel port reservations", "",
      "Usage: ckports [OPTIONS] <COMMAND>", "",
      "Commands:",
      "  range    Show the ephemeral range and the reservable port space",
      "  netstat  List busy TCP ports from the OS port table",
      "  check    Check whether a port may be reserved",
      "  reserve  Reserve free ports and print them",
      "  help     Print this message or the help of the given subcommand(s)", "",
      "Options:", configOption, verboseOption, helpOption,
      "  -V, --version          Print version"]
  | .subcommand .range => [
      "Show the ephemeral range and the reservable port space", "",
      "Usage: ckports range [OPTIONS]", "",
      "Options:", configOption, verboseOption, helpOption]
  | .subcommand .netstat => [
      "List busy TCP ports from the OS port table", "",
      "Usage: ckports netstat [OPTIONS]", "",
      "Options:", configOption,
      "      --port <PORT>      Only sockets whose local port is this one",
      "      --format <FORMAT>  Output format (table, json, yaml) [default: table]",
      verboseOption, helpOption]
  | .subcommand .check => [
      "Check whether a port may be reserved", "",
      "Usage: ckports check [OPTIONS] <PORT>", "",
      "Arguments:", "  <PORT>  Port number", "",
      "Options:", configOption, verboseOption, helpOption]
  | .subcommand .reserve => [
      "Reserve free ports and print them", "",
      "Usage: ckports reserve [OPTIONS]", "",
      "Options:", configOption,
      "  -n, --count <COUNT>    Number of ports [default: 1]",
      "      --hold             " ++
        "Keep the reservations until Ctrl+C, then release with verification",
      verboseOption, helpOption]
  | .help => [
      "Print this message or the help of the given subcommand(s)", "",
      "Usage: ckports help [COMMAND]...", "",
      "Arguments:", "  [COMMAND]...  Print help for the subcommand(s)"]

def Topic.text (topic : Topic) : String :=
  String.join (topic.lines.map (· ++ "\n"))

def versionText : String := s!"ckports {version}\n"

end PortLease.CommandLine
