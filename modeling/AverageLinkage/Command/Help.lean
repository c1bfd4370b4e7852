import AverageLinkage.Command.Usage

/-!
# Help texts
-/

namespace AverageLinkage.Usage

def versionText : String := "affinage 0.1.0\n"

def Topic.lines : Topic → List String
  | .overview =>
      ["Build affinity graphs from distance matrices and cluster them with average linkage.",
        "",
        "Usage: affinage <COMMAND>",
        "",
        "Commands:",
        "  affinity  Threshold a distance matrix into a Gaussian-kernel affinity graph",
        "  cluster   Cluster an affinity graph into an average-link dendrogram",
        "  help      Print this message or the help of the given subcommand(s)",
        "",
        "Options:",
        "  -h, --help     Print help",
        "  -V, --version  Print version"]
  | .affinity =>
      ["Threshold a distance matrix into a Gaussian-kernel affinity graph",
        "",
        "Usage: affinage affinity [OPTIONS] --max-distance <MAX_DISTANCE> <MATRIX> <GRAPH>",
        "",
        "Arguments:",
        "  <MATRIX>  Whitespace-separated square distance matrix, one row per line",
        "  <GRAPH>   Destination of the affinity graph",
        "",
        "Options:",
        "      --max-distance <MAX_DISTANCE>  Largest distance that still produces an edge",
        "      --variance <VARIANCE>          Kernel variance (defaults to 3600)",
        "  -h, --help                         Print help"]
  | .cluster =>
      ["Cluster an affinity graph into an average-link dendrogram",
        "",
        "Usage: affinage cluster [OPTIONS] <GRAPH> <DENDROGRAM>",
        "",
        "Arguments:",
        "  <GRAPH>       Affinity graph produced by `affinity`",
        "  <DENDROGRAM>  Destination of the dendrogram",
        "",
        "Options:",
        "      --heights  Append each node's merge height as a fourth column",
        "  -h, --help     Print help"]
  | .help =>
      ["Print this message or the help of the given subcommand(s)",
        "",
        "Usage: affinage help [COMMAND]...",
        "",
        "Arguments:",
        "  [COMMAND]...  Print help for the subcommand(s)"]

def Topic.text (topic : Topic) : String :=
  String.join (topic.lines.map (· ++ "\n"))

/-- What a refused command line is told on the standard error. -/
def Refusal.complaint : Refusal → String
  | .help _ => ""
  | .version => ""
  | .missingCommand => Topic.overview.text
  | .unknownCommand => "error: unrecognized command\n"
  | .unknownArgument => "error: unexpected argument\n"
  | .missingArgument => "error: required arguments were not provided\n"
  | .missingValue => "error: a value is required\n"
  | .malformedValue => "error: a value is not a number\n"
  | .repeatedOption => "error: an option was given more than once\n"
  | .unexpectedValue => "error: a flag takes no value\n"

/-- What a refused command line prints on the standard output. -/
def Refusal.output : Refusal → String
  | .help topic => topic.text
  | .version => versionText
  | _ => ""

end AverageLinkage.Usage
