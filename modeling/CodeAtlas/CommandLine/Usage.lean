import CodeAtlas.CommandLine.Words

/-!
# How the commands are used
-/

namespace CodeAtlas.CommandLine

/-- The help text. -/
def usage : String := String.intercalate "\n"
  ["usage: code-atlas [--log-level LEVEL] [--graph-backend neo4j|json] COMMAND",
    "",
    "  index ROOT [--no-enrich]",
    "      Index a directory once. Without --no-enrich its functions are summarised, too.",
    "  watch ROOT",
    "      Index a directory and follow its changes.",
    "  serve [--transport stdio|http] [--host HOST] [--port PORT] [--watch ROOT]",
    "      Offer the tools to a language model.",
    "  api [--host HOST] [--port PORT]",
    "      Offer the HTTP service."]

/-- What is written when no arguments come of a command line. -/
def Stop.text : Stop → String
  | help => usage
  | misuse why => s!"code-atlas: error: {why}"

end CodeAtlas.CommandLine
