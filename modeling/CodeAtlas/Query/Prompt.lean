/-!
# Prompts

The texts that are sent to a language model, as functions of what the model is asked about. What is
put in is never interpreted: braces and quotes in it stay as they are.
-/

namespace CodeAtlas.Prompt

/-- Asks for a summary of a function body. -/
def summary (code : String) : String :=
  "Given the following function body, generate a 3 line summary of what it does.\n"
    ++ "Respond with the summary only.\n"
    ++ "\n"
    ++ code ++ "\n"

/-- Asks a question about retrieved context. -/
def answer (query context : String) : String :=
  "You are answering a question about a codebase.\n"
    ++ "Use only the context below, which was retrieved from the code graph and the\n"
    ++ "function summaries. If the context does not contain the answer, say so.\n"
    ++ "\n"
    ++ "Question: " ++ query ++ "\n"
    ++ "\n"
    ++ "Context:\n"
    ++ context ++ "\n"
    ++ "\n"
    ++ "Answer:"

/-- Asks which of the two stores a query is for. -/
def classification (query : String) : String :=
  "You are an expert system architect with deep knowledge of graph databases (Neo4j)\n"
    ++ "and vector search over function summaries. The two stores hold:\n"
    ++ "\n"
    ++ "Graph database:\n"
    ++ "- Nodes:\n"
    ++ "  - File nodes with a 'path' property (string).\n"
    ++ "  - Function nodes with 'name' (string) and 'path' (string) properties.\n"
    ++ "- Relationships:\n"
    ++ "  - (File)-[:IMPORTS_FROM \x7b clause: string \x7d]->(File), where 'clause' is the name of "
    ++ "the imported function.\n"
    ++ "  - (Function)-[:CALLS]->(Function)\n"
    ++ "\n"
    ++ "Function summary store:\n"
    ++ "- One record per function with its name, path, code, a natural-language summary\n"
    ++ "  and an embedding of that summary for semantic search.\n"
    ++ "\n"
    ++ "Given a user query about functions or code, decide whether to run a vector search\n"
    ++ "over the function summaries or to query the graph database.\n"
    ++ "\n"
    ++ "Guidelines:\n"
    ++ "1. Natural-language descriptions or questions that look for functions by meaning,\n"
    ++ "   behaviour or similarity go to vector search.\n"
    ++ "2. Structural questions go to the graph: which functions call a given function,\n"
    ++ "   which files import a function, call hierarchies, dependency chains.\n"
    ++ "3. Queries mixing semantic intent with structural constraints go to vector search.\n"
    ++ "4. When the query is ambiguous or broad, prefer vector search to maximize recall.\n"
    ++ "\n"
    ++ "Explain the decision in one or two plain sentences without mentioning the\n"
    ++ "databases and without repeating the query.\n"
    ++ "\n"
    ++ "Answer with JSON only, in this shape:\n"
    ++ "\x7b\"reason\": string, \"decision\": \"vector\" | \"graph\", \"summary\": string\x7d\n"
    ++ "When the decision is \"vector\", \"summary\" is a one line description of the wanted\n"
    ++ "function to use for the vector search; otherwise leave it empty.\n"
    ++ "\n"
    ++ "Query: \"" ++ query ++ "\"\n"

/-- Tells the model what was wrong with its last query. -/
def correction (error : String) : String :=
  "\nThe previous query failed. Please avoid this error in the query: " ++ error ++ "\n"

/-- What a model has to know to write a graph query: the schema, what is asked for, and examples. -/
def cypherGuide : String :=
  "You are an expert Cypher query generator for a Neo4j database with this schema:\n"
    ++ "\n"
    ++ "- Nodes:\n"
    ++ "  - (File) nodes have a 'path' property (string).\n"
    ++ "  - (Function) nodes have 'name' (string) and 'path' (string) properties.\n"
    ++ "- Relationships:\n"
    ++ "  - (File)-[:IMPORTS_FROM \x7b clause: string \x7d]->(File)\n"
    ++ "    * 'clause' is the name of the imported function.\n"
    ++ "  - (Function)-[:CALLS]->(Function)\n"
    ++ "\n"
    ++ "Given a natural language query, write one read-only Cypher query that:\n"
    ++ "1. Matches the nodes relevant to the query.\n"
    ++ "2. Returns all relationships between the matched nodes.\n"
    ++ "3. Binds every matched node and relationship to a variable and returns them.\n"
    ++ "\n"
    ++ "Notes:\n"
    ++ "- Match functions on 'name', and on 'path' too when the query gives one.\n"
    ++ "- Match files on 'path'.\n"
    ++ "- Filter imports by function name with the IMPORTS_FROM 'clause' property.\n"
    ++ "\n"
    ++ "Examples:\n"
    ++ "\n"
    ++ "1. Query: \"Which functions are called by internalSyncCustomerWallet?\"\n"
    ++ "Cypher:\n"
    ++ "MATCH (caller:Function \x7bname: \"internalSyncCustomerWallet\"\x7d)-[rel:CALLS]->(callee:Function)\n"
    ++ "RETURN caller, callee, rel\n"
    ++ "\n"
    ++ "2. Query: \"Which files import a function named round?\"\n"
    ++ "Cypher:\n"
    ++ "MATCH (importer:File)-[rel:IMPORTS_FROM \x7bclause: \"round\"\x7d]->(importee:File)\n"
    ++ "RETURN importer, importee, rel\n"
    ++ "\n"
    ++ "3. Query: \"Show all functions and files related to the function 'processOrder' including their calls and imports.\"\n"
    ++ "Cypher:\n"
    ++ "MATCH (f:Function \x7bname: \"processOrder\"\x7d)\n"
    ++ "OPTIONAL MATCH (f)-[callRel:CALLS]->(calledFunc:Function)\n"
    ++ "OPTIONAL MATCH (file:File \x7bpath: f.path\x7d)-[importRel:IMPORTS_FROM]->(importedFile:File)\n"
    ++ "RETURN f, callRel, calledFunc, file, importRel, importedFile\n"

/-- Asks for a graph query; a correction may be put before the question. -/
def cypherWith (query correction : String) : String :=
  cypherGuide
    ++ correction ++ "\n"
    ++ "Query: \"" ++ query ++ "\"\n"
    ++ "\n"
    ++ "Return only the Cypher query.\n"

/-- Asks for a graph query, with the error of the last attempt if there was one. -/
def cypher (query : String) (error : Option String) : String :=
  cypherWith query (match error with
    | some e => if e.isEmpty then "" else correction e
    | none => "")

end CodeAtlas.Prompt
