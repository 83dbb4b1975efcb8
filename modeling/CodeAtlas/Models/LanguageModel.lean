import CodeAtlas.Lookup
import CodeAtlas.Models.Transport

/-!
# Language models and embedders

A language model completes a prompt, an embedder turns a text into a vector. Each is offered by two
services, and the settings say which one is used. What a service answers is passed on as it is.
-/

namespace CodeAtlas.Models

/-- The address of a host without the slashes at its end. -/
def hostAddress (host : String) : String :=
  String.ofList (host.toList.reverse.dropWhile (· == '/')).reverse

/-- There has to be a key for a service. -/
def requireKey (service : String) (key : Option String) : Except Fault Unit :=
  if (key.getD "").isEmpty then .error (.missingApiKey service) else .ok ()

/-! ## Language models -/

inductive LanguageModel where
  | ollama (host model : String) (temperature : Number)
  | openai (model : String) (temperature : Number)

namespace LanguageModel

def ofSettings (s : Settings) : Except Fault LanguageModel :=
  match s.llmProvider with
  | "ollama" => .ok (.ollama s.ollamaHost s.ollamaChatModel s.llmTemperature)
  | "openai" => do
    requireKey "the OpenAI LLM provider" s.openaiApiKey
    pure (.openai s.openaiChatModel s.llmTemperature)
  | other => .error (.unsupported "LLM provider" other)

/-- The model with the address that calls are sent to, where there is one. -/
def toProps : LanguageModel → Props
  | ollama host model temperature =>
    [("model", .text model), ("host", .text (hostAddress host)),
      ("temperature", temperature.toDatum)]
  | openai model temperature =>
    [("model", .text model), ("host", .null), ("temperature", temperature.toDatum)]

/-- Completes a prompt. Without an answer the completion is the empty text. -/
def complete {σ : Type} (t : Transport σ) (timeout : Number) (prompt : String) :
    LanguageModel → Effect σ Datum
  | ollama host model temperature => t.reporting "ollama_llm" "Ollama completion" do
    let reply ← t.send (.post (hostAddress host ++ "/api/generate")
      [("model", .text model), ("prompt", .text prompt), ("stream", .bool false),
        ("options", .map [("temperature", temperature.toDatum)])] timeout)
    let entries ← ofExcept (reply.content >>= Lookup.entries "get")
    pure ((Props.get? "response" entries).getD (.text ""))
  | openai model temperature => t.reporting "openai_llm" "OpenAI completion" do
    let reply ← t.send (.chat model prompt temperature)
    pure (if reply.body.truthy then reply.body else .text "")

end LanguageModel

/-! ## Embedders -/

inductive Embedder where
  | ollama (host model : String) (dimension : Int)
  | openai (model : String)

namespace Embedder

def ofSettings (s : Settings) : Except Fault Embedder :=
  match s.embeddingProvider with
  | "ollama" => .ok (.ollama s.ollamaHost s.ollamaModel s.milvusDimension)
  | "openai" => do
    requireKey "OpenAI embeddings" s.openaiApiKey
    pure (.openai s.openaiModel)
  | other => .error (.unsupported "embedding provider" other)

/-- How many numbers an embedding has. -/
def dimension : Embedder → Int
  | ollama _ _ d => d
  | openai "text-embedding-3-large" => 3072
  | openai _ => 1536

/-- The model with the address that calls are sent to, where there is one. -/
def toProps (e : Embedder) : Props :=
  (match e with
  | ollama host model _ => [("model", .text model), ("host", .text (hostAddress host))]
  | openai model => [("model", .text model), ("host", .null)]) ++ [("dimension", .int e.dimension)]

def embed {σ : Type} (t : Transport σ) (timeout : Number) (text : String) :
    Embedder → Effect σ Datum
  | ollama host model _ => t.reporting "ollama_embedding" "Ollama embedding" do
    let reply ← t.send (.post (hostAddress host ++ "/api/embeddings")
      [("model", .text model), ("prompt", .text text)] timeout)
    ofExcept (reply.content >>= Lookup.field "embedding")
  | openai model => t.reporting "openai_embedding" "OpenAI embedding" do
    let reply ← t.send (.embedding model text)
    pure reply.body

end Embedder

end CodeAtlas.Models
