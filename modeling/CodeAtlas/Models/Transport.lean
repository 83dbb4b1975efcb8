import CodeAtlas.Effect
import CodeAtlas.Settings

/-!
# Calls to model services

Two kinds of services offer models. One is reached by posting JSON to a host, the other through a
client that takes a request apart by itself. A call is what such a service is asked; it is answered
with a status and data of any shape.
-/

namespace CodeAtlas.Models

/-- What a service is asked. -/
inductive ModelCall where
  | post (url : String) (json : Props) (timeout : Number)
  /-- To continue a conversation that consists of a prompt. -/
  | chat (model prompt : String) (temperature : Number)
  | embedding (model input : String)

namespace ModelCall

def toDatum : ModelCall → Datum
  | post url json timeout =>
    .map [("url", .text url), ("json", .map json), ("timeout", timeout.toDatum)]
  | chat model prompt temperature =>
    .map [("model", .text model),
      ("messages", .list [.map [("role", .text "user"), ("content", .text prompt)]]),
      ("temperature", temperature.toDatum)]
  | embedding model input => .map [("model", .text model), ("input", .text input)]

instance : ToDatum ModelCall := ⟨toDatum⟩

end ModelCall

structure ModelReply where
  status : Int
  body : Datum

/-- A way to reach the services. -/
structure Transport (σ : Type) where
  send : ModelCall → Effect σ ModelReply
  note : Notice → σ → σ

/-- The body of a reply, unless its status tells of an error. -/
def ModelReply.content (r : ModelReply) : Except Fault Datum :=
  if r.status < 400 then .ok r.body else .error (.outside .runtime s!"HTTP {r.status}")

namespace Transport

variable {σ α : Type}

/-- Reports a failure and passes it on. -/
def reporting (t : Transport σ) (source what : String) (step : Effect σ α) : Effect σ α := do
  match ← step.attempt with
  | .ok a => pure a
  | .error e =>
    modify (t.note ⟨true, source, s!"Error generating {what}: {e.text}"⟩)
    throw e

end Transport

end CodeAtlas.Models
