import CodeAtlas.Models.LanguageModel

/-!
# A transport with one answer

Calls are written down and all answered in the same way.
-/

namespace CodeAtlas.Models

structure FixedAnswer where
  answer : Except Fault ModelReply
  sent : List ModelCall
  notices : List Notice

namespace FixedAnswer

def new (answer : Except Fault ModelReply) : FixedAnswer := ⟨answer, [], []⟩

def transport : Transport FixedAnswer where
  send c := do
    modify fun s ↦ { s with sent := s.sent ++ [c] }
    ofExcept (← getThe FixedAnswer).answer
  note n s := { s with notices := s.notices ++ [n] }

end FixedAnswer

end CodeAtlas.Models
