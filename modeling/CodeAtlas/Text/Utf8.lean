/-!
# Reading bytes as text

A byte sequence is read as UTF-8. Where it is not well formed, the longest prefix that could have
started a character counts as one fault, and reading goes on behind it. A reader chooses what
stands for a fault: the replacement character, or nothing.
-/

namespace CodeAtlas.Text

def isContinuation (b : UInt8) : Bool := 0x80 ≤ b && b ≤ 0xBF

/-- How many bytes follow a first byte, and the range allowed for the second. -/
def sequenceShape (b : UInt8) : Option (Nat × UInt8 × UInt8) :=
  if 0xC2 ≤ b && b ≤ 0xDF then some (1, 0x80, 0xBF)
  else if b == 0xE0 then some (2, 0xA0, 0xBF)
  else if b == 0xED then some (2, 0x80, 0x9F)
  else if 0xE1 ≤ b && b ≤ 0xEF then some (2, 0x80, 0xBF)
  else if b == 0xF0 then some (3, 0x90, 0xBF)
  else if b == 0xF4 then some (3, 0x80, 0x8F)
  else if 0xF1 ≤ b && b ≤ 0xF3 then some (3, 0x80, 0xBF)
  else none

/-- The bits that a first byte contributes when `n` bytes follow. -/
def leadBits (n : Nat) (b : UInt8) : Nat := b.toNat % Nat.pow 2 (6 - n)

/-- A sequence that has been started: what has been read and what may come next. -/
structure Pending where
  code : Nat
  missing : Nat
  low : UInt8
  high : UInt8

/-- Decodes, with `fault` in place of each ill-formed sequence. -/
def decodeFrom (fault : List Char) : Option Pending → List UInt8 → List Char
  | none, [] => []
  | some _, [] => fault
  | none, b :: rest =>
    if b < 0x80 then Char.ofNat b.toNat :: decodeFrom fault none rest
    else match sequenceShape b with
      | some (n, low, high) => decodeFrom fault (some ⟨leadBits n b, n, low, high⟩) rest
      | none => fault ++ decodeFrom fault none rest
  | some p, b :: rest =>
    if p.low ≤ b && b ≤ p.high then
      let code := p.code * 64 + b.toNat % 64
      if p.missing ≤ 1 then Char.ofNat code :: decodeFrom fault none rest
      else decodeFrom fault (some ⟨code, p.missing - 1, 0x80, 0xBF⟩) rest
    else if b < 0x80 then fault ++ Char.ofNat b.toNat :: decodeFrom fault none rest
    else match sequenceShape b with
      | some (n, low, high) => fault ++ decodeFrom fault (some ⟨leadBits n b, n, low, high⟩) rest
      | none => fault ++ fault ++ decodeFrom fault none rest

/-- Decodes, with the replacement character for each fault. -/
def decodeReplacing (bytes : List UInt8) : List Char := decodeFrom ['\uFFFD'] none bytes

/-- Decodes, leaving faults out. -/
def decodeSkipping (bytes : List UInt8) : List Char := decodeFrom [] none bytes

end CodeAtlas.Text
