import CodeAtlas.Json.Reader
import CodeAtlas.Text.Blank

/-!
# Replies of a language model

A model wraps what it was asked for: in reasoning it thinks aloud, in a fenced block, in prose around
a JSON object. The functions here take the wrapping off.
-/

namespace CodeAtlas.Reply

/-- Splits at the first occurrence of a mark, which belongs to neither part. -/
def cut? (mark : List Char) : List Char → Option (List Char × List Char)
  | [] => if mark.isEmpty then some ([], []) else none
  | c :: rest =>
    if mark.isPrefixOf (c :: rest) then some ([], (c :: rest).drop mark.length)
    else (cut? mark rest).map fun (before, after) ↦ (c :: before, after)

theorem length_of_cut? {mark cs before after : List Char} (h : cut? mark cs = some (before, after)) :
    before.length + mark.length + after.length = cs.length := by
  induction cs generalizing before with
  | nil =>
    cases mark with
    | nil =>
      simp [cut?] at h
      simp [h.1, h.2]
    | cons m ms => simp [cut?] at h
  | cons c rest ih =>
    unfold cut? at h
    split at h
    · next hp =>
      have hle := (List.isPrefixOf_iff_prefix.1 hp).length_le
      simp only [Option.some.injEq, Prod.mk.injEq] at h
      rw [← h.1, ← h.2]
      simp only [List.length_nil, List.length_drop]
      omega
    · obtain ⟨p, hp, he⟩ := Option.map_eq_some_iff.1 h
      simp only [Prod.mk.injEq] at he
      have := @ih p.1 (by rw [hp, ← he.2])
      rw [← he.1]
      simp only [List.length_cons]
      omega

/-! ## Reasoning -/

def reasoningStart : List Char := "<think>".toList

def reasoningEnd : List Char := "</think>".toList

/-- Removes every block of reasoning, from its opening mark to the next closing one. -/
def dropReasoning (cs : List Char) : List Char :=
  match _h : cut? reasoningStart cs with
  | none => cs
  | some (before, rest) =>
    match _h' : cut? reasoningEnd rest with
    | none => cs
    | some (_, after) => before ++ dropReasoning after
termination_by cs.length
decreasing_by
  have h1 := length_of_cut? _h
  have h2 := length_of_cut? _h'
  have : reasoningStart.length = 7 := rfl
  omega

/-- A reply without its reasoning. -/
def withoutReasoning (text : String) : String :=
  String.ofList (Text.trimList (dropReasoning text.toList))

/-! ## Fenced blocks -/

def fence : List Char := ['\x60', '\x60', '\x60']

/-- What the first fenced block holds, without the word behind the opening fence. -/
def fenced? (cs : List Char) : Option (List Char) :=
  match cut? fence cs with
  | none => none
  | some (_, rest) =>
    (cut? fence ((rest.dropWhile Char.isAlpha).dropWhile Text.isBlank)).map fun p ↦ p.1

/-- The content of the first fenced block, or the whole text if there is none. -/
def withoutFence (text : String) : String :=
  String.ofList (Text.trimList ((fenced? text.toList).getD text.toList))

/-! ## Objects -/

/-- From the first opening to the last closing brace. -/
def objectSpan? (cs : List Char) : Option (List Char) :=
  let span := ((cs.dropWhile (· != '\x7b')).reverse.dropWhile (· != '\x7d')).reverse
  if span.isEmpty then none else some span

/-- The JSON object in a reply. A span that is no JSON, or no object, gives nothing; the two faults
that are no fault of the syntax are passed on. -/
def object? (text : String) : Except Json.ReadError (Option Props) :=
  match objectSpan? text.toList with
  | none => .ok none
  | some span =>
    match Json.read (String.ofList span) with
    | .ok (.map entries) => .ok (some entries)
    | .ok _ => .ok none
    | .error .malformed => .ok none
    | .error e => .error e

end CodeAtlas.Reply
