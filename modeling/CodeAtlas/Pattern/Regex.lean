/-!
# Regular expressions

An expression is matched at a *place*: what lies before a position of a text, read backwards, what
lies behind it, and what the groups have matched so far. Matching tries the ways through the
expression in order, the greedy ones first, and takes the first that leads on to a match of all that
follows; what follows is a function from the place where the match ends.
-/

namespace CodeAtlas.Pattern

/-- A position in a text. -/
structure Place where
  /-- The characters before the position, the nearest first. -/
  before : List Char
  after : List Char
  /-- What the groups have matched, the latest first. -/
  groups : List (Nat × List Char)

/-- How often an expression is tried once more: as often as possible or as seldom as possible. -/
inductive Appetite where
  | greedy
  | lazy
  deriving DecidableEq, Repr

inductive Regex where
  | empty
  /-- One character with a property. -/
  | set (p : Char → Bool)
  | seq (r s : Regex)
  | alt (r s : Regex)
  /-- At least `least` times and, if there is a bound, at most `most` times. -/
  | rep (r : Regex) (least : Nat) (most : Option Nat) (appetite : Appetite)
  /-- A condition on the place. -/
  | at (holds : Place → Bool)
  /-- Does the expression match ahead, or fail to? Nothing is consumed. -/
  | ahead (wanted : Bool) (r : Regex)
  /-- Does the expression, which is `width` characters wide, match before the place? -/
  | behind (wanted : Bool) (width : Nat) (r : Regex)
  /-- What the expression matches is remembered under a number. -/
  | group (number : Nat) (r : Regex)
  /-- The text of a group once more, compared by `key`. -/
  | again (number : Nat) (key : Char → Char)
  /-- The first expression if the group has matched, the second if not. -/
  | choose (number : Nat) (r s : Regex)
  /-- Only the first way through the expression is tried. -/
  | once (r : Regex)

namespace Place

/-- The place at the start of a text. -/
def start (text : List Char) : Place := ⟨[], text, []⟩

/-- The place behind the next character. -/
def next (p : Place) : Place :=
  match p.after with
  | [] => p
  | c :: rest => { p with before := c :: p.before, after := rest }

/-- The place `n` characters on. -/
def forward (p : Place) : Nat → Place
  | 0 => p
  | n + 1 => p.next.forward n

/-- The place `n` characters back. -/
def back (p : Place) (n : Nat) : Place :=
  { p with before := p.before.drop n, after := (p.before.take n).reverse ++ p.after }

/-- The text between an earlier place and this one. -/
def since (p q : Place) : List Char := (p.before.take (p.before.length - q.before.length)).reverse

/-- What a group has matched. -/
def group? (p : Place) (number : Nat) : Option (List Char) :=
  (p.groups.find? fun g ↦ g.1 == number).map (·.2)

end Place

/-- A way to go on from a place to the end of a match. -/
abbrev Onward := Place → Option Place

namespace Regex

/-- Takes a step a number of times. -/
def times (step : Place → Onward → Option Place) : Nat → Place → Onward → Option Place
  | 0, p, k => k p
  | n + 1, p, k => step p fun q ↦ times step n q k

/-- Takes a step at most a number of times. A step that consumes nothing is the last one. -/
def upTo (appetite : Appetite) (step : Place → Onward → Option Place) :
    Nat → Place → Onward → Option Place
  | 0, p, k => k p
  | n + 1, p, k =>
    let more := fun (_ : Unit) ↦ step p fun q ↦
      if q.after.length < p.after.length then upTo appetite step n q k else k q
    match appetite with
    | .greedy => (more ()).orElse fun _ ↦ k p
    | .lazy => (k p).orElse more

/-- The first way through the expression that leads on from a place to a match. An unbounded
repetition takes no more steps than there are characters left, and one that consumes nothing. -/
def run : Regex → Place → Onward → Option Place
  | empty, p, k => k p
  | set f, p, k =>
    match p.after with
    | c :: _ => if f c then k p.next else none
    | [] => none
  | seq r s, p, k => r.run p fun q ↦ s.run q k
  | alt r s, p, k => (r.run p k).orElse fun _ ↦ s.run p k
  | rep r least most appetite, p, k =>
    times r.run least p fun q ↦
      upTo appetite r.run (match most with
        | some n => n - least
        | none => q.after.length + 1) q k
  | .at holds, p, k => if holds p then k p else none
  | ahead wanted r, p, k =>
    match r.run p some with
    | some q => if wanted then k { p with groups := q.groups } else none
    | none => if wanted then none else k p
  | behind wanted width r, p, k =>
    match if width ≤ p.before.length then r.run (p.back width) some else none with
    | some q => if wanted then k { p with groups := q.groups } else none
    | none => if wanted then none else k p
  | group number r, p, k =>
    r.run p fun q ↦ k { q with groups := (number, q.since p) :: q.groups }
  | again number key, p, k =>
    match p.group? number with
    | some text =>
      if (text.map key).isPrefixOf (p.after.map key) then k (p.forward text.length) else none
    | none => none
  | choose number r s, p, k => if (p.group? number).isSome then r.run p k else s.run p k
  | once r, p, k => (r.run p some).bind k

/-- Is there a match at the start of the text? -/
def matchesStart (r : Regex) (text : List Char) : Bool := (r.run (.start text) some).isSome

/-- Is there a match at the place or behind it? -/
def occursFrom (r : Regex) : List Char → List Char → Bool
  | before, [] => (r.run ⟨before, [], []⟩ some).isSome
  | before, c :: rest =>
    (r.run ⟨before, c :: rest, []⟩ some).isSome || occursFrom r (c :: before) rest

/-- Does the expression match anywhere in the text? -/
def occursIn (r : Regex) (text : String) : Bool := r.occursFrom [] text.toList

/-! ## Width -/

/-- How many characters a match has: at least and, if there is a bound, at most. -/
structure Width where
  least : Nat
  most : Option Nat
  deriving DecidableEq, Repr

namespace Width

def none : Width := ⟨0, some 0⟩

def add (w v : Width) : Width :=
  ⟨w.least + v.least, w.most.bind fun m ↦ v.most.map fun n ↦ m + n⟩

def join (w v : Width) : Width :=
  ⟨min w.least v.least, w.most.bind fun m ↦ v.most.map fun n ↦ max m n⟩

def repeated (w : Width) (least : Nat) (most : Option Nat) : Width :=
  ⟨w.least * least, if w.most == some 0 then some 0 else w.most.bind fun m ↦ most.map fun n ↦ m * n⟩

end Width

/-- The width of an expression, given the widths of the groups it speaks of. -/
def width (groups : Nat → Width) : Regex → Width
  | empty | .at _ | ahead .. | behind .. => .none
  | set _ => ⟨1, some 1⟩
  | seq r s => (r.width groups).add (s.width groups)
  | alt r s | choose _ r s => (r.width groups).join (s.width groups)
  | rep r least most _ => (r.width groups).repeated least most
  | group _ r | once r => r.width groups
  | again number _ => groups number

/-! ## Common expressions -/

def char (c : Char) : Regex := set (· == c)

/-- Several expressions one behind the other. -/
def concat : List Regex → Regex
  | [] => empty
  | [r] => r
  | r :: rest => seq r (concat rest)

/-- Any number of times, but at least `least` times. -/
def many (r : Regex) (least : Nat) : Regex := rep r least none .greedy

def optional (r : Regex) : Regex := rep r 0 (some 1) .greedy

/-- Any character but a line feed. -/
def dot : Regex := set (· != '\n')

/-- The end of the text, or a line feed that ends it. -/
def textEnd : Regex := .at fun p ↦ p.after.isEmpty || p.after == ['\n']

def textStart : Regex := .at fun p ↦ p.before.isEmpty

end Regex

end CodeAtlas.Pattern
