import CodeAtlas.Fault

/-!
# Combining and ordering scores

Two lists of scores, one of similarity and one of relevance, are brought to the same range, weighted
and added; candidates are then ordered by the sum, best first, and equal sums keep their order.

All of it is stated for any kind of number, so that it can be reasoned about in exact arithmetic. A
score that is not equal to itself is not comparable; what order such scores give is fixed all the
same, by inserting each candidate in turn where a bisection leads.
-/

namespace CodeAtlas.Search

variable {K : Type} [Add K] [Sub K] [Mul K] [Div K] [LT K] [DecidableLT K] [BEq K] [OfScientific K]

/-- Is the score comparable? -/
def isComparable (x : K) : Bool := x == x

/-- The least element; an element that is not comparable counts as the least. -/
def leastFrom (x : K) (xs : List K) : K :=
  xs.foldl (fun m y ↦ if !isComparable m then m else if !isComparable y || y < m then y else m) x

def greatestFrom (x : K) (xs : List K) : K :=
  xs.foldl (fun m y ↦ if !isComparable m then m else if !isComparable y || m < y then y else m) x

/-- Moves scores to the range from 0 to 1; equal scores all become one half. -/
def normalize : List K → List K
  | [] => []
  | x :: xs =>
    let least := leastFrom x xs
    let greatest := greatestFrom x xs
    if greatest == least then (x :: xs).map fun _ ↦ 0.5
    else (x :: xs).map fun y ↦ (y - least) / (greatest - least)

/-- How much each kind of score counts. -/
structure Weights (K : Type) where
  vector : K
  relevance : K

/-- Adds two lists position by position; a list of one element is used at every position of the
other. Other lengths do not fit. -/
def addAligned (xs ys : List K) : Except Fault (List K) :=
  if xs.length == ys.length then .ok (List.zipWith (· + ·) xs ys)
  else
    match xs, ys with
    | [x], ys => .ok (ys.map (x + ·))
    | xs, [y] => .ok (xs.map (· + y))
    | _, _ => .error (.mismatch (.badValue "operands could not be broadcast together"))

/-- The weighted sums of two lists of scores. -/
def combine (w : Weights K) (similarity relevance : List K) : Except Fault (List K) :=
  addAligned ((normalize similarity).map (· * w.vector)) ((normalize relevance).map (· * w.relevance))

/-! ## Ordering -/

/-- Does the first candidate go before the second? -/
def isBetter (a b : Nat × K) : Bool := b.2 < a.2

/-- The place of a candidate among sorted ones: behind all that are not worse, found by bisection. -/
def bisect (sorted : Array (Nat × K)) (x : Nat × K) : Nat → Nat → Nat → Nat
  | 0, low, _ => low
  | fuel + 1, low, high =>
    if low < high then
      let middle := low + (high - low) / 2
      match sorted[middle]? with
      | some y => if isBetter x y then bisect sorted x fuel low middle
        else bisect sorted x fuel (middle + 1) high
      | none => low
    else low

/-- The length of the run at the start in which every candidate is better than the one before it. -/
def fallingRun : List (Nat × K) → Nat
  | a :: b :: rest => if isBetter b a then fallingRun (b :: rest) + 1 else 1
  | xs => xs.length

def risingRun : List (Nat × K) → Nat
  | a :: b :: rest => if isBetter b a then 1 else risingRun (b :: rest) + 1
  | xs => xs.length

/-- Sorts candidates that may not be comparable: the run at the start is kept, or turned round if it
falls, and the others are inserted one by one. -/
def insertionOrder (xs : List (Nat × K)) : List (Nat × K) :=
  let falling := fallingRun xs
  let start := if falling > 1 then (xs.take falling).reverse else xs.take (risingRun xs)
  let rest := xs.drop start.length
  (rest.foldl (fun sorted x ↦
    let i := bisect sorted x (sorted.size + 1) 0 sorted.size
    (sorted.extract 0 i).push x ++ sorted.extract i sorted.size) start.toArray).toList

/-- Candidates best first, equal ones in their order. -/
def sortCandidates (xs : List (Nat × K)) : List (Nat × K) :=
  if xs.all fun p ↦ isComparable p.2 then xs.mergeSort fun a b ↦ !isBetter b a
  else insertionOrder xs

/-- The positions of `count` candidates, best first. There have to be as many sums. -/
def order (count : Nat) (sums : List K) : Except Fault (List Nat) :=
  if sums.length < count then .error (.mismatch (.outOfRange "index out of bounds"))
  else .ok ((sortCandidates ((List.range count).zip sums)).map (·.1))

/-- The positions of the candidates with the given scores, best first. -/
def rank (w : Weights K) (similarity relevance : List K) : Except Fault (List Nat) := do
  if relevance.isEmpty then pure []
  else order relevance.length (← combine w similarity relevance)

end CodeAtlas.Search
