import TypedArrays.Fault

/-! Progressions: the words from a first one upward in equal steps.

A progression is a position, a step and a count of what is left. Everything a reader can do with it
goes through `next`. `Action` lists what readers do, and `perform` says how each action moves the
progression and what it answers. -/

namespace TypedArrays

/-- What is left of an upward count. -/
structure Progression (w : Width) where
  current : Word w
  step : Word w
  remaining : Nat
deriving DecidableEq

namespace Progression

variable {w : Width}

/-- Counts are kept modulo this. -/
def countLimit : Nat := 0x10000000000000000

/-- How many words `first, first + step, …` there are up to `last`. -/
def count (first last step : Word w) : Nat :=
  if last < first then 0 else ((last.val - first.val) / step.val + 1).toNat % countLimit

/-- The words from `first` to at most `last` in steps of `step`. -/
def ofBounds (first last step : Word w) : Progression w := ⟨first, step, count first last step⟩

/-- The next word and what is left after it. The position moves only while words are left. -/
def next (p : Progression w) : Option (Word w) × Progression w :=
  match p.remaining with
  | 0 => (none, p)
  | left + 1 => (some p.current, ⟨if left = 0 then p.current else p.current + p.step, p.step, left⟩)

/-- Combines up to `n` next words; also what is left after them. -/
def fold {α : Type} (f : α → Word w → α) : (n : Nat) → (start : α) → Progression w → α × Progression w
  | 0, start, p => (start, p)
  | n + 1, start, p =>
    match p.next with
    | (some x, rest) => fold f n (f start x) rest
    | (none, rest) => (start, rest)

/-- Up to `n` next words and what is left after them. -/
def take (n : Nat) (p : Progression w) : Array (Word w) × Progression w := p.fold Array.push n #[]

/-- What is left after up to `n` words. -/
def skip (n : Nat) (p : Progression w) : Progression w := (p.fold (fun _ _ => ()) n ()).2

/-- The word that follows the next `n` words. -/
def nth (n : Nat) (p : Progression w) : Option (Word w) × Progression w := (p.skip n).next

/-- All words that are left. -/
def toArray (p : Progression w) : Array (Word w) := (p.take p.remaining).1

/-- How many words are left, found by going through them. -/
def length (p : Progression w) : Nat := (p.fold (fun n _ => n + 1) p.remaining 0).1

/-- The last word that is left. -/
def last? (p : Progression w) : Option (Word w) := (p.fold (fun _ x => some x) p.remaining none).1

/-- The least and the greatest number of words that are left; both are known. -/
def sizeHint (p : Progression w) : Nat × Option Nat := (p.remaining, some p.remaining)

def detail (p : Progression w) : String :=
  recordText "StepRange"
    [("current", toString p.current), ("step", toString p.step), ("remaining", toString p.remaining)]

/-! ### Readers -/

/-- What a reader does with a progression. The last three look at a copy. -/
inductive Action where
  | next
  | nth (n : Nat)
  | take (n : Nat)
  | remaining
  | sizeHint
  | detail
  | countRest
  | lastOfRest
  | collectRest

/-- What a reader is told. -/
inductive Answer (w : Width) where
  | word (value : Option (Word w))
  | words (values : Array (Word w))
  | number (n : Nat)
  | bounds (least : Nat) (greatest : Option Nat)
  | text (s : String)

/-- One action: the answer and what is left of the progression. -/
def perform (p : Progression w) : Action → Answer w × Progression w
  | .next => (.word p.next.1, p.next.2)
  | .nth n => let (x, rest) := p.nth n; (.word x, rest)
  | .take n => let (xs, rest) := p.take n; (.words xs, rest)
  | .remaining => (.number p.remaining, p)
  | .sizeHint => (.bounds p.sizeHint.1 p.sizeHint.2, p)
  | .detail => (.text p.detail, p)
  | .countRest => (.number p.length, p)
  | .lastOfRest => (.word p.last?, p)
  | .collectRest => (.words p.toArray, p)

/-- The answers to a list of actions, each with the number of words left after it. -/
def performAll (p : Progression w) : List Action → List (Answer w × Nat)
  | [] => []
  | action :: rest =>
    let (answer, q) := p.perform action
    (answer, q.remaining) :: q.performAll rest

end Progression

end TypedArrays
