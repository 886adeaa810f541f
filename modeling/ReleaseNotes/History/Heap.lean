/-!
# Heaps

The order in which things come out of a heap.

A heap is a full binary tree, kept as an array: the children of the place `i`
are at `2 * i + 1` and `2 * i + 2`. No child has a larger rank than its parent,
so the first place has a largest one. Something new is put at the end and
rises past all parents of a smaller rank. When the first thing is taken out,
the last one is put there and sinks past its larger child as long as that is
larger.

Of things of the same rank it depends on the places they have come to which
one is first. The order is a fixed one, though, and `Heap.ranked` says what it
is for things that are all put in before one is taken out.

## Main definitions

* `Heap.push`, `Heap.pop?`: Something put in and taken out.
* `Heap.pushAll`: Some things put in, one after the other.
* `Heap.ranked`: A list in the order in which a heap gives it back.
-/

namespace ReleaseNotes

namespace Heap

variable {α : Type} (rank : α → Int)

/-- What is at a place, risen past smaller parents, at most so many. -/
def rise : (bound place : Nat) → Array α → Array α
  | 0, _, heap => heap
  | bound + 1, place, heap =>
    let above := (place - 1) / 2
    match heap[above]?, heap[place]? with
    | some parent, some child =>
      if rank parent < rank child then rise bound above (heap.swapIfInBounds above place)
      else heap
    | _, _ => heap

/-- The place of the larger child of a place, the left one if they are alike,
    with the child. -/
def largerChild? (heap : Array α) (place : Nat) : Option (Nat × α) := do
  let left ← heap[2 * place + 1]?
  match heap[2 * place + 2]? with
  | some right =>
    if rank left < rank right then return (2 * place + 2, right) else return (2 * place + 1, left)
  | none => return (2 * place + 1, left)

/-- What is at a place, sunk past larger children, at most so many. -/
def sink : (bound place : Nat) → Array α → Array α
  | 0, _, heap => heap
  | bound + 1, place, heap =>
    match heap[place]?, largerChild? rank heap place with
    | some parent, some (below, child) =>
      if rank parent < rank child then sink bound below (heap.swapIfInBounds place below)
      else heap
    | _, _ => heap

/-- A heap with something more in it. -/
def push (heap : Array α) (item : α) : Array α :=
  rise rank heap.size heap.size (heap.push item)

/-- A heap with some things more in it, put in one after the other. -/
def pushAll (heap : Array α) (items : List α) : Array α :=
  items.foldl (push rank) heap

/-- The first thing in a heap, and the heap without it. -/
def pop? (heap : Array α) : Option (α × Array α) := do
  let first ← heap[0]?
  let last ← heap.back?
  return (first, sink rank heap.size 0 ((heap.setIfInBounds 0 last).pop))

/-- What a heap gives back, at most so many things. -/
def drain : Nat → Array α → List α
  | 0, _ => []
  | count + 1, heap =>
    match pop? rank heap with
    | some (first, rest) => first :: drain count rest
    | none => []

/-- A list in the order in which a heap gives it back. -/
def ranked (items : List α) : List α :=
  drain rank items.length (pushAll rank #[] items)

end Heap

end ReleaseNotes
