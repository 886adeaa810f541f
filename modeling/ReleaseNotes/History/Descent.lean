import ReleaseNotes.History.Graph

/-!
# Descents

Which commits one commit leads to and another one does not.

A descent starts from the commits whose ancestors are wanted and from those
whose ancestors are to be hidden, and goes on to parents, always with the
latest commit that is left to be looked at. A commit that was not hidden when
it was looked at is found. The parents of a hidden one are hidden, and with
them what they lead to as far as it has been read. A commit can be hidden after
it was found, when one of the same time leads to it, and is then left out in
the end. Coming to a gap is a fault.

Once only hidden commits are left, all of them earlier than the last one that
was found, the descent goes on for a few more of them and is then given up. In
a history in which no commit is earlier than a parent of it nothing is missed
by that. Where a parent is later than its child, a commit can be found although
it should have been hidden, and a gap behind hidden commits may never be come
to.

## Main definitions

* `Descent`: How far a descent has come.
* `Descent.mark`, `Descent.spread`: What is hidden along with a commit.
* `Descent.look`: A descent with one more commit looked at.
* `Descent.run`: A descent to its end.
* `History.between`: The commits that one leads to and another one does not,
  in the order in which they are shown.
* `History.reached`: The commits that some commits lead to, as they are found.
-/

namespace ReleaseNotes

/-- How far a descent has come. -/
structure Descent (history : History) where
  /-- The commits that are left to be looked at. -/
  pending : List history.Position
  /-- The commits that have ever been left to be looked at. -/
  seen : List history.Position
  /-- The commits of which the parents are known. -/
  read : List history.Position
  /-- The commits whose parents have been left to be looked at. -/
  opened : List history.Position := []
  hidden : List history.Position
  /-- The commits that were not hidden when they were looked at, the last one
      first. -/
  found : List history.Position := []

namespace Descent

variable {history : History}

/-- The number of hidden commits that are looked at when there are no others
    left. -/
def maxPatience : Nat := 5

/-- What one commit adds to those that are to be hidden and those that are: if
    it is to be hidden it is, and if it has been read its parents are to be. -/
def mark (read : List history.Position) (i : history.Position)
    (state : List history.Position × List history.Position) :
    List history.Position × List history.Position :=
  if state.1.contains i && !state.2.contains i then
    (if read.contains i then history.parents i ++ state.1 else state.1, i :: state.2)
  else state

/-- The hidden commits when some more are hidden. What a commit leads to is
    hidden with it if the commit has been read, unless it was hidden before. -/
def spread (read more hidden : List history.Position) : List history.Position :=
  ((List.finRange history.size).foldr (mark read) (more, hidden)).2

/-- The start of a descent from commits that are wanted and others that are to
    be hidden. -/
def start (wanted unwanted : List history.Position) : Descent history :=
  let pending := (unwanted ++ wanted).eraseDups
  { pending, seen := pending, read := pending,
    hidden := spread [] (unwanted.flatMap history.parents) unwanted }

/-- A commit put among others, behind all that are not earlier. -/
def place (i : history.Position) : List history.Position → List history.Position
  | [] => [i]
  | j :: rest =>
    if (history.record j).time < (history.record i).time then i :: j :: rest
    else j :: place i rest

/-- A parent of a hidden commit, hidden and left to be looked at. -/
def addHidden (descent : Descent history) (i : history.Position) : Descent history :=
  let read := i :: descent.read
  { descent with
    read
    hidden := spread read (history.parents i) (i :: descent.hidden)
    seen := i :: descent.seen
    pending := place i descent.pending }

/-- A parent of a commit that was found, left to be looked at if it never
    was. -/
def addFound (descent : Descent history) (i : history.Position) : Descent history :=
  let descent := { descent with read := i :: descent.read }
  if descent.seen.contains i then descent
  else { descent with seen := i :: descent.seen, pending := place i descent.pending }

/-- The parents of a commit left to be looked at, or why they cannot be. -/
def openUp (descent : Descent history) (i : history.Position) :
    Except ReadFault (Descent history) :=
  if descent.opened.contains i then .ok descent
  else
    match history.gap? i with
    | some fault => .error fault
    | none =>
      let descent := { descent with opened := i :: descent.opened }
      .ok <| (history.parents i).foldl
        (if descent.hidden.contains i then addHidden else addFound) descent

/-- There may be something to be found yet: a commit that is not hidden is
    left, or one that is later than the last one that was found. -/
def isPromising (descent : Descent history) : Bool :=
  match descent.found with
  | [] => descent.pending.any (!descent.hidden.contains ·)
  | last :: _ =>
    let time := (history.record last).time
    (match descent.pending with
      | [] => false
      | i :: _ => time ≤ (history.record i).time) ||
    descent.pending.any fun i =>
      !descent.hidden.contains i || time < (history.record i).time

/-- A commit looked at: its parents are left to be looked at, and it is found,
    or else what it leads to is hidden with it. -/
def look (descent : Descent history) (i : history.Position) :
    Except ReadFault (Descent history) := do
  let descent ← openUp descent i
  if descent.hidden.contains i then
    return { descent with hidden := spread descent.read (history.parents i) descent.hidden }
  else return { descent with found := i :: descent.found }

/-- The patience that is left when a hidden commit has been looked at. -/
def patienceLeft (descent : Descent history) (patience : Nat) : Nat :=
  if descent.pending.isEmpty then 0
  else if descent.isPromising then maxPatience
  else patience - 1

/-- A descent continued for at most so many commits. It is given up when
    patience has run out. -/
def goOn : (bound patience : Nat) → Descent history → Except ReadFault (Descent history)
  | 0, _, descent => .ok descent
  | bound + 1, patience, descent =>
    match descent.pending with
    | [] => .ok descent
    | i :: rest => do
      let descent ← look { descent with pending := rest } i
      if descent.hidden.contains i then
        let patience := descent.patienceLeft patience
        if patience = 0 then return descent
        goOn bound patience descent
      else goOn bound patience descent

/-- A descent to its end. Each commit is opened once, and leaves at most its
    parents to be looked at. -/
def run (wanted unwanted : List history.Position) : Except ReadFault (Descent history) :=
  let links := (List.finRange history.size).flatMap history.parents
  goOn (links.length + (unwanted ++ wanted).length) maxPatience (start wanted unwanted)

end Descent

namespace History

variable (history : History)

/-- The commits that some commits lead to, in the order in which they are
    found. -/
def reached (starts : List history.Position) : Except ReadFault (List history.Position) :=
  (Descent.run starts []).map (·.found.reverse)

/-- The commits that a commit leads to and a boundary does not, in the order in
    which they are shown. -/
def between (start : history.Position) (boundary : Option history.Position) :
    Except ReadFault (List history.Position) := do
  let descent ← Descent.run [start] boundary.toList
  return (history.walk descent.found.reverse).filter fun i => !descent.hidden.contains i

end History

end ReleaseNotes
