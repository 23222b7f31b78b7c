/-!
Strongly connected components of a finite graph, by one depth-first search that keeps the nodes
whose component is still open on a stack. The search is a sequence of small steps, so that what
holds at each point of it can be stated.
-/

set_option autoImplicit false

namespace Vernacular

/-- A graph on the first `n` numbers: the successors of each node, in order. -/
abbrev Graph (n : Nat) := Fin n → List (Fin n)

namespace Graph

/-- A node under search: the earliest discovery number found from it on the stack, and the
successors still to be looked at. -/
structure Frame (n : Nat) where
  node : Fin n
  low : Nat
  pending : List (Fin n)

structure Search (n : Nat) where
  /-- The roots still to be looked at. -/
  roots : List (Fin n)
  /-- The visited nodes in the order of their discovery. -/
  visited : List (Fin n)
  /-- The visited nodes that are in no component yet, the last discovered first. -/
  stack : List (Fin n)
  /-- Marks for the nodes on the stack. -/
  onStack : Fin n → Bool
  /-- The nodes under search, the innermost first. -/
  frames : List (Frame n)
  /-- The components found, the last one first. -/
  found : List (List (Fin n))

namespace Search

variable {n : Nat}

def start (n : Nat) : Search n :=
  { roots := List.finRange n, visited := [], stack := [], onStack := fun _ => false, frames := [],
    found := [] }

def number (s : Search n) (u : Fin n) : Nat :=
  s.visited.idxOf u

def setMark (on : Bool) (marks : Fin n → Bool) (u : Fin n) : Fin n → Bool :=
  fun v => if v = u then on else marks v

def enter (g : Graph n) (s : Search n) (u : Fin n) : Search n :=
  { s with
    visited := s.visited ++ [u]
    stack := u :: s.stack
    onStack := setMark true s.onStack u
    frames := { node := u, low := s.visited.length, pending := g u } :: s.frames }

/-- Closes the component of a node: everything on the stack down to it, in the order of
discovery. -/
def close (s : Search n) (u : Fin n) : Search n :=
  let component := u :: (s.stack.takeWhile (· ≠ u)).reverse
  { s with
    stack := (s.stack.dropWhile (· ≠ u)).drop 1
    onStack := component.foldl (setMark false) s.onStack
    found := component :: s.found }

/-- Tells the innermost frame of a discovery number found from its node. -/
def link (s : Search n) (number : Nat) : Search n :=
  match s.frames with
  | [] => s
  | f :: fs => { s with frames := { f with low := min f.low number } :: fs }

def look (g : Graph n) (s : Search n) (v : Fin n) : Search n :=
  if v ∉ s.visited then s.enter g v
  else if s.onStack v then s.link (s.number v)
  else s

/-- Leaves the innermost node: closes its component if nothing earlier was found from it. -/
def leave (s : Search n) (f : Frame n) : Search n :=
  (if f.low = s.number f.node then s.close f.node else s).link f.low

def step (g : Graph n) (s : Search n) : Search n :=
  match s.frames with
  | { node, low, pending := v :: vs } :: fs =>
    look g { s with frames := { node, low, pending := vs } :: fs } v
  | f :: fs => leave { s with frames := fs } f
  | [] =>
    match s.roots with
    | [] => s
    | u :: us => if u ∈ s.visited then { s with roots := us } else enter g { s with roots := us } u

def after (g : Graph n) : Nat → Search n
  | 0 => start n
  | k + 1 => (after g k).step g

end Search

variable {n : Nat}

/-- A number of steps that completes the search: each node is looked at as a root, entered and left
at most once, and each edge is looked at once. -/
def steps (g : Graph n) : Nat :=
  (List.finRange n).foldr (fun u k => (g u).length + 3 + k) 0

/-- The strongly connected components, each after those it has edges into. -/
def components (g : Graph n) : List (List (Fin n)) :=
  (Search.after g g.steps).found.reverse

end Graph

end Vernacular
