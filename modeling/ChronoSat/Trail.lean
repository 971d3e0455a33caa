/-
# The trail

A search changes its working state in place and goes back by undoing. The trail
is the record of what was changed, step by step; undoing takes the latest step
first. A checkpoint is nothing but the number of steps there were, so one taken
earlier stays meaningful while the trail grows, and one that lies beyond the
end of the trail names nothing to undo.
-/

import ChronoSat.Literal
import ChronoSat.Room

namespace ChronoSat

/-- One change to a working state. -/
inductive Trail.Step where
  /-- A variable was given a value; `previous` is what it had before. -/
  | assigned (var : Nat) (previous : Option Bool)
  /-- The clause at a place became satisfied. -/
  | satisfied (clause : Nat)
  /-- A literal was struck from its place in the clause at a place. -/
  | struck (clause place : Nat) (literal : Literal)
deriving DecidableEq

/-- The record of changes. -/
structure Trail where
  /-- The changes, the latest first. -/
  latestFirst : List Trail.Step
deriving DecidableEq

/-- A point in a trail to go back to. -/
structure Checkpoint where
  /-- How many steps the trail had. -/
  height : Nat
deriving DecidableEq, Repr

namespace Trail

/-- No changes. -/
def empty : Trail := ⟨[]⟩

/-- How many bytes a change takes. -/
def stepWidth : Nat := 24

/-- No changes, with room for so many. -/
def withRoomFor (steps : Nat) : Except Fault Trail := do
  Room.reserve steps stepWidth
  return empty

/-- The changes in the order they were made. -/
def toList (trail : Trail) : List Step := trail.latestFirst.reverse

/-- How many changes are recorded. -/
def size (trail : Trail) : Nat := trail.latestFirst.length

/-- Records a change. -/
def push (trail : Trail) (step : Step) : Trail := ⟨step :: trail.latestFirst⟩

/-- Records a row of changes in the order they were made. -/
def pushAll (trail : Trail) (steps : List Step) : Trail := steps.foldl push trail

/-- The point reached so far. -/
def checkpoint (trail : Trail) : Checkpoint := ⟨trail.size⟩

/-- Takes the latest change off, unless it was made before the checkpoint. -/
def popTo? (trail : Trail) (mark : Checkpoint) : Option (Step × Trail) :=
  match trail.latestFirst with
  | [] => none
  | step :: earlier =>
    if mark.height < trail.size then some (step, ⟨earlier⟩) else none

/-- The changes made since a checkpoint, the latest first. -/
def since (trail : Trail) (mark : Checkpoint) : List Step :=
  trail.latestFirst.take (trail.size - mark.height)

/-- The trail without the changes made since a checkpoint. -/
def upTo (trail : Trail) (mark : Checkpoint) : Trail :=
  ⟨trail.latestFirst.drop (trail.size - mark.height)⟩

@[simp] theorem toList_push (trail : Trail) (step : Step) :
    (trail.push step).toList = trail.toList ++ [step] := by
  simp [toList, push]

@[simp] theorem size_push (trail : Trail) (step : Step) :
    (trail.push step).size = trail.size + 1 := by
  simp [size, push]

theorem toList_pushAll (trail : Trail) (steps : List Step) :
    (trail.pushAll steps).toList = trail.toList ++ steps := by
  induction steps generalizing trail with
  | nil => simp [pushAll]
  | cons step rest ih =>
    have := ih (trail.push step)
    simp_all [pushAll]

end Trail

end ChronoSat
