import Std.Data.HashMap

/-!
# Numbering

Values numbered in the order of their first arrival, with the way back from a value to its number.
-/

namespace DecisionTable

/-- Numbered values: `items` by number, `position` by value. -/
structure Numbering (α : Type) [BEq α] [Hashable α] where
  items : Array α
  position : Std.HashMap α Nat

namespace Numbering

variable {α : Type} [BEq α] [Hashable α]

/-- No value has a number. -/
def empty : Numbering α :=
  ⟨#[], ∅⟩

/-- The number of a value. -/
def number? (n : Numbering α) (a : α) : Option Nat :=
  n.position[a]?

/-- How many values have numbers. -/
def size (n : Numbering α) : Nat :=
  n.items.size

/-- Gives a new value the next number. -/
def push (n : Numbering α) (a : α) : Numbering α :=
  ⟨n.items.push a, n.position.insert a n.items.size⟩

end Numbering

end DecisionTable
