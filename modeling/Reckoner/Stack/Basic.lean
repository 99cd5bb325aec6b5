/-!
# Stacks

A last-in, first-out container.  The items are held with the top first; `toList`
shows them in the order in which they were pushed.
-/

namespace Reckoner

structure Stack (α : Type) where
  /-- The items, the top first. -/
  items : List α
deriving DecidableEq

namespace Stack

variable {α : Type}

/-- What can fail: both operations need an item. -/
inductive Underflow where
  | pop
  | peek
deriving DecidableEq

def Underflow.message : Underflow → String
  | pop => "pop from empty stack"
  | peek => "peek at empty stack"

def empty : Stack α := ⟨[]⟩

def push (s : Stack α) (a : α) : Stack α := ⟨a :: s.items⟩

/-- The top item and the stack below it. -/
def pop? (s : Stack α) : Option (α × Stack α) :=
  match s.items with
  | [] => none
  | a :: rest => some (a, ⟨rest⟩)

def peek? (s : Stack α) : Option α :=
  s.items.head?

def size (s : Stack α) : Nat :=
  s.items.length

def isEmpty (s : Stack α) : Bool :=
  s.items.isEmpty

/-- The items from bottom to top. -/
def toList (s : Stack α) : List α :=
  s.items.reverse

/-- The items that leave from the top while `p` holds, in the order of leaving, and
the stack that stays. -/
def popWhile (p : α → Bool) (s : Stack α) : List α × Stack α :=
  (s.items.takeWhile p, ⟨s.items.dropWhile p⟩)

@[simp] theorem items_empty : (empty : Stack α).items = [] := rfl

@[simp] theorem items_push (s : Stack α) (a : α) : (s.push a).items = a :: s.items := rfl

@[simp] theorem toList_empty : (empty : Stack α).toList = [] := rfl

@[simp] theorem toList_push (s : Stack α) (a : α) :
    (s.push a).toList = s.toList ++ [a] := by
  simp [toList]

@[simp] theorem pop?_empty : (empty : Stack α).pop? = none := rfl

@[simp] theorem pop?_push (s : Stack α) (a : α) : (s.push a).pop? = some (a, s) := rfl

@[simp] theorem size_push (s : Stack α) (a : α) : (s.push a).size = s.size + 1 := rfl

theorem pop?_eq_some_iff {s t : Stack α} {a : α} : s.pop? = some (a, t) ↔ s = t.push a := by
  obtain ⟨items⟩ := s
  obtain ⟨rest⟩ := t
  cases items <;> simp [pop?, push]

theorem pop?_eq_none_iff {s : Stack α} : s.pop? = none ↔ s = empty := by
  obtain ⟨items⟩ := s
  cases items <;> simp [pop?, empty]

end Stack
end Reckoner
