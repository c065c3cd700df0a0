/-!
# Queues

First in, first out.  A queue is kept in two parts, so that both ends are at
hand; `Fifo.toList` is what it holds, and each operation is said by what it does to
that list (`toList_push`, `toList_pushFront`, `toList_of_pop?`).
-/

namespace PartitionEngine

/-- A queue. -/
structure Fifo (α : Type) where
  /-- The entries that leave first, in order. -/
  front : List α := []
  /-- The entries behind them, the last one first. -/
  back : List α := []

namespace Fifo

variable {α : Type}

/-- The entries in the order in which they leave. -/
def toList (q : Fifo α) : List α := q.front ++ q.back.reverse

def ofList (entries : List α) : Fifo α := { front := entries }

def size (q : Fifo α) : Nat := q.front.length + q.back.length

def isEmpty (q : Fifo α) : Bool := q.front.isEmpty && q.back.isEmpty

def push (q : Fifo α) (a : α) : Fifo α := { q with back := a :: q.back }

def pushFront (q : Fifo α) (a : α) : Fifo α := { q with front := a :: q.front }

def pop? (q : Fifo α) : Option (α × Fifo α) :=
  match q.front with
  | a :: front => some (a, { q with front })
  | [] =>
    match q.back.reverse with
    | a :: front => some (a, { front })
    | [] => none

@[simp] theorem toList_empty : ({} : Fifo α).toList = [] := rfl

@[simp] theorem toList_ofList (entries : List α) : (ofList entries).toList = entries := by
  simp [toList, ofList]

@[simp] theorem toList_push (q : Fifo α) (a : α) : (q.push a).toList = q.toList ++ [a] := by
  simp [toList, push]

@[simp] theorem toList_pushFront (q : Fifo α) (a : α) :
    (q.pushFront a).toList = a :: q.toList := rfl

theorem isEmpty_eq (q : Fifo α) : q.isEmpty = q.toList.isEmpty := by
  cases hf : q.front <;> cases hb : q.back <;> simp [isEmpty, toList, hf, hb]

/-- Taking is taking the head of the list. -/
theorem map_toList_pop? (q : Fifo α) :
    q.pop?.map (fun p => (p.1, p.2.toList)) = q.toList.head?.map fun a => (a, q.toList.tail) := by
  obtain ⟨front, back⟩ := q
  cases front with
  | cons a front => rfl
  | nil => cases h : back.reverse <;> simp [pop?, toList, h]

theorem pop?_eq_none_iff (q : Fifo α) : q.pop? = none ↔ q.toList = [] := by
  have h := q.map_toList_pop?
  cases hq : q.pop? <;> cases hl : q.toList <;> simp_all

theorem toList_of_pop? {q rest : Fifo α} {a : α} (h : q.pop? = some (a, rest)) :
    q.toList = a :: rest.toList := by
  have hm := q.map_toList_pop?
  cases hl : q.toList <;> simp_all

end Fifo

end PartitionEngine
