import Std.Data.TreeMap

/-
A cache of bounded size that gives up what was used least recently.

The entries are kept by key, and beside them the keys in the order of their last
use, oldest first.  Putting an entry in and finding one are uses.  A cache of
capacity zero keeps nothing.
-/

namespace BoundSql

structure Cache (α : Type) where
  capacity : Nat
  entries : Std.TreeMap String α
  /-- The keys of the entries, least recently used first. -/
  order : List String

namespace Cache

variable {α : Type}

def empty (capacity : Nat) : Cache α :=
  ⟨capacity, ∅, []⟩

def size (c : Cache α) : Nat :=
  c.entries.size

def isEmpty (c : Cache α) : Bool :=
  c.size == 0

/-- Move a key to the end, if it is there at all. -/
def touch (key : String) (order : List String) : List String :=
  if order.contains key then order.erase key ++ [key] else order

/-- Take entries out, oldest first, until no more than `capacity` are left. -/
def evict (capacity : Nat) (entries : Std.TreeMap String α) :
    List String → Std.TreeMap String α × List String
  | [] => (entries, [])
  | oldest :: rest =>
    if capacity < entries.size then evict capacity (entries.erase oldest) rest
    else (entries, oldest :: rest)

/-- Look a key up.  Finding it is a use of it. -/
def get? (c : Cache α) (key : String) : Option α × Cache α :=
  match c.entries[key]? with
  | some a => (some a, { c with order := touch key c.order })
  | none => (none, c)

def put (c : Cache α) (key : String) (a : α) : Cache α :=
  if c.capacity = 0 then c
  else
    let order := if c.entries.contains key then touch key c.order else c.order ++ [key]
    let (entries, order) := evict c.capacity (c.entries.insert key a) order
    { c with entries, order }

/-- Take one entry out. -/
def remove (c : Cache α) (key : String) : Option α × Cache α :=
  match c.entries[key]? with
  | some a => (some a, { c with entries := c.entries.erase key, order := c.order.erase key })
  | none => (none, c)

def clear (c : Cache α) : Cache α :=
  empty c.capacity

theorem put_of_capacity_eq_zero (c : Cache α) (h : c.capacity = 0) (key : String) (a : α) :
    c.put key a = c := by
  simp [put, h]

end Cache
end BoundSql
