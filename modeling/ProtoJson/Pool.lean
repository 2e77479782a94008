/-!
# Object pools

A pool keeps idle objects for reuse, up to its capacity. The object that has waited longest is
handed out first.
-/

namespace ProtoJson

/-- A queue of idle objects. -/
structure Pool (α : Type) where
  capacity : Nat
  idle : List α := []
  deriving Repr

namespace Pool

variable {α : Type}

/-- The capacity of a pool that is made without one. -/
def defaultCapacity : Nat := 1024

/-- An empty pool. It has room for one object at least. -/
def withCapacity (n : Nat) : Pool α := { capacity := max n 1 }

/-- An empty pool of the default capacity. -/
def empty : Pool α := withCapacity defaultCapacity

/-- The number of idle objects. -/
def size (p : Pool α) : Nat := p.idle.length

/-- Takes an idle object, or `fresh` if there is none. -/
def acquire (fresh : α) (p : Pool α) : α × Pool α :=
  match p.idle with
  | [] => (fresh, p)
  | a :: rest => (a, { p with idle := rest })

/-- Returns an object. A full pool lets it go. -/
def release (a : α) (p : Pool α) : Pool α :=
  if p.size < p.capacity then { p with idle := p.idle ++ [a] } else p

/-- A one-line account of a pool. -/
def describe (p : Pool α) : String :=
  "Pool \x7b idle: " ++ toString p.size ++ ", capacity: " ++ toString p.capacity ++ " \x7d"

end Pool

end ProtoJson
