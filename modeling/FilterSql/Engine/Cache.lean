import FilterSql.Entity
import FilterSql.Statement

/-! Compiled statements kept for later requests. When the cache is full, the statement that was put in
longest ago leaves; looking one up does not change that. -/
namespace FilterSql

/-- All that a compiled statement depends on, for one set of catalogs and limits. -/
structure Cache.Key where
  entity : Entity
  catalogVersion : Nat
  dialect : Dialect
  offset : Nat
  source : String
deriving DecidableEq, Inhabited

structure Cache where
  capacity : Nat
  /-- Oldest first, each key once. -/
  entries : List (Cache.Key × Statement) := []
deriving DecidableEq

namespace Cache

/-- An empty cache; there is none of capacity zero. -/
def ofCapacity? (capacity : Nat) : Option Cache :=
  if capacity = 0 then none else some ⟨capacity, []⟩

def size (c : Cache) : Nat := c.entries.length

def get? (c : Cache) (key : Key) : Option Statement := (c.entries.find? (·.1 == key)).map (·.2)

def insert (c : Cache) (key : Key) (statement : Statement) : Cache :=
  let entries := c.entries.filter (·.1 != key) ++ [(key, statement)]
  { c with entries := entries.drop (entries.length - c.capacity) }

def clear (c : Cache) : Cache := { c with entries := [] }

end Cache

end FilterSql
