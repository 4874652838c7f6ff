import DocStore.Key
import DocStore.Work

/-!
# Sequences

Each type has a counter in the store. A draw reads and writes it, so of two transactions that draw
the same number only one commits.
-/

namespace DocStore.Sequence

/-- The number after a stored one, or 0 without one. Counters are eight bytes wide and start over
behind their greatest number. -/
def following (typeName : String) : Option Bytes → Except EngineError Nat
  | none => .ok 0
  | some bytes =>
    if bytes.length = 8 then .ok ((Bytes.ofBe bytes + 1) % UInt64.size)
    else .error (.corruptSequence typeName)

def next (typeName : String) : Work EngineError Nat := do
  let key := Key.encode (.sequence typeName)
  let stored ← Work.ofReading (Reading.get key)
  let n ← Work.ofExcept (following typeName stored)
  Work.put key (Bytes.be 8 n)
  pure n

end DocStore.Sequence
