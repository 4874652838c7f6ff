import DocStore.EngineError

/-!
# Work inside a transaction

`Reading` looks into one fixed view and notes the keys it has read, latest first. `Work` reads and
writes in an open transaction. A failure ends the work but keeps what was read and written before
it, as the transaction stays open; what happened meanwhile is reported in `events`, in order.
-/

namespace DocStore

abbrev Reading (ε α : Type) := ReaderT Data (ExceptT ε (StateM (List Bytes))) α

namespace Reading

variable {ε : Type}

def ofExcept {α : Type} (result : Except ε α) : Reading ε α := fun _ reads => (result, reads)

def get (key : Bytes) : Reading ε (Option Bytes) := fun view reads =>
  (.ok (view.get? key), key :: reads)

def multiGet (keys : List Bytes) : Reading ε (List (Option Bytes)) := fun view reads =>
  (.ok (keys.map view.get?), keys.reverse ++ reads)

def scan (start : Bytes) : Reading ε (List (Bytes × Bytes)) := fun view reads =>
  let found := view.scan start
  (.ok found, (found.map Prod.fst).reverse ++ reads)

end Reading

structure Session where
  txn : Transaction
  events : List Event

abbrev Work (ε α : Type) := ExceptT ε (StateM Session) α

namespace Work

variable {ε : Type}

def ofExcept {α : Type} (result : Except ε α) : Work ε α := fun session => (result, session)

def adapt {ε' α : Type} (f : ε → ε') (work : Work ε α) : Work ε' α := fun session =>
  let (result, session) := work session
  (result.mapError f, session)

def ofReading {α : Type} (reading : Reading ε α) : Work ε α := fun session =>
  let (result, reads) := reading session.txn.view session.txn.reads
  (result, { session with txn := { session.txn with reads } })

def put (key value : Bytes) : Work EngineError Unit := fun session =>
  match session.txn.put key value with
  | .ok txn => (.ok (), { session with txn })
  | .error e => (.error (.store e), session)

def delete (key : Bytes) : Work EngineError Unit := fun session =>
  match session.txn.delete key with
  | .ok txn => (.ok (), { session with txn })
  | .error e => (.error (.store e), session)

def report (event : Event) : Work ε Unit := fun session =>
  (.ok (), { session with events := session.events ++ [event] })

end Work

end DocStore
