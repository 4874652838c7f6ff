import DocStore.Bytes

/-!
# Keys of the store

Records, index entries and sequence counters share one key space. A tag byte and the names, each
ended by NUL, come first; the encoded primary key or index value follows and may hold any bytes. An
index entry's value is the list of primary keys that share it, each behind its length.
-/

namespace DocStore

inductive Key where
  | record (typeName : String) (key : Bytes)
  | index (typeName indexName : String) (value : Bytes)
  | sequence (typeName : String)
  deriving DecidableEq, Repr

namespace Key

def recordTag : UInt8 := 0x72

def indexTag : UInt8 := 0x69

def sequenceTag : UInt8 := 0x73

def separator : UInt8 := 0

def recordPrefix (typeName : String) : Bytes :=
  recordTag :: separator :: (Bytes.ofString typeName ++ [separator])

def indexPrefix (typeName indexName : String) : Bytes :=
  indexTag :: separator ::
    (Bytes.ofString typeName ++ separator :: (Bytes.ofString indexName ++ [separator]))

def encode : Key → Bytes
  | .record typeName key => recordPrefix typeName ++ key
  | .index typeName indexName value => indexPrefix typeName indexName ++ value
  | .sequence typeName => sequenceTag :: separator :: Bytes.ofString typeName

def splitName : Bytes → Option (Bytes × Bytes)
  | [] => none
  | b :: rest =>
    if b = separator then some ([], rest)
    else (splitName rest).map fun (name, tail) => (b :: name, tail)

def decode? : Bytes → Option Key
  | tag :: sep :: rest =>
    if sep ≠ separator then none
    else if tag = recordTag then do
      let (name, key) ← splitName rest
      let typeName ← name.toString?
      pure (.record typeName key)
    else if tag = indexTag then do
      let (name, tail) ← splitName rest
      let typeName ← name.toString?
      let (inner, value) ← splitName tail
      let indexName ← inner.toString?
      pure (.index typeName indexName value)
    else if tag = sequenceTag then do
      let typeName ← Bytes.toString? rest
      pure (.sequence typeName)
    else none
  | _ => none

end Key

namespace KeyList

def encode : List Bytes → Bytes
  | [] => []
  | key :: rest => Bytes.be 4 key.length ++ key ++ encode rest

def decodeWith : Nat → Bytes → Option (List Bytes)
  | _, [] => some []
  | 0, _ :: _ => none
  | fuel + 1, bytes =>
    if bytes.length < 4 then none
    else
      let length := Bytes.ofBe (bytes.take 4)
      let body := bytes.drop 4
      if body.length < length then none
      else (decodeWith fuel (body.drop length)).map (body.take length :: ·)

/-- The keys of a list, or `none` where the bytes end inside a length or a key. -/
def decode? (bytes : Bytes) : Option (List Bytes) := decodeWith bytes.length bytes

end KeyList

end DocStore
