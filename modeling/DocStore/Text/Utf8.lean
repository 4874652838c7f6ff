import DocStore.Bytes

/-!
# Faults in UTF-8

Where a byte string stops being UTF-8. A fault lies at the start of the first character that is not
whole: either some bytes there can belong to no character, or the string ends too early.
-/

namespace DocStore.Text.Utf8

/-- `length?` counts the bytes that are wrong, and is `none` where the string just ends. -/
structure Fault where
  index : Nat
  length? : Option Nat
  deriving DecidableEq, Repr

/-- The ranges of the bytes that follow a first byte, or `none` if no character starts with it. -/
def following (first : UInt8) : Option (List (UInt8 × UInt8)) :=
  if first < 0x80 then some []
  else if first < 0xc2 then none
  else if first < 0xe0 then some [(0x80, 0xbf)]
  else if first = 0xe0 then some [(0xa0, 0xbf), (0x80, 0xbf)]
  else if first = 0xed then some [(0x80, 0x9f), (0x80, 0xbf)]
  else if first < 0xf0 then some [(0x80, 0xbf), (0x80, 0xbf)]
  else if first = 0xf0 then some [(0x90, 0xbf), (0x80, 0xbf), (0x80, 0xbf)]
  else if first < 0xf4 then some [(0x80, 0xbf), (0x80, 0xbf), (0x80, 0xbf)]
  else if first = 0xf4 then some [(0x80, 0x8f), (0x80, 0xbf), (0x80, 0xbf)]
  else none

def faultFrom (index count : Nat) (expected : List (UInt8 × UInt8)) : Bytes → Option Fault
  | [] => if expected.isEmpty then none else some ⟨index, none⟩
  | b :: rest =>
    match expected with
    | (low, high) :: more =>
      if low ≤ b ∧ b ≤ high then
        if more.isEmpty then faultFrom (index + count + 1) 0 [] rest
        else faultFrom index (count + 1) more rest
      else some ⟨index, some count⟩
    | [] =>
      match following b with
      | none => some ⟨index, some 1⟩
      | some [] => faultFrom (index + 1) 0 [] rest
      | some expected => faultFrom index 1 expected rest

def fault? (b : Bytes) : Option Fault := faultFrom 0 0 [] b

def Fault.message (f : Fault) : String :=
  match f.length? with
  | some n => s!"invalid utf-8 sequence of {n} bytes from index {f.index}"
  | none => s!"incomplete utf-8 byte sequence from index {f.index}"

end DocStore.Text.Utf8
