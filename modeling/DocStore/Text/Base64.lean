import DocStore.Bytes

/-!
# Base64

The standard alphabet with padding. `decode?` reads back what `encode` writes and refuses all else:
a text whose length is no multiple of four, and one whose unused bits are not zero.
-/

namespace DocStore.Text.Base64

def digit (n : Nat) : Char :=
  if n < 26 then Char.ofNat (65 + n)
  else if n < 52 then Char.ofNat (71 + n)
  else if n < 62 then Char.ofNat (n - 4)
  else if n = 62 then '+'
  else '/'

def digitValue? (c : Char) : Option Nat :=
  if 'A' ≤ c ∧ c ≤ 'Z' then some (c.toNat - 65)
  else if 'a' ≤ c ∧ c ≤ 'z' then some (c.toNat - 71)
  else if '0' ≤ c ∧ c ≤ '9' then some (c.toNat + 4)
  else if c = '+' then some 62
  else if c = '/' then some 63
  else none

def encodeDigits : Bytes → List Char
  | a :: b :: c :: rest =>
    let n := a.toNat * 65536 + b.toNat * 256 + c.toNat
    digit (n / 262144) :: digit (n / 4096 % 64) :: digit (n / 64 % 64) :: digit (n % 64) ::
      encodeDigits rest
  | [a, b] =>
    let n := a.toNat * 256 + b.toNat
    [digit (n / 1024), digit (n / 16 % 64), digit (n % 16 * 4), '=']
  | [a] => [digit (a.toNat / 4), digit (a.toNat % 4 * 16), '=', '=']
  | [] => []

def encode (b : Bytes) : String := String.ofList (encodeDigits b)

def decodeDigits? : List Char → Option Bytes
  | [] => some []
  | [a, b, '=', '='] => do
    let n := 64 * (← digitValue? a) + (← digitValue? b)
    guard (n % 16 = 0)
    pure [UInt8.ofNat (n / 16)]
  | [a, b, c, '='] => do
    let n := 4096 * (← digitValue? a) + 64 * (← digitValue? b) + (← digitValue? c)
    guard (n % 4 = 0)
    pure [UInt8.ofNat (n / 1024), UInt8.ofNat (n / 4)]
  | a :: b :: c :: d :: rest => do
    let n := 262144 * (← digitValue? a) + 4096 * (← digitValue? b) + 64 * (← digitValue? c) +
      (← digitValue? d)
    let tail ← decodeDigits? rest
    pure (UInt8.ofNat (n / 65536) :: UInt8.ofNat (n / 256) :: UInt8.ofNat n :: tail)
  | _ => none

def decode? (s : String) : Option Bytes := decodeDigits? s.toList

end DocStore.Text.Base64
