import DocStore.Codec.OrderedKey

/-!
# Options

How a database encodes its data, how many pairs a cursor fetches at a time, and how it retries a
write that lost a conflict. Delays are counted in nanoseconds; the lower bound of the pause before a
retry doubles with every attempt up to a maximum, and chance may add up to half of it.
-/

namespace DocStore

structure RetryPolicy where
  maxAttempts : Nat
  baseDelay : Nat
  maxDelay : Nat
  deriving DecidableEq, Repr

namespace RetryPolicy

def default : RetryPolicy := ⟨10, 1000000, 100000000⟩

/-- There is always a first attempt. -/
def withMaxAttempts (p : RetryPolicy) (attempts : Nat) : RetryPolicy :=
  { p with maxAttempts := max attempts 1 }

def withBaseDelay (p : RetryPolicy) (delay : Nat) : RetryPolicy := { p with baseDelay := delay }

def withMaxDelay (p : RetryPolicy) (delay : Nat) : RetryPolicy := { p with maxDelay := delay }

def factor (attempt : Nat) : Nat := if attempt < 32 then 1 <<< attempt else UInt32.size - 1

def longest : Nat := UInt64.size * 1000000000 - 1

def leastDelay (p : RetryPolicy) (attempt : Nat) : Nat :=
  min (min (p.baseDelay * factor attempt) longest) p.maxDelay

def spread (p : RetryPolicy) (attempt : Nat) : Nat :=
  min (p.leastDelay attempt / 1000 / 2) (UInt64.size - 1)

def delay (p : RetryPolicy) (attempt chance : Nat) : Nat :=
  p.leastDelay attempt + chance % (p.spread attempt + 1) * 1000

end RetryPolicy

structure Options where
  codec : Codec
  retry : RetryPolicy
  batchSize : Nat

namespace Options

def default : Options := ⟨.bson, .default, 100⟩

def withRetry (o : Options) (retry : RetryPolicy) : Options := { o with retry }

def withCodec (o : Options) (codec : Codec) : Options := { o with codec }

def withBatchSize (o : Options) (batchSize : Nat) : Options :=
  { o with batchSize := max batchSize 1 }

end Options

def durationText (nanos : Nat) : String :=
  if 1000000000 ≤ nanos then inUnit 1000000000 9 "s"
  else if 1000000 ≤ nanos then inUnit 1000000 6 "ms"
  else if 1000 ≤ nanos then inUnit 1000 3 "µs"
  else s!"{nanos}ns"
where
  inUnit (size places : Nat) (name : String) : String :=
    let digits := (toString (nanos % size)).toList
    let fraction := (List.replicate (places - digits.length) '0' ++ digits).reverse.dropWhile
      (· == '0')
    toString (nanos / size) ++
      (if fraction.isEmpty then "" else String.ofList ('.' :: fraction.reverse)) ++ name

def RetryPolicy.text (p : RetryPolicy) : String :=
  "RetryPolicy \x7b max_attempts: " ++ toString p.maxAttempts ++ ", base_delay: " ++
    durationText p.baseDelay ++ ", max_delay: " ++ durationText p.maxDelay ++ " \x7d"

def Options.text (o : Options) : String :=
  "DatabaseOptions \x7b codec: \"" ++ o.codec.name ++ "\", retry: " ++ o.retry.text ++
    ", batch_size: " ++ toString o.batchSize ++ " \x7d"

end DocStore
