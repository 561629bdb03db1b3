import Uniqueness.Codec

namespace Uniqueness.Client

structure RetryPolicy where
  maxAttempts : UInt32
  initialBackoff : UInt64
  maxBackoff : UInt64
  deriving DecidableEq

namespace RetryPolicy

def standard : RetryPolicy :=
  ⟨8, 50, 2000⟩

instance : Inhabited RetryPolicy :=
  ⟨standard⟩

def once : RetryPolicy :=
  { standard with maxAttempts := 1 }

def maxDoublings : UInt32 :=
  16

def doublings (attempt : UInt32) : UInt32 :=
  min (if attempt = 0 then 0 else attempt - 1) maxDoublings

def factor (attempt : UInt32) : UInt64 :=
  1 <<< (doublings attempt).toUInt64

def cappedMul (a b : UInt64) : UInt64 :=
  if a.toNat * b.toNat < UInt64.size then a * b else UInt64.ofNat (UInt64.size - 1)

def backoff (p : RetryPolicy) (attempt : UInt32) : UInt64 :=
  min (cappedMul p.initialBackoff (factor attempt)) p.maxBackoff

structure Draft where
  maxAttempts : Option UInt32 := none
  initialBackoff : Option UInt64 := none
  maxBackoff : Option UInt64 := none

def shape : Shape Draft where
  title := "RetryPolicy"
  fields := [.of "max_attempts" Draft.maxAttempts fun d a => { d with maxAttempts := some a },
    .of "initial_backoff_ms" Draft.initialBackoff fun d a => { d with initialBackoff := some a },
    .of "max_backoff_ms" Draft.maxBackoff fun d a => { d with maxBackoff := some a }]
  allListed := false

instance : Codec RetryPolicy where
  toTree p := .object [("max_attempts", toTree p.maxAttempts),
    ("initial_backoff_ms", toTree p.initialBackoff), ("max_backoff_ms", toTree p.maxBackoff)]
  ofTree t := do
    let d ← shape.read {} t
    return ⟨d.maxAttempts.getD standard.maxAttempts, d.initialBackoff.getD standard.initialBackoff,
      d.maxBackoff.getD standard.maxBackoff⟩

end RetryPolicy

end Uniqueness.Client
