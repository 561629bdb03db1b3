import Uniqueness.CommandLine.Work

namespace Uniqueness.CommandLine

variable {σ : Type}

def conflictLine (state : StateRef) (c : Consumption) : String :=
  "  " ++ state.text ++ " already consumed by " ++ c.tx.text ++ " (input "
    ++ Decimal.text c.position.toNat ++ ") for " ++ c.party.text

def reportVerdict (tx : Digest) : Verdict → Work σ Unit
  | .success => Work.say ("Committed transaction " ++ tx.text)
  | .conflict c => do
    Work.sayAll ["Conflict: transaction " ++ tx.text ++ " was refused", ""]
    Work.sayAll (c.history.entries.map fun e => conflictLine e.1 e.2)
    Work.fail (.of (Decimal.text c.history.size ++ " input(s) already consumed"))

def commit (host : Host σ) (addresses : List String) (claim : Claim) : Work σ Unit := do
  let client ← Work.client addresses
  let (verdict, _) ← Work.ask (client.commit host.network claim)
  reportVerdict claim.tx verdict

def consumerLines (state : StateRef) : Option Consumption → List String
  | none => [state.text ++ " is unconsumed"]
  | some c => [state.text, "  consumed by: " ++ c.tx.text,
      "  input index: " ++ Decimal.text c.position.toNat, "  requested by: " ++ c.party.text]

def lookUp (host : Host σ) (addresses : List String) (state : StateRef) (isLocal : Bool) :
    Work σ Unit := do
  let client ← Work.client addresses
  let consumer ←
    if isLocal then Work.call (Client.localConsumer host.network client.first state)
    else (·.1) <$> Work.ask (client.consumer host.network state)
  Work.sayAll (consumerLines state consumer)

def freshClaim (host : Host σ) (party : Party) (i : Nat) : Claim :=
  ⟨[⟨host.random (2 * i), 0⟩], host.random (2 * i + 1), party⟩

def commitFresh (host : Host σ) (party : Party) : Nat → Nat → Client → Work σ Client
  | 0, _, client => pure client
  | left + 1, i, client => do
    let claim := freshClaim host party i
    let (verdict, client) ← Work.ask (client.commit host.network claim)
    if !verdict.isSuccess then
      Work.fail (.of ("fresh transaction " ++ Decimal.text i ++ " (" ++ claim.tx.text ++ ") was refused"))
    commitFresh host party left (i + 1) client

def isRefusedFor (tx : Digest) : Verdict → Bool
  | .success => false
  | .conflict c => c.onlyWith tx

def bench (host : Host σ) (addresses : List String) (count : Nat) (party : Party) : Work σ Unit := do
  if count = 0 then Work.fail (.of "--count must be at least 1")
  let client ← Work.client addresses
  Work.say ("Notarising " ++ Decimal.text count ++ " transactions...")
  let client ← commitFresh host party count 0 client
  let first := freshClaim host party 0
  let again := { first with tx := host.random (2 * count) }
  let (verdict, _) ← Work.ask (client.commit host.network again)
  let refused := isRefusedFor first.tx verdict
  Work.sayAll ["", "Committed:     " ++ Decimal.text count,
    "Double spend:  " ++ if refused then "refused" else "ACCEPTED"]
  if !refused then
    Work.fail (.of ("re-notarising " ++ (StateRef.text ⟨host.random 0, 0⟩) ++ " was not refused"))

end Uniqueness.CommandLine
