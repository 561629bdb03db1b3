import Uniqueness.Client
import Uniqueness.Cluster.Node
import Uniqueness.CommandLine.Trouble
import Uniqueness.CommandLine.WorkingFolder

namespace Uniqueness.CommandLine

structure Host (σ : Type) where
  environment : Logging.Environment
  readFile : String → Except String String
  disk : String → Except String Cluster.Disk
  random : Nat → Digest
  network : Cluster.Network σ

def WorkingFolder.host {σ : Type} (w : WorkingFolder) (environment : Logging.Environment)
    (random : Nat → Digest) (network : Cluster.Network σ) : Host σ where
  environment
  readFile path := (w.read path).mapError (·.message)
  disk path := ((w.make path).mapError (·.message)).map fun _ => .empty
  random
  network

structure Scene (σ : Type) where
  printed : List String
  world : σ

abbrev Work (σ : Type) := ExceptT Trouble (StateM (Scene σ))

namespace Work

variable {σ α : Type}

def say (line : String) : Work σ Unit :=
  modify fun s => { s with printed := s.printed ++ [line] }

def sayAll (lines : List String) : Work σ Unit :=
  modify fun s => { s with printed := s.printed ++ lines }

def fail (t : Trouble) : Work σ α :=
  throw t

def take : Except Trouble α → Work σ α
  | .ok a => pure a
  | .error t => fail t

def call (request : σ → Except Cluster.Fault α × σ) : Work σ α := do
  let s ← get
  let (result, world) := request s.world
  set { s with world }
  take (result.mapError .ofFault)

def ask (request : σ → Client.Answer σ α) : Work σ (α × Client) := do
  let s ← get
  let (result, client, world) := request s.world
  set { s with world }
  return (← take (result.mapError .ofFault), client)

def client (addresses : List String) : Work σ Client :=
  take ((Client.ofEndpoints addresses).mapError fun f =>
    (Trouble.ofFault f).within "Invalid notary address")

end Work

end Uniqueness.CommandLine
