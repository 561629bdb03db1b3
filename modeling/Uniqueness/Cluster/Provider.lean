import Uniqueness.Cluster.Forward

namespace Uniqueness.Cluster

inductive ReadMode where
  | log
  | applied
  deriving DecidableEq, Inhabited

namespace Provider

variable {σ ω α : Type}

abbrev Answer (σ ω α : Type) := Except Failure α × Forwarder × σ × ω

def answer (f : Response → Except Failure α) (r : Except Fault Response × Forwarder × σ × ω) :
    Answer σ ω α :=
  (do f (← r.1.mapError Fault.toFailure), r.2)

def read (g : Consensus σ) (net : Network ω) (mode : ReadMode) (f : Forwarder) (command : Command)
    (s : σ) (w : ω) : Except Fault Response × Forwarder × σ × ω :=
  match mode with
  | .log => f.execute g net command s w
  | .applied => ((g.query command s).mapError .machine, f, s, w)

def commit (g : Consensus σ) (net : Network ω) (f : Forwarder) (claim : Claim) (s : σ) (w : ω) :
    Answer σ ω Verdict :=
  answer Response.toVerdict (f.execute g net (.claim claim) s w)

def consumer (g : Consensus σ) (net : Network ω) (mode : ReadMode) (f : Forwarder) (key : StateRef)
    (s : σ) (w : ω) : Answer σ ω (Option Consumption) :=
  answer Response.toValue (read g net mode f (.get key) s w)

def count (g : Consensus σ) (net : Network ω) (mode : ReadMode) (f : Forwarder) (s : σ) (w : ω) :
    Answer σ ω UInt64 :=
  answer Response.toSize (read g net mode f .size s w)

end Provider

end Uniqueness.Cluster
