import Uniqueness.CommandLine.Work

namespace Uniqueness.CommandLine

variable {σ : Type}

def loadFile (host : Host σ) (path : String) : Except Trouble Settings.File := do
  let text ← (host.readFile path).mapError fun reason =>
    (Trouble.of reason).within ("Failed to read config " ++ path)
  (Settings.File.parse text).mapError fun fault =>
    (Trouble.ofFile fault).within ("Invalid config " ++ path)

def openNode (host : Host σ) (settings : Settings) : Except Cluster.Fault Cluster.Node := do
  Cluster.Node.check settings
  let disk ← (host.disk settings.folder).mapError fun reason => .store (.io reason)
  Cluster.Node.start settings disk

def startNode (host : Host σ) (settings : Settings) (isFirst : Bool) :
    Except Trouble Cluster.Node := do
  let node ← (openNode host settings).mapError fun fault =>
    (Trouble.ofFault fault).within "Failed to start notary node"
  if !isFirst then return node
  match node.bootstrap with
  | (.ok (), node) => return node
  | (.error fault, _) => .error ((Trouble.ofFault fault).within "Failed to initialize cluster")

def servingLines (settings : Settings) (isFirst : Bool) : List String :=
  ["Notary node " ++ Decimal.text settings.node.toNat ++ " listening on " ++ settings.listen,
    "Data directory: " ++ settings.folder]
    ++ (if isFirst then ["Initialized a new cluster with this node as the only voter."] else [])
    ++ ["", "Press Ctrl+C to stop."]

def partingLines : List String :=
  ["", "Shutting down..."]

def serve (host : Host σ) (settings : Settings) (isFirst : Bool) : Work σ Unit := do
  let _ ← Work.take (startNode host settings isFirst)
  Work.sayAll (servingLines settings isFirst)

end Uniqueness.CommandLine
