import Uniqueness.CommandLine.Options
import Uniqueness.StateRef

namespace Uniqueness.CommandLine

inductive Request where
  | serve (config : String) (isFirst : Bool)
  | commit (addresses : List String) (tx : Digest) (inputs : List StateRef) (party : String)
  | get (addresses : List String) (input : StateRef) (isLocal : Bool)
  | status (addresses : List String)
  | addNode (addresses : List String) (node : UInt64) (address : String)
  | removeNode (addresses : List String) (node : UInt64)
  | bench (addresses : List String) (count : UInt64) (party : String)
  | version
  deriving DecidableEq

structure Invocation where
  verbosity : Nat
  request : Request
  deriving DecidableEq

structure Verb where
  name : String
  about : String
  options : List Opt
  request : Given → Option Request

def verbose : Opt :=
  ⟨"verbose", some 'v', .flag, "Increase verbosity (-v, -vv, -vvv)", true, false, fun _ => true⟩

def help : Opt :=
  ⟨"help", some 'h', .help, "Print help", false, false, fun _ => true⟩

def versionFlag : Opt :=
  ⟨"version", some 'V', .version, "Print version", false, false, fun _ => true⟩

def addressOption (about : String) : Opt :=
  ⟨"addr", some 'a', .value, about, true, true, fun _ => true⟩

def addresses : Opt :=
  addressOption "Notary addresses, comma separated"

def isNumber (s : String) : Bool :=
  (Decimal.word64? s).isSome

def digest? (s : String) : Option Digest :=
  (Digest.parse s).toOption

def state? (s : String) : Option StateRef :=
  (StateRef.parse s).toOption

def Given.addresses (g : Given) : List String :=
  (g.values "addr").flatMap fun s => s.splitOn ","

def Given.number? (g : Given) (name : String) : Option UInt64 :=
  (g.value? name).bind Decimal.word64?

def Given.party (g : Given) (default : String) : String :=
  (g.value? "party").getD default

def partyOption : Opt :=
  ⟨"party", some 'p', .value, "Name of the requesting party", false, false, fun _ => true⟩

def nodeOption (about : String) : Opt :=
  ⟨"node-id", none, .value, about, false, true, isNumber⟩

def serveVerb : Verb where
  name := "serve"
  about := "Run a notary replica"
  options := [
    ⟨"config", some 'c', .value, "Path to the node's TOML config file", false, true, (· != "")⟩,
    ⟨"init", none, .flag, "Bootstrap a new cluster with this node as its first voter", false, false,
      fun _ => true⟩]
  request g := do return .serve (← g.value? "config") (g.has "init")

def commitVerb : Verb where
  name := "commit"
  about := "Notarise a transaction"
  options := [addresses,
    ⟨"tx", some 't', .value, "Transaction hash (hex)", false, true, fun s => (digest? s).isSome⟩,
    ⟨"input", some 'i', .value, "Input state as <txhash>:<index>, repeatable", true, true,
      fun s => (state? s).isSome⟩,
    partyOption]
  request g := do
    let tx ← (g.value? "tx").bind digest?
    return .commit g.addresses tx ((g.values "input").filterMap state?) (g.party "cli")

def getVerb : Verb where
  name := "get"
  about := "Show which transaction consumed a state"
  options := [addresses,
    ⟨"input", some 'i', .value, "State as <txhash>:<index>", false, true, fun s => (state? s).isSome⟩,
    ⟨"local", none, .flag, "Read the first replica's applied state instead of the leader's log", false,
      false, fun _ => true⟩]
  request g := do return .get g.addresses (← (g.value? "input").bind state?) (g.has "local")

def statusVerb : Verb where
  name := "status"
  about := "Show a replica's view of the cluster"
  options := [addressOption "Replica address"]
  request g := some (.status g.addresses)

def addNodeVerb : Verb where
  name := "add-node"
  about := "Add a replica as a voter"
  options := [addresses, nodeOption "ID of the new replica",
    ⟨"node-addr", none, .value, "Address of the new replica", false, true, fun _ => true⟩]
  request g := do return .addNode g.addresses (← g.number? "node-id") (← g.value? "node-addr")

def removeNodeVerb : Verb where
  name := "remove-node"
  about := "Remove a voter"
  options := [addresses, nodeOption "ID of the replica to remove"]
  request g := do return .removeNode g.addresses (← g.number? "node-id")

def benchVerb : Verb where
  name := "bench"
  about := "Notarise dummy transactions and report latency"
  options := [addresses,
    ⟨"count", some 'c', .value, "Number of transactions", false, false, isNumber⟩, partyOption]
  request g := some (.bench g.addresses ((g.number? "count").getD 100) (g.party "bench"))

def versionVerb : Verb where
  name := "version"
  about := "Show version information"
  options := []
  request _ := some .version

def verbs : List Verb :=
  [serveVerb, commitVerb, getVerb, statusVerb, addNodeVerb, removeNodeVerb, benchVerb, versionVerb]

def findVerb (name : String) : Except Stop Verb :=
  match verbs.find? (·.name = name) with
  | some v => .ok v
  | none => .error .usage

def Verb.read (v : Verb) (words : List String) : Except Stop (Nat × Request) := do
  let (given, rest) ← CommandLine.read (v.options ++ [verbose, help]) words
  if !rest.isEmpty then .error .usage
  if v.options.any fun o => o.isRequired && !given.has o.long then .error .usage
  match v.request given with
  | some request => return ((given.values "verbose").length, request)
  | none => .error .usage

def canExplain : List String → Bool
  | [] | ["help"] => true
  | [name] => (findVerb name).isOk
  | _ => false

def parse (words : List String) : Except Stop Invocation := do
  let (given, rest) ← CommandLine.read [verbose, help, versionFlag] words
  match rest with
  | [] => .error .usage
  | "help" :: topic => .error (if canExplain topic then .help else .usage)
  | name :: rest =>
    let (more, request) ← (← findVerb name).read rest
    return ⟨(given.values "verbose").length + more, request⟩

end Uniqueness.CommandLine
