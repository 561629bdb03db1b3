import Uniqueness.CommandLine.Request

namespace Uniqueness.CommandLine

def programName : String :=
  "notary"

def programVersion : String :=
  "0.1.0"

def platform : String :=
  "linux / x86_64"

def versionLine : String :=
  programName ++ " " ++ programVersion

def versionLines : List String :=
  ["notary - replicated uniqueness service", "", "Version:     " ++ programVersion,
    "Platform:    " ++ platform, "", "Components:",
    "  notary-core     Uniqueness store, state machine, snapshots",
    "  notary-cluster  Raft replication, gRPC services, client",
    "  notary-cli      Command-line interface"]

def column (width : Nat) (s : String) : String :=
  String.ofList (s.toList.rightpad width ' ')

def columnRight (width : Nat) (s : String) : String :=
  String.ofList (s.toList.leftpad width ' ')

def Opt.line (o : Opt) : String :=
  let short := match o.short with
    | some c => "-" ++ c.toString ++ ", "
    | none => "    "
  column 28 ("  " ++ short ++ "--" ++ o.long) ++ o.about

def Verb.line (v : Verb) : String :=
  column 15 ("  " ++ v.name) ++ v.about

def helpLines : List String :=
  ["notary - decides whether a transaction's inputs were already spent", "",
    "Usage: notary [OPTIONS] <COMMAND>", "", "Commands:"] ++ verbs.map Verb.line
    ++ ["", "Options:"] ++ [verbose, help, versionFlag].map Opt.line
    ++ verbs.flatMap fun v =>
      if v.options.isEmpty then [] else ["", "Options of " ++ v.name ++ ":"] ++ v.options.map Opt.line

def usageLines : List String :=
  ["error: these words are no command", "", "For more information, try '--help'."]

end Uniqueness.CommandLine
