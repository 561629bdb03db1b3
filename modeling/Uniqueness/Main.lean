import Uniqueness.CommandLine.Report

namespace Uniqueness

open CommandLine

def logVariables : List String :=
  ["NOTARY_LOG_FORMAT", "NOTARY_LOG_LEVEL", "NOTARY_LOG_LOCATION", "RUST_LOG"]

def readEnvironment : IO Logging.Environment := do
  let found ← logVariables.mapM fun name => return (← IO.getEnv name).map fun value => (name, value)
  return .ofList (found.filterMap id)

def reasonOf : IO.Error → String
  | .noFileOrDirectory _ _ _ => "No such file or directory (os error 2)"
  | .permissionDenied _ _ _ => "Permission denied (os error 13)"
  | e => e.toString

def readConfig (words : List String) : IO (Except String String) := do
  match parse words with
  | .ok ⟨_, .serve path _⟩ =>
    try return .ok (← IO.FS.readFile path)
    catch e => return .error (reasonOf e)
  | _ => return .error ""

def readHost (words : List String) : IO (Host Unit) := do
  let environment ← readEnvironment
  let file ← readConfig words
  let seed ← IO.getRandomBytes 32
  let random i := Digest.hash (seed.toList ++ Utf8.encode (Decimal.text i))
  return ⟨environment, fun _ => file, fun _ => .ok .empty, random, .isolated Unit⟩

def awaitStop : IO Unit := do
  let _ ← (← IO.getStdin).getLine

end Uniqueness

def main (words : List String) : IO UInt32 := do
  let (report, _) :=
    Uniqueness.CommandLine.Report.ofWords (← Uniqueness.readHost words) words ()
  report.printed.forM IO.println
  if !report.parting.isEmpty then
    Uniqueness.awaitStop
    report.parting.forM IO.println
  report.trouble.forM IO.eprintln
  return report.status.toUInt32
