import Uniqueness.Archive.Folder
import Uniqueness.Archive.Meta
import Uniqueness.Json

/-!
The folder of snapshots. A snapshot with number `n` is a file of data and a file that describes it;
it is complete once the second exists. The data are written first, under a temporary name, and the
description is moved into place last, so that a folder never describes data that are not there.
-/

namespace Uniqueness

structure Archive.Stored where
  number : UInt64
  about : Archive.Meta
  deriving DecidableEq

structure Archive where
  folder : Archive.Folder
  next : UInt64
  current : Option Archive.Stored
  deriving DecidableEq

namespace Archive

inductive Fault where
  | missing
  deriving DecidableEq

def numeral (n : UInt64) : String :=
  Decimal.padded 20 n.toNat

def dataName (n : UInt64) : String :=
  numeral n ++ ".snap"

def draftName (n : UInt64) : String :=
  numeral n ++ ".snap.tmp"

def aboutName (n : UInt64) : String :=
  numeral n ++ ".meta.json"

def aboutDraftName (n : UInt64) : String :=
  numeral n ++ ".meta.json.tmp"

def receivingName : String :=
  "receiving.tmp"

def stem? (ending name : String) : Option String :=
  let front := name.toList.take (name.length - ending.length)
  if front ++ ending.toList = name.toList then some (String.ofList front) else none

def aboutNumber? (name : String) : Option UInt64 :=
  (stem? ".meta.json" name).bind Decimal.word64?

def number? (name : String) : Option UInt64 :=
  Decimal.word64? (String.ofList (name.toList.takeWhile (· != '.')))

def stored? (folder : Folder) (name : String) : Option Stored :=
  match aboutNumber? name, folder.get? name with
  | some n, some text =>
    if folder.contains (dataName n) then
      match Json.decode Meta text with
      | .ok about => some ⟨n, about⟩
      | .error _ => none
    else none
  | _, _ => none

def newer (best : Option Stored) (s : Stored) : Option Stored :=
  if best.any (s.number ≤ ·.number) then best else some s

def newest (folder : Folder) (names : List String) : Option Stored :=
  (names.filterMap (stored? folder)).foldl newer none

/-- Whether a file is to go while `keep` stays. Numbers above it belong to snapshots under way, and
go only when `all` do. -/
def isStale (keep : Option UInt64) (all : Bool) (name : String) : Bool :=
  if name = receivingName then false
  else match number? name, keep with
    | none, _ => false
    | some _, none => true
    | some n, some k => if n = k then (stem? ".tmp" name).isSome else n < k || all

def pruneSteps (keep : Option UInt64) (all : Bool) (names : List String) : List FileStep :=
  (names.filter (isStale keep all)).map .remove

def prune (a : Archive) (keep : Option UInt64) (all : Bool) : Archive :=
  { a with folder := (a.folder.run (pruneSteps keep all a.folder.keys)).2 }

def ofFolder (folder : Folder) : Archive :=
  let current := newest folder folder.keys
  let next := match current with
    | none => 1
    | some s => s.number + 1
  prune ⟨folder, next, current⟩ (current.map (·.number)) true

def empty : Archive :=
  ⟨.empty, 1, none⟩

instance : Inhabited Archive :=
  ⟨empty⟩

def reopen (a : Archive) : Archive :=
  ofFolder a.folder

def draw (a : Archive) : UInt64 × Archive :=
  (a.next, { a with next := a.next + 1 })

def writeSteps (name : String) (content : Bytes) : List FileStep :=
  [.write name [], .write name content]

def writeFile (a : Archive) (name : String) (content : Bytes) : Archive :=
  { a with folder := (a.folder.run (writeSteps name content)).2 }

def writeDraft (a : Archive) (n : UInt64) (content : Bytes) : Archive :=
  a.writeFile (draftName n) content

def receive (a : Archive) (content : Bytes) : Archive :=
  a.writeFile receivingName content

def received (a : Archive) : Except Fault Bytes :=
  match a.folder.get? receivingName with
  | none => .error .missing
  | some content => .ok content

def commitSteps (n : UInt64) (about : Meta) (source : String) : List FileStep :=
  [.rename source (dataName n)] ++ writeSteps (aboutDraftName n) (Json.encode about)
    ++ [.rename (aboutDraftName n) (aboutName n)]

/-- Makes the data in `source` snapshot `n`, and the current one unless a newer is. -/
def commit (a : Archive) (n : UInt64) (about : Meta) (source : String) : Except Fault Unit × Archive :=
  match a.folder.run (commitSteps n about source) with
  | (false, folder) => (.error .missing, { a with folder })
  | (true, folder) =>
    if a.current.any (n < ·.number) then (.ok (), { a with folder })
    else (.ok (), prune { a with folder, current := some ⟨n, about⟩ } (some n) false)

def read (a : Archive) (s : Stored) : Except Fault Bytes :=
  match a.folder.get? (dataName s.number) with
  | none => .error .missing
  | some content => .ok content

def files (a : Archive) : List String :=
  a.folder.keys

end Archive

end Uniqueness
