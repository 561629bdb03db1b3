import Uniqueness.Bytes
import Uniqueness.SortedMap

namespace Uniqueness.Archive

abbrev Folder := SortedMap String Bytes

inductive FileStep where
  | write (name : String) (content : Bytes)
  | rename (source target : String)
  | remove (name : String)
  deriving DecidableEq

namespace Folder

def step? (folder : Folder) : FileStep → Option Folder
  | .write name content => some (folder.insert name content)
  | .rename source target => match folder.get? source with
    | none => none
    | some content => some ((folder.erase source).insert target content)
  | .remove name => some (folder.erase name)

def run (folder : Folder) : List FileStep → Bool × Folder
  | [] => (true, folder)
  | s :: rest => match folder.step? s with
    | none => (false, folder)
    | some folder => run folder rest

end Folder

end Uniqueness.Archive
