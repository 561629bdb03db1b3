namespace Uniqueness.CommandLine

structure WorkingFolder where
  files : List (List String × String)
  deriving DecidableEq

namespace WorkingFolder

inductive Fault where
  | notFound
  | taken
  | notAFolder
  | isAFolder
  deriving DecidableEq

def Fault.message : Fault → String
  | .notFound => "No such file or directory (os error 2)"
  | .taken => "File exists (os error 17)"
  | .notAFolder => "Not a directory (os error 20)"
  | .isAFolder => "Is a directory (os error 21)"

def stays (part : String) : Bool :=
  part = "" || part = "."

def ofFiles (files : List (String × String)) : WorkingFolder :=
  ⟨files.map fun f => ((f.1.splitOn "/").filter fun part => !stays part, f.2)⟩

def file? (w : WorkingFolder) (place : List String) : Option String :=
  w.files.lookup place

def hasFolder (w : WorkingFolder) (place : List String) : Bool :=
  place.isEmpty || w.files.any fun f => place.isPrefixOf f.1 && f.1 != place

def open? (w : WorkingFolder) (place : List String) : Except Fault String :=
  match w.file? place with
  | some text => .ok text
  | none => .error (if w.hasFolder place then .isAFolder else .notFound)

def readFrom (w : WorkingFolder) (place : List String) : List String → Except Fault String
  | [] => w.open? place
  | part :: rest =>
    if (w.file? place).isSome then .error .notAFolder
    else if !w.hasFolder place then .error .notFound
    else if stays part then w.readFrom place rest
    else if part != ".." then w.readFrom (place ++ [part]) rest
    else if place.isEmpty then .error .notFound
    else w.readFrom place.dropLast rest

def read (w : WorkingFolder) (path : String) : Except Fault String :=
  if path.startsWith "/" then .error .notFound else w.readFrom [] (path.splitOn "/")

def makeFrom (w : WorkingFolder) (place : List String) : List String → Except Fault Unit
  | [] => .ok ()
  | part :: rest =>
    if part != ".." then
      if (w.file? (place ++ [part])).isNone then w.makeFrom (place ++ [part]) rest
      else .error (if rest.isEmpty then .taken else .notAFolder)
    else if place.isEmpty then .ok ()
    else w.makeFrom place.dropLast rest

def make (w : WorkingFolder) (path : String) : Except Fault Unit :=
  if path.startsWith "/" then .ok ()
  else w.makeFrom [] ((path.splitOn "/").filter fun part => !stays part)

end WorkingFolder

end Uniqueness.CommandLine
