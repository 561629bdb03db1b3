namespace Uniqueness.CommandLine

inductive Stop where
  | usage
  | help
  | version
  deriving DecidableEq

inductive Kind where
  | value
  | flag
  | help
  | version
  deriving DecidableEq

structure Opt where
  long : String
  short : Option Char
  kind : Kind
  about : String
  isRepeatable : Bool := false
  isRequired : Bool := false
  accepts : String → Bool := fun _ => true

abbrev Given := List (String × String)

namespace Given

def has (g : Given) (name : String) : Bool :=
  g.any (·.1 = name)

def values (g : Given) (name : String) : List String :=
  (g.filter (·.1 = name)).map (·.2)

def value? (g : Given) (name : String) : Option String :=
  (g.values name).head?

def add (g : Given) (o : Opt) (value : String) : Except Stop Given :=
  match o.kind with
  | .help => .error .help
  | .version => .error .version
  | _ =>
    if !o.isRepeatable && g.has o.long then .error .usage
    else if o.accepts value then .ok (g ++ [(o.long, value)])
    else .error .usage

end Given

def isDashed (word : String) : Bool :=
  word.startsWith "-" && word != "-"

def findLong (options : List Opt) (name : String) : Except Stop Opt :=
  match options.find? (·.long = name) with
  | some o => .ok o
  | none => .error .usage

def findShort (options : List Opt) (c : Char) : Except Stop Opt :=
  match options.find? (·.short = some c) with
  | some o => .ok o
  | none => .error .usage

def addNext (o : Opt) (g : Given) : List String → Except Stop (Given × List String)
  | [] => .error .usage
  | word :: rest => if isDashed word then .error .usage else do return (← g.add o word, rest)

def readLong (options : List Opt) (word : List Char) (g : Given) (rest : List String) :
    Except Stop (Given × List String) := do
  let o ← findLong options (String.ofList (word.takeWhile (· != '=')))
  match o.kind, word.dropWhile (· != '=') with
  | .value, [] => addNext o g rest
  | .value, _ :: value => return (← g.add o (String.ofList value), rest)
  | _, [] => return (← g.add o "", rest)
  | _, _ => .error .usage

def readShort (options : List Opt) : List Char → Given → List String →
    Except Stop (Given × List String)
  | [], g, rest => .ok (g, rest)
  | c :: cs, g, rest => do
    let o ← findShort options c
    match o.kind, cs with
    | .value, [] => addNext o g rest
    | .value, '=' :: value => return (← g.add o (String.ofList value), rest)
    | .value, value => return (← g.add o (String.ofList value), rest)
    | _, cs => readShort options cs (← g.add o "") rest

def readOptions (options : List Opt) : Nat → Given → List String → Except Stop (Given × List String)
  | 0, g, words => .ok (g, words)
  | _, g, [] => .ok (g, [])
  | fuel + 1, g, word :: rest =>
    match word.toList with
    | ['-', '-'] => if rest.isEmpty then .ok (g, []) else .error .usage
    | '-' :: '-' :: name => do
      let (g, rest) ← readLong options name g rest
      readOptions options fuel g rest
    | '-' :: c :: cs => do
      let (g, rest) ← readShort options (c :: cs) g rest
      readOptions options fuel g rest
    | _ => .ok (g, word :: rest)

def read (options : List Opt) (words : List String) : Except Stop (Given × List String) :=
  readOptions options words.length [] words

end Uniqueness.CommandLine
