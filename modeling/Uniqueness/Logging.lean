import Uniqueness.Codec
import Uniqueness.SortedMap

namespace Uniqueness.Logging

inductive Format where
  | json
  | pretty
  | compact
  deriving DecidableEq, Inhabited

namespace Format

def name : Format → String
  | .json => "json"
  | .pretty => "pretty"
  | .compact => "compact"

def ofText (s : String) : Format :=
  let s := s.map Char.toLower
  if s = "json" then .json else if s = "pretty" then .pretty else .compact

def cases : List (Case Format) :=
  [.void "json" .json, .void "pretty" .pretty, .void "compact" .compact]

instance : Codec Format where
  toTree f := .text f.name
  ofTree := Case.read cases

end Format

structure Config where
  format : Format
  filter : String
  location : Bool
  target : Bool
  threadIds : Bool
  deriving DecidableEq

abbrev Environment := SortedMap String String

namespace Config

def standard : Config :=
  ⟨.compact, "info", false, true, false⟩

instance : Inhabited Config :=
  ⟨standard⟩

def ofEnvironment (env : Environment) (filter : String) : Config :=
  { standard with
    format := match env.get? "NOTARY_LOG_FORMAT" with
      | some s => .ofText s
      | none => .compact
    filter := (env.get? "NOTARY_LOG_LEVEL" <|> env.get? "RUST_LOG").getD filter
    location := match env.get? "NOTARY_LOG_LOCATION" with
      | some s => s = "true" || s = "1"
      | none => false }

end Config

def filterFor (verbosity : Nat) (configured : Option (Option String)) : String :=
  match verbosity with
  | 0 => match configured with
    | some level => level.getD "info"
    | none => "warn"
  | 1 => "info"
  | 2 => "debug"
  | _ => "trace"

def configFor (env : Environment) (verbosity : Nat) (configured : Option (Option Format × Option String)) :
    Config :=
  let config := Config.ofEnvironment env (filterFor verbosity (configured.map (·.2)))
  match env.get? "NOTARY_LOG_FORMAT", configured.bind (·.1) with
  | none, some format => { Config.standard with format, filter := config.filter, location := config.location }
  | _, _ => config

end Uniqueness.Logging
