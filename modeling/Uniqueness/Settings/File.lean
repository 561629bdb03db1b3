import Uniqueness.Logging
import Uniqueness.Settings
import Uniqueness.Toml

namespace Uniqueness.Settings

structure LogSettings where
  format : Option Logging.Format
  level : Option String
  deriving DecidableEq

structure File where
  settings : Settings
  logging : LogSettings
  deriving DecidableEq

namespace LogSettings

structure Draft where
  format : Option (Option Logging.Format) := none
  level : Option (Option String) := none

def shape : Shape Draft where
  title := "LoggingConfig"
  fields := [.of "format" Draft.format fun d a => { d with format := some a },
    .of "level" Draft.level fun d a => { d with level := some a }]
  allListed := false

instance : Codec LogSettings where
  toTree l := .object [("format", toTree l.format), ("level", toTree l.level)]
  ofTree t := do
    let d ← shape.read {} t
    return ⟨d.format.join, d.level.join⟩

end LogSettings

namespace File

structure Draft where
  settings : Option Settings := none
  logging : Option LogSettings := none

def shape : Shape Draft where
  title := "NodeConfig"
  fields := [.of "cluster" Draft.settings fun d a => { d with settings := some a },
    .of "logging" Draft.logging fun d a => { d with logging := some a }]
  allListed := false

instance : Codec File where
  toTree f := .object [("cluster", toTree f.settings), ("logging", toTree f.logging)]
  ofTree t := do
    let d ← shape.read {} t
    return ⟨d.settings.getD .standard, d.logging.getD ⟨none, none⟩⟩

inductive Fault where
  | text (fault : Uniqueness.Fault)
  | settings (fault : Settings.Fault)
  deriving DecidableEq

def parse (s : String) : Except Fault File := do
  let file ← (Toml.decode File s).mapError .text
  file.settings.validate.mapError .settings
  return file

end File

end Uniqueness.Settings
