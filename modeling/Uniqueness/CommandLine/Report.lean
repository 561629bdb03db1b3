import Uniqueness.CommandLine.Claiming
import Uniqueness.CommandLine.Members
import Uniqueness.CommandLine.Serving

namespace Uniqueness.CommandLine

structure Report where
  status : UInt8
  printed : List String
  parting : List String
  trouble : List String
  logging : Option Logging.Config
  deriving DecidableEq

namespace Report

def ofStop : Stop → Report
  | .usage => ⟨2, [], [], usageLines, none⟩
  | .help => ⟨0, helpLines, [], [], none⟩
  | .version => ⟨0, [versionLine], [], [], none⟩

def ofTrouble (t : Trouble) (printed : List String) (logging : Option Logging.Config) : Report :=
  ⟨1, printed, [], t.lines, logging⟩

variable {σ : Type}

def ofWork (work : Work σ Unit) (parting : List String) (logging : Logging.Config) (w : σ) :
    Report × σ :=
  match work.run ⟨[], w⟩ with
  | (.ok (), s) => (⟨0, s.printed, parting, [], some logging⟩, s.world)
  | (.error t, s) => (.ofTrouble t s.printed (some logging), s.world)

def workOf (host : Host σ) : Request → Work σ Unit
  | .serve _ _ => pure ()
  | .commit addresses tx inputs party => commit host addresses ⟨inputs, tx, .named party⟩
  | .get addresses input isLocal => lookUp host addresses input isLocal
  | .status addresses => showStatus host addresses
  | .addNode addresses node address => addNode host addresses node address
  | .removeNode addresses node => removeNode host addresses node
  | .bench addresses count party => bench host addresses count.toNat (.named party)
  | .version => Work.sayAll versionLines

def ofInvocation (host : Host σ) (i : Invocation) (w : σ) : Report × σ :=
  let logging := Logging.configFor host.environment i.verbosity
  match i.request with
  | .serve path isFirst => match loadFile host path with
    | .error t => (.ofTrouble t [] none, w)
    | .ok file => ofWork (serve host file.settings isFirst) partingLines
        (logging (some (file.logging.format, file.logging.level))) w
  | request => ofWork (workOf host request) [] (logging none) w

def ofWords (host : Host σ) (words : List String) (w : σ) : Report × σ :=
  match parse words with
  | .error stop => (.ofStop stop, w)
  | .ok invocation => ofInvocation host invocation w

end Report

end Uniqueness.CommandLine
