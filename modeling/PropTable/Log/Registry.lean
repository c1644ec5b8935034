import PropTable.Log.Severity

/-!
# Channels

A channel is a named place to which entries are written. All handles of one name share one channel:
its threshold and its sinks live there, and opening a name again resets both. One channel may be the
process-wide one; it is opened when it is first needed.

An entry is written once to each sink whose threshold it passes, provided that it passes the
threshold of the channel as well.
-/

namespace PropTable.Log

/-- A channel: its own threshold, and one threshold for each of its sinks. -/
structure Channel where
  threshold : Severity
  sinks : List Severity
deriving DecidableEq, Repr

namespace Channel

/-- A channel with one sink of the same threshold. -/
def fresh (threshold : Severity) : Channel :=
  ⟨threshold, [threshold]⟩

/-- Moves the threshold of the channel and of all its sinks. -/
def setThreshold (c : Channel) (threshold : Severity) : Channel :=
  ⟨threshold, c.sinks.map fun _ => threshold⟩

def write (c : Channel) (e : Entry) : String :=
  if e.severity.passes c.threshold then
    String.join ((c.sinks.filter e.severity.passes).map fun _ => e.line)
  else ""

end Channel

/-- All channels that were ever opened, and the name of the process-wide one. -/
structure Registry where
  channels : List (String × Channel)
  shared : Option String
deriving DecidableEq, Repr

namespace Registry

def empty : Registry := ⟨[], none⟩

/-- The name of the process-wide channel, unless it is opened under another one. -/
def sharedName : String := "tabula"

/-- The name under which a channel is kept: the root of all channels has no name of its own. -/
def canonical (name : String) : String :=
  if name = "" then "root" else name

def channel? (r : Registry) (name : String) : Option Channel :=
  r.channels.lookup (canonical name)

/-- Puts a channel in the place of the one that has the name. -/
def put (r : Registry) (name : String) (c : Channel) : Registry :=
  let name := canonical name
  { r with channels := (name, c) :: r.channels.filter fun p => p.1 != name }

/-- Opens a name, whether or not it was open before. -/
def openChannel (r : Registry) (name : String) (threshold : Severity) : Registry :=
  r.put name (Channel.fresh threshold)

/-- The name of the process-wide channel. It is opened at `info` under `name` if it was not yet
open. -/
def openShared (r : Registry) (name : String) : Registry × String :=
  match r.shared with
  | some name => (r, name)
  | none => ({ r.openChannel name .info with shared := some name }, name)

def setThreshold (r : Registry) (name : String) (threshold : Severity) : Registry :=
  match r.channel? name with
  | some c => r.put name (c.setThreshold threshold)
  | none => r

/-- Moves the threshold of the process-wide channel. -/
def setSharedThreshold (r : Registry) (threshold : Severity) : Registry :=
  let (r, name) := r.openShared sharedName
  r.setThreshold name threshold

/-- The text that an entry adds to the output when it is sent to a channel. -/
def write (r : Registry) (name : String) (e : Entry) : String :=
  match r.channel? name with
  | some c => c.write e
  | none => ""

/-- The text that entries add to the output when they are sent to a channel in order. -/
def writeAll (r : Registry) (name : String) (entries : List Entry) : String :=
  String.join (entries.map (r.write name))

/-- The text that entries add to the output when they are sent to the process-wide channel. -/
def writeShared (r : Registry) (entries : List Entry) : String :=
  let (r, name) := r.openShared sharedName
  r.writeAll name entries

end Registry

/-- The threshold that the verbosity flags ask for: debugging output wins over verbose output. -/
def thresholdFor (verbose debug : Bool) : Severity :=
  if debug then .debug else if verbose then .info else .warning

end PropTable.Log
