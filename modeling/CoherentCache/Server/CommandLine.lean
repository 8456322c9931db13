import CoherentCache.Settings

/-!
# The command line of the server

Settings files are read first, in the order in which they are named; the other options come after
them and win.

* `CommandLine.parse` : the settings that a command line asks for.
-/

namespace CoherentCache

namespace CommandLine

/-- Why a command line is refused. -/
inductive Fault where
  /-- A settings file is refused. -/
  | file (fault : Settings.FileFault)
  /-- The options are not used like that. -/
  | misused
deriving DecidableEq

/-- How the command is used. -/
def usage : Bytes :=
  Bytes.ofString ("usage: tscache_server [--config path] [--port n] [--backend local|redis] " ++
    "[--redis-host h] [--redis-port n] [--shards n] [--tombstone-ttl-ms n]")

/-- The fault in words. -/
def Fault.message : Fault → Bytes
  | .file fault => Bytes.ofString "config: " ++ fault.message
  | .misused => usage

/-- The option that names a settings file. -/
def configOption : Bytes := Bytes.ofString "--config"

/-- The names of settings files: every word that follows the option for them. -/
def paths : List Bytes → List Bytes
  | option :: path :: rest =>
    if option = configOption then path :: paths (path :: rest) else paths (path :: rest)
  | _ => []

/-- Some settings file holds a number of more than 64 bits. -/
def isOversized (files : Settings.Files) (arguments : List Bytes) : Bool :=
  (paths arguments).any fun path => (files path).any Settings.isOversized

/-- The settings with what one option and its value say. -/
def override (s : Settings) (option value : Bytes) : Option Settings :=
  if option = configOption then some s
  else if option = Bytes.ofString "--port" then
    (Decimal.readInt32? value).map fun n => { s with port := n.toInt }
  else if option = Bytes.ofString "--backend" then some { s with backend := value }
  else if option = Bytes.ofString "--redis-host" then some { s with remote.host := value }
  else if option = Bytes.ofString "--redis-port" then
    (Decimal.readInt32? value).map fun n => { s with remote.port := n.toInt }
  else if option = Bytes.ofString "--shards" then
    (Decimal.readUInt64? value).map fun n => { s with memory.shards := n.toNat }
  else if option = Bytes.ofString "--tombstone-ttl-ms" then
    (Decimal.readUInt64? value).map fun n =>
      { s with memory.retention := n, remote.retention := n }
  else none

/-- The settings with what all options say.  Every option has a value. -/
def overrideAll (s : Settings) : List Bytes → Option Settings
  | [] => some s
  | [_] => none
  | option :: value :: rest =>
    match override s option value with
    | none => none
    | some s => overrideAll s rest

/-- The settings that a command line asks for. -/
def parse (files : Settings.Files) (arguments : List Bytes) : Except Fault Settings :=
  match (paths arguments).foldlM (fun s path => Settings.load s files path) {} with
  | .error fault => .error (.file fault)
  | .ok s =>
    match overrideAll s arguments with
    | none => .error .misused
    | some s => .ok s

end CommandLine

end CoherentCache
