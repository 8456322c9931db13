import CoherentCache.Server
import CoherentCache.Server.CommandLine

/-!
# The server as a program

The program takes the command line of the server and serves one client, on standard input and
standard output, until its input ends.  What is said about the server itself goes to standard error.
The clock is the system's; there is no network, so that a remote store is out of reach.
-/

namespace CoherentCache

namespace Main

/-- The bytes of a word of the command line. -/
def wordBytes (word : String) : Bytes := word.toUTF8.toList

/-- All that is read from an open file; what cannot be read counts as empty. -/
def readAll (file : IO.FS.Handle) : IO Bytes := do
  try return (← file.readBinToEnd).toList catch _ => return []

/-- The settings files that are named and can be opened. -/
def readFiles (words : List String) : IO Settings.Files := do
  let named := CommandLine.paths (words.map wordBytes)
  let mut files : List (Bytes × Bytes) := []
  for word in words do
    if named.contains (wordBytes word) then
      try
        let file ← IO.FS.Handle.mk word .read
        files := (wordBytes word, ← readAll file) :: files
      catch _ => pure ()
  return fun path => files.lookup path

/-- The network at this moment. -/
def network : IO Network := do
  let nanos ← IO.monoNanosNow
  return ⟨⟨Int64.ofNat nanos⟩, .error .failure, [], [], none⟩

/-- A pass at this moment; what it sends is written to standard output. -/
def pass (s : Server) (ready : Ready) : IO Server := do
  let n ← network
  let (notices, s) := (s.mapStore fun h => h.mapNetwork fun _ => n).pass ready
  let output ← IO.getStdout
  for (_, event) in notices do
    if let .send data := event then
      output.write (ByteArray.mk data.toArray)
      output.flush
  return s

/-- Passes until nothing waits to be sent. -/
partial def drain (s : Server) : IO Server := do
  if s.clients.all (·.pending.isEmpty) then return s
  drain (← pass s .idle)

/-- Serves the client until its input ends. -/
partial def serve (s : Server) : IO Unit := do
  let data ← (← IO.getStdin).read (USize.ofNat Server.receiveSize)
  let incoming := if data.isEmpty then Incoming.ended else .data data.toList
  let s ← drain (← pass s.sweep { Ready.idle with incoming := fun _ => some incoming })
  unless s.clients.isEmpty do serve s

/-- Writes a line to standard error. -/
def report (message : Bytes) : IO Unit := do
  let output ← IO.getStderr
  output.write (ByteArray.mk (message ++ [10]).toArray)

/-- Runs the server with the words of its command line; the answer is the exit code. -/
def run (words : List String) : IO UInt32 := do
  match CommandLine.parse (← readFiles words) (words.map wordBytes) with
  | .error fault => report fault.message; return 1
  | .ok settings =>
    match Host.ofSettings settings (← network) with
    | .error message => report message; return 1
    | .ok host =>
      let (sign, host) := host.ping
      if let .error e := sign then report (Bytes.ofString "warning: " ++ e.message)
      serve (← pass (.ofHost settings host) { Ready.idle with arrival := some .client })
      return 0

end Main

end CoherentCache

/-- The server as a program. -/
def main (words : List String) : IO UInt32 := CoherentCache.Main.run words
