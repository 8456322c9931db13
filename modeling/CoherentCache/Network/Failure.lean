import CoherentCache.Bytes

/-!
# Failures of the network

What the system reports when a call to it or a look-up of a host name fails.

* `SystemError.message`, `ResolverError.message` : the failure in the system's words.
-/

namespace CoherentCache

/-- Failures of a call to the system, mostly of calls on sockets. -/
inductive SystemError where
  /-- Nobody listens at the address. -/
  | connectionRefused
  /-- The peer broke the connection off. -/
  | connectionReset
  /-- The connection was closed before the data could be sent. -/
  | brokenPipe
  /-- The peer did not answer in time. -/
  | timedOut
  /-- There is no way to the host. -/
  | hostUnreachable
  /-- There is no way to the network of the host. -/
  | networkUnreachable
  /-- Too many files are open. -/
  | tooManyFiles
  /-- A signal arrived during the call. -/
  | interrupted
  /-- The call would have to wait longer than it may. -/
  | wouldBlock
  /-- The connection is still being made. -/
  | inProgress
  /-- The port is taken. -/
  | addressInUse
  /-- The call is not permitted. -/
  | accessDenied
  /-- Memory ran out. -/
  | outOfMemory
  /-- A number is too large. -/
  | outOfRange
deriving DecidableEq

/-- The failure in the system's words. -/
def SystemError.message : SystemError → Bytes
  | .connectionRefused => Bytes.ofString "Connection refused"
  | .connectionReset => Bytes.ofString "Connection reset by peer"
  | .brokenPipe => Bytes.ofString "Broken pipe"
  | .timedOut => Bytes.ofString "Connection timed out"
  | .hostUnreachable => Bytes.ofString "No route to host"
  | .networkUnreachable => Bytes.ofString "Network is unreachable"
  | .tooManyFiles => Bytes.ofString "Too many open files"
  | .interrupted => Bytes.ofString "Interrupted system call"
  | .wouldBlock => Bytes.ofString "Resource temporarily unavailable"
  | .inProgress => Bytes.ofString "Operation now in progress"
  | .addressInUse => Bytes.ofString "Address already in use"
  | .accessDenied => Bytes.ofString "Permission denied"
  | .outOfMemory => Bytes.ofString "Cannot allocate memory"
  | .outOfRange => Bytes.ofString "Numerical result out of range"

/-- Failures of a look-up of a host name. -/
inductive ResolverError where
  /-- The name is not known. -/
  | unknownName
  /-- No answer for now. -/
  | tryAgain
  /-- No answer, and none to be expected. -/
  | failure
deriving DecidableEq

/-- The failure in the system's words. -/
def ResolverError.message : ResolverError → Bytes
  | .unknownName => Bytes.ofString "Name or service not known"
  | .tryAgain => Bytes.ofString "Temporary failure in name resolution"
  | .failure => Bytes.ofString "Non-recoverable failure in name resolution"

end CoherentCache
