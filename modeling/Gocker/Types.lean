import Mathlib.Data.Nat.Notation

/-!
# Requests and records

`internal/types/type.go`: the request a launcher sends to the container's init
process, and the record (`config.json`) kept for every container.

Both types have all fields of the source, in its order, so that their JSON is that of the
program.  Two types of fields are simplified.

* The times of a record are their texts.  The program only writes them and compares none.
* A process number is natural.  A record with a negative one is not a value of the type, and the
  program never writes one: it takes the numbers from the processes that it has started, or sets
  0.
-/

namespace Gocker

/-- An id of twelve hexadecimal digits; that it has this form matters to nothing that is
modelled, only that a new container gets one that no directory has. -/
abbrev ContainerID := String

/-- A process number; the record holds `0` where there is no process. -/
abbrev PID := ℕ

/-- A `time.Time`, as the RFC 3339 text that `encoding/json` writes for it. -/
abbrev Time := String

/-- The zero value of `time.Time` as `encoding/json` writes it.  It is what `FinishedAt` says of
a container that has not finished. -/
def zeroTime : Time := "0001-01-01T00:00:00Z"

/-- The limits of a container, as numbers for the three control files of its cgroup.  One that is
not positive is not written; for an adjust, `Config.invalidLimit` stands for one that was not
given. -/
structure ContainerLimits where
  memoryLimit : Int
  pidsLimit : Int
  cpuLimit : Int
deriving DecidableEq, Repr

/-- What a launcher sends into the pipe of a container's process, and what the daemon's `run`
command gets.  `ContainerID` and `IPAddress` are filled in by the launcher, or should be. -/
structure RunRequest where
  imageName : String
  imageTag : String
  containerName : String
  containerCommand : String
  containerID : ContainerID
  containerArgs : List String
  mountPoint : String
  vethPeerName : String
  initCommands : List String
  requestedIP : String
  ipAddress : String
  containerLimits : ContainerLimits
deriving DecidableEq, Repr

/-- The status of a record.  The field is a string in the source; `other` is a
record whose text is none of the three constants. -/
inductive Status where
  | running
  | stopped
  | created
  | other (text : String)
deriving DecidableEq, Repr

/-- The metadata of one container. -/
structure ContainerInfo where
  id : ContainerID
  pid : PID
  name : String
  command : String
  status : Status
  createdAt : Time
  image : String
  mountPoint : String
  requestedIP : String
  ipAddress : String
  finishedAt : Time
  limits : ContainerLimits
deriving DecidableEq, Repr

end Gocker
