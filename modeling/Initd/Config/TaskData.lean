import Mathlib.Data.List.Basic

namespace Initd

/-- The bytes of a `std::string`. -/
abbrev Bytes := List UInt8

/-- A string literal of the source, which has ASCII characters only. -/
def ascii (literal : String) : Bytes :=
  literal.toList.map fun c => UInt8.ofNat c.toNat

structure CmdLine where
  executable : Bytes
  arguments : List Bytes
  deriving DecidableEq, Repr

structure Command where
  cmd : CmdLine
  workingDirectory : Bytes
  deriving DecidableEq, Repr

structure HostnameTaskData where
  hostname : Bytes
  noRestore : Bool
  deriving DecidableEq, Repr

structure StartStopTaskData where
  start : Command
  stop : Command
  deriving DecidableEq, Repr

structure ControlTaskData where
  udsFilename : Bytes
  deriving DecidableEq, Repr

/-- `mount_options` and `umount_options` are bit sets over an `int`. -/
structure MountTaskData where
  deviceName : Bytes
  mountPoint : Bytes
  filesystemType : Bytes
  moptions : BitVec 32
  uoptions : BitVec 32
  deriving DecidableEq, Repr

inductive TaskData
  | mount (data : MountTaskData)
  | hostname (data : HostnameTaskData)
  | startStop (data : StartStopTaskData)
  | control (data : ControlTaskData)
  | null
  deriving DecidableEq, Repr

end Initd
