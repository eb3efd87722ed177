import Initd.Tasks.AsyncTaskHandle
import Mathlib.Data.List.TakeWhile

namespace Initd

/-! `hostname_task_handle`, over the name that the kernel keeps. -/

/-- What a `char` array holds up to its first null. -/
abbrev CString := { bytes : Bytes // 0 ∉ bytes }

def CString.ofBytes (bytes : Bytes) : CString :=
  ⟨bytes.takeWhile (· ≠ 0), fun member => by
    simpa using List.mem_takeWhile_imp member⟩

@[simp] theorem CString.ofBytes_val (name : CString) :
    CString.ofBytes name.val = name := by
  have whole : name.val.takeWhile (· ≠ 0) = name.val := by
    rw [List.takeWhile_eq_self_iff]
    rintro c member
    have other : c ≠ 0 := by
      rintro rfl
      exact name.property member
    simpa using other
  exact Subtype.ext whole

/-- What the kernel answers to one task during one step: whether the
`gethostname` and the `sethostname` of the constructor succeed, and the
`sethostname` of the destructor. -/
structure HostnameAnswers where
  get : Bool
  set : Bool
  restore : Bool
  deriving DecidableEq, Repr

/-- The name that the kernel has afterwards, if it does not refuse. -/
def setHostname (succeeds : Bool) (hname : Bytes) : Option CString :=
  if succeeds then some (.ofBytes hname) else none

def getHostname (succeeds : Bool) (hostname : CString) : Option CString :=
  if succeeds then some hostname else none

structure HostnameTaskHandle where
  oldHname : Option CString
  deriving DecidableEq

namespace HostnameTaskHandle

/-- The handle and the name of the host, unless the constructor throws. -/
def create (answers : HostnameAnswers) (data : HostnameTaskData)
    (hostname : CString) : Option (HostnameTaskHandle × CString) :=
  if data.noRestore then do
    let hostname ← setHostname answers.set data.hostname
    return (⟨none⟩, hostname)
  else do
    let t ← getHostname answers.get hostname
    let hostname ← setHostname answers.set data.hostname
    return (⟨some t⟩, hostname)

/-- An exception of `set_hostname` is caught and reported. -/
def destroy (answers : HostnameAnswers) (handle : HostnameTaskHandle)
    (hostname : CString) : CString :=
  match handle.oldHname with
  | none => hostname
  | some old => (setHostname answers.restore old.val).getD hostname

end HostnameTaskHandle

/-- Whether `create_task` returns. -/
def HostnameAnswers.create (answers : HostnameAnswers)
    (data : HostnameTaskData) : Bool :=
  (data.noRestore || answers.get) && answers.set

theorem HostnameTaskHandle.create_eq (answers : HostnameAnswers)
    (data : HostnameTaskData) (hostname : CString) :
    create answers data hostname =
      if answers.create data then
        some (⟨if data.noRestore then none else some hostname⟩,
          .ofBytes data.hostname)
      else none := by
  obtain ⟨get, set, restore⟩ := answers
  obtain ⟨name, noRestore⟩ := data
  cases noRestore <;> cases get <;> cases set <;> rfl

/-- The `sync_task_adaptor`s of the hostname tasks, down to their handles, and
the name that they share. -/
structure Host (n : Nat) where
  hostname : CString
  handles : Fin n → Option HostnameTaskHandle

namespace Host

variable {n : Nat}

def boot (hostname : CString) : Host n where
  hostname := hostname
  handles _ := none

def setShouldWork (answers : HostnameAnswers) (data : HostnameTaskData)
    (t : Fin n) (s : Bool) (host : Host n) : Host n :=
  if s then
    if (host.handles t).isNone then
      match HostnameTaskHandle.create answers data host.hostname with
      | none => host
      | some (handle, hostname) =>
          ⟨hostname, Function.update host.handles t (some handle)⟩
    else
      host
  else
    match host.handles t with
    | none => host
    | some handle =>
        ⟨handle.destroy answers host.hostname,
          Function.update host.handles t none⟩

variable {answers : HostnameAnswers} {data : HostnameTaskData} {t : Fin n}
  {host : Host n}

theorem setShouldWork_start (free : host.handles t = none) :
    host.setShouldWork answers data t true =
      if answers.create data then
        ⟨.ofBytes data.hostname, Function.update host.handles t
          (some ⟨if data.noRestore then none else some host.hostname⟩)⟩
      else host := by
  simp only [setShouldWork, free, HostnameTaskHandle.create_eq,
    Option.isNone_none, if_true]
  cases answers.create data <;> rfl

theorem setShouldWork_stop {handle : HostnameTaskHandle}
    (held : host.handles t = some handle) :
    host.setShouldWork answers data t false =
      ⟨handle.destroy answers host.hostname,
        Function.update host.handles t none⟩ := by
  simp [setShouldWork, held]

theorem setShouldWork_idle (free : host.handles t = none) :
    host.setShouldWork answers data t false = host := by
  simp [setShouldWork, free]

end Host

end Initd
