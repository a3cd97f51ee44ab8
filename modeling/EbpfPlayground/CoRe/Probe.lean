import EbpfPlayground.Foundation.BoundedMap
import EbpfPlayground.Foundation.CString

/-!
# The execve probe of the CO-RE daemon

`podsnoop` runs at the entry of every `execve`.  It looks the caller's cgroup up in
`resize_containers_map`, compares the caller's `comm` with the command stored there, byte by byte,
and outputs a `pod_exec_event` where the loop leaves `is_equal` set.  The loop compares a `u8` with
a `char`, which is signed on the bpf target, so a byte above `0x7f` never equals itself.
-/

namespace EbpfPlayground.CoRe

open CString

def maxNumContainers : ℕ := 4096

/-- `BUF_SIZE`. -/
abbrev bufSize : ℕ := 32

/-- `struct pod_command`. -/
abbrev PodCommand := Buffer bufSize

/-- `resize_containers_map`; a key is the native-endian `u64` on both sides. -/
abbrev ResizeContainersMap := BoundedMap UInt64 PodCommand maxNumContainers

/-- `struct pod_exec_event`. -/
structure PodExecEvent where
  cgroupId : UInt64
  cgroupPid : UInt32
  cgroupCmd : Buffer bufSize
  deriving DecidableEq

/-- The `comm` of a task: at most `TASK_COMM_LEN - 1` bytes, the kernel's NUL left out. -/
structure Comm where
  bytes : List UInt8
  length_lt : bytes.length < 16
  zero_notMem : 0 ∉ bytes
  deriving DecidableEq

/-- What the probe reads of the task that calls `execve`. -/
structure Task where
  comm : Comm
  cgroupId : UInt64
  pidTgid : UInt64
  deriving DecidableEq

/-- `bpf_get_current_comm` into a zeroed buffer. -/
def bpfGetCurrentComm (comm : Comm) : Buffer bufSize :=
  ⟨(comm.bytes ++ List.replicate (bufSize - comm.bytes.length) 0).toArray, by
    have hlength := comm.length_lt
    simp only [List.size_toArray, List.length_append, List.length_replicate, bufSize]
    omega⟩

/-- `u8 != char` after C's integer promotions. -/
def bytesDiffer (comm : UInt8) (val : UInt8) : Bool := (comm.toNat : ℤ) != val.toInt8.toInt

/-- The compare loop from some index on: the value of `is_equal` when it ends. -/
def compareLoop : List UInt8 → List UInt8 → Bool
  | c :: comm, v :: val =>
    if bytesDiffer c v then false
    else if c = 0 ∨ v = 0 then true
    else compareLoop comm val
  | _, _ => true

/-- The tracepoint program; `none` where it outputs no event. -/
def podsnoop (map : ResizeContainersMap) (task : Task) : Option PodExecEvent :=
  match map.lookup task.cgroupId with
  | none => none
  | some val =>
    let cgroupCmd := bpfGetCurrentComm task.comm
    if compareLoop cgroupCmd.toList val.toList then
      some { cgroupId := task.cgroupId, cgroupPid := task.pidTgid.toUInt32, cgroupCmd := cgroupCmd }
    else none

/-! ## The compare loop decides equality of ASCII C strings -/

/-- A `char` of the bpf target is signed. -/
theorem toInt_toInt8 (v : UInt8) :
    v.toInt8.toInt = if v.toNat < 128 then (v.toNat : ℤ) else (v.toNat : ℤ) - 256 := by
  have h : ∀ n < 256, (UInt8.ofNat n).toInt8.toInt =
      if n < 128 then (n : ℤ) else (n : ℤ) - 256 := by decide +kernel
  simpa using h v.toNat v.toNat_lt

theorem bytesDiffer_eq_false (c v : UInt8) : bytesDiffer c v = false ↔ c = v ∧ c < 128 := by
  have hc := c.toNat_lt
  have hv := v.toNat_lt
  rw [bytesDiffer, bne_eq_false_iff_eq, toInt_toInt8, ← UInt8.toNat_inj, UInt8.lt_iff_toNat_lt]
  change _ ↔ c.toNat = v.toNat ∧ c.toNat < 128
  split <;> omega

theorem compareLoop_eq_compareBytes (comm val : List UInt8) :
    compareLoop comm val = compareBytes bytesDiffer comm val := by
  fun_induction compareLoop comm val <;> simp_all [compareBytes]

theorem compareLoop_eq_true (comm val : List UInt8) (hlength : comm.length = val.length) :
    compareLoop comm val = true ↔ cstr comm = cstr val ∧ ∀ byte ∈ cstr comm, byte < 128 := by
  have hself : ∀ byte, bytesDiffer byte byte = false ↔ byte < 128 := fun byte ↦
    (bytesDiffer_eq_false byte byte).trans (and_iff_right rfl)
  have hsound : ∀ c v, bytesDiffer c v = false → c = v := fun c v h ↦
    ((bytesDiffer_eq_false c v).mp h).1
  rw [compareLoop_eq_compareBytes, compareBytes_eq_true ((hself 0).mpr (by decide)) hsound hlength]
  simp only [hself]

theorem toList_bpfGetCurrentComm (comm : Comm) :
    (bpfGetCurrentComm comm).toList =
      comm.bytes ++ List.replicate (bufSize - comm.bytes.length) 0 := by
  simp [bpfGetCurrentComm]

theorem cstr_bpfGetCurrentComm (comm : Comm) :
    cstr (bpfGetCurrentComm comm).toList = comm.bytes := by
  rw [toList_bpfGetCurrentComm, cstr_append_zeros, cstr_eq_self comm.zero_notMem]

/-- When the probe outputs an event: the cgroup has an entry whose C string is the caller's
`comm`, and that is ASCII. -/
theorem podsnoop_eq_some {map : ResizeContainersMap} {task : Task} {event : PodExecEvent} :
    podsnoop map task = some event ↔
      (∃ val, map.lookup task.cgroupId = some val ∧ cstr val.toList = task.comm.bytes) ∧
        (∀ byte ∈ task.comm.bytes, byte < 128) ∧
        event = ⟨task.cgroupId, task.pidTgid.toUInt32, bpfGetCurrentComm task.comm⟩ := by
  unfold podsnoop
  cases hval : map.lookup task.cgroupId with
  | none => simp
  | some val =>
    have hloop := compareLoop_eq_true (bpfGetCurrentComm task.comm).toList val.toList (by simp)
    rw [cstr_bpfGetCurrentComm] at hloop
    by_cases hequal : compareLoop (bpfGetCurrentComm task.comm).toList val.toList = true
    · obtain ⟨hcstr, hascii⟩ := hloop.mp hequal
      simp only [hequal, if_true, Option.some.injEq, exists_eq_left']
      exact ⟨fun h ↦ ⟨hcstr.symm, hascii, h.symm⟩, fun h ↦ h.2.2.symm⟩
    · simp only [hequal, Bool.false_eq_true, if_false, Option.some.injEq, exists_eq_left', false_iff,
        reduceCtorEq]
      exact fun h ↦ hequal (hloop.mpr ⟨h.1.symm, h.2.1⟩)

/-- The bytes of an event are valid UTF-8: they are ASCII, NUL padding included. -/
theorem isSome_fromUtf8_of_podsnoop {map : ResizeContainersMap} {task : Task}
    {event : PodExecEvent} (h : podsnoop map task = some event) :
    (Text.fromUtf8 event.cgroupCmd.toList).isSome := by
  obtain ⟨-, hascii, rfl⟩ := podsnoop_eq_some.mp h
  refine Text.isSome_fromUtf8_of_ascii _ fun byte hbyte ↦ ?_
  rw [toList_bpfGetCurrentComm, List.mem_append] at hbyte
  rcases hbyte with hcomm | hzero
  · exact hascii byte hcomm
  · rw [List.eq_of_mem_replicate hzero]
    decide

end EbpfPlayground.CoRe
