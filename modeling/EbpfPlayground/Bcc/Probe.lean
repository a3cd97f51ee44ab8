import EbpfPlayground.Bcc.Watcher
import EbpfPlayground.CoRe.Watcher

/-!
# The execve probe of the BCC daemon

The probe of `podsnoop.py` compares a `char` with a `char`, so it finds out whether two C strings are
equal.  The loop of the CO-RE probe does so for strings that differ or are ASCII.
-/

namespace EbpfPlayground.Bcc

open CString Text

/-- `char != char` after C's integer promotions. -/
def charsDiffer (taskCmd val : UInt8) : Bool := taskCmd.toInt8.toInt != val.toInt8.toInt

/-- The value of `is_equal` when the compare loop ends. -/
def compareLoop : List UInt8 → List UInt8 → Bool := compareBytes charsDiffer

/-- `bpf_trace_printk` of the cgroup id and the command. -/
def bpfTracePrintk (cgroupId : UInt64) (taskCmd : List UInt8) : List UInt8 :=
  asBytes ("\x7b \"cgroup_id\": \"".toList ++ decimal cgroupId.toNat ++ "\", \"command\": \"".toList) ++
    cstr taskCmd ++ asBytes "\" \x7d".toList

/-- `TRACEPOINT_PROBE(syscalls, sys_enter_execve)`; `none` where it prints nothing. -/
def sysEnterExecve (rcMap : ResizeContainersMap) (task : CoRe.Task) : Option (List UInt8) :=
  match probeLookup rcMap task.cgroupId with
  | none => none
  | some val =>
    let taskCmd := (CoRe.bpfGetCurrentComm task.comm).toList
    if compareLoop taskCmd val.toList then some (bpfTracePrintk task.cgroupId taskCmd) else none

theorem charsDiffer_eq_false (c v : UInt8) : charsDiffer c v = false ↔ c = v := by
  have hc := c.toNat_lt
  have hv := v.toNat_lt
  rw [charsDiffer, bne_eq_false_iff_eq, CoRe.toInt_toInt8, CoRe.toInt_toInt8, ← UInt8.toNat_inj]
  split <;> split <;> omega

theorem compareLoop_eq_true (comm val : List UInt8) (hlength : comm.length = val.length) :
    compareLoop comm val = true ↔ cstr comm = cstr val := by
  have hself : ∀ byte, charsDiffer byte byte = false := fun byte ↦ (charsDiffer_eq_false byte byte).mpr rfl
  rw [compareLoop, compareBytes_eq_true (hself 0) (fun c v ↦ (charsDiffer_eq_false c v).mp) hlength]
  exact and_iff_left fun byte _ ↦ hself byte

/-- When the probe prints, it prints the cgroup and the command of a task whose `comm` is the C string
of the entry. -/
theorem sysEnterExecve_eq_some {rcMap : ResizeContainersMap} {task : CoRe.Task} {line : List UInt8} :
    sysEnterExecve rcMap task = some line ↔
      (∃ val, probeLookup rcMap task.cgroupId = some val ∧ cstr val.toList = task.comm.bytes) ∧
        line = asBytes ("\x7b \"cgroup_id\": \"".toList ++ decimal task.cgroupId.toNat ++
          "\", \"command\": \"".toList) ++ task.comm.bytes ++ asBytes "\" \x7d".toList := by
  unfold sysEnterExecve
  cases hval : probeLookup rcMap task.cgroupId with
  | none => simp
  | some val =>
    have hloop := compareLoop_eq_true (CoRe.bpfGetCurrentComm task.comm).toList val.toList (by simp)
    rw [CoRe.cstr_bpfGetCurrentComm] at hloop
    simp only [Option.ite_none_right_eq_some, Option.some.injEq, exists_eq_left', hloop,
      bpfTracePrintk, CoRe.cstr_bpfGetCurrentComm]
    exact and_congr eq_comm eq_comm

/-! ## Both probes -/

/-- The CO-RE probe finds equal C strings in the buffers exactly where they are, and so does the BCC
probe. -/
def DecideEquality (comm val : Buffer 32) : Prop :=
  (CoRe.compareLoop comm.toList val.toList = true ↔ cstr comm.toList = cstr val.toList) ∧
    CoRe.compareLoop comm.toList val.toList = compareLoop comm.toList val.toList

/-- Once `create_resize_bpf_map_entry` has stored the command, the CO-RE probe outputs events of the
tasks of this cgroup whose `comm` it is, and of no others. -/
def MatchesExactly (command : Text) : Prop :=
  ∀ (env : CoRe.Env) (cid : Text) (rcMap : CoRe.ResizeContainersMap) (task : CoRe.Task),
    CoRe.containerCgroupId env cid = .ok task.cgroupId → rcMap.Accepts task.cgroupId →
      ((CoRe.podsnoop (CoRe.createResizeBpfMapEntry env cid command rcMap).1 task).isSome ↔
        task.comm.bytes = asBytes command)

theorem decideEquality_iff (comm val : Buffer 32) :
    DecideEquality comm val ↔
      (cstr comm.toList = cstr val.toList → ∀ byte ∈ cstr comm.toList, byte < 128) := by
  have hlength : comm.toList.length = val.toList.length := by simp
  have hcore := CoRe.compareLoop_eq_true comm.toList val.toList hlength
  have hsame : CoRe.compareLoop comm.toList val.toList = compareLoop comm.toList val.toList ↔
      (CoRe.compareLoop comm.toList val.toList = true ↔ cstr comm.toList = cstr val.toList) := by
    rw [← compareLoop_eq_true _ _ hlength]
    exact Bool.eq_iff_iff
  rw [DecideEquality, hsame, and_self_iff, hcore]
  exact and_iff_left_iff_imp

/-- The events of a stored command. -/
theorem isSome_podsnoop_create {env : CoRe.Env} {cid command : Text} {rcMap : CoRe.ResizeContainersMap}
    {task : CoRe.Task} (hgroup : CoRe.containerCgroupId env cid = .ok task.cgroupId)
    (haccepts : rcMap.Accepts task.cgroupId) (hlength : (asBytes command).length ≤ 15)
    (hzero : 0 ∉ asBytes command) :
    (CoRe.podsnoop (CoRe.createResizeBpfMapEntry env cid command rcMap).1 task).isSome ↔
      task.comm.bytes = asBytes command ∧ ∀ byte ∈ asBytes command, byte < 128 := by
  have hfits : (asBytes command).length ≤ CoRe.bufSize := by
    simp only [CoRe.bufSize]
    omega
  obtain ⟨val, hval⟩ := Option.isSome_iff_exists.mp (isSome_ofBytes.mpr hfits)
  have hcstr : cstr val.toList = asBytes command := by rw [cstr_ofBytes hval, cstr_eq_self hzero]
  have hentry : CoRe.resizeEntry env cid command = .ok (task.cgroupId, val) := by
    rw [CoRe.resizeEntry, hgroup, hval]
    rfl
  have hlookup := BoundedMap.lookup_put_self val haccepts
  rw [CoRe.createResizeBpfMapEntry, hentry, Option.isSome_iff_exists]
  simp only [CoRe.podsnoop_eq_some, hlookup, Option.some.injEq, exists_eq_left', hcstr,
    exists_and_left, exists_eq, and_true]
  constructor
  · rintro ⟨heq, hascii⟩
    exact ⟨heq.symm, heq ▸ hascii⟩
  · rintro ⟨heq, hascii⟩
    exact ⟨heq.symm, heq ▸ hascii⟩

theorem matchesExactly_iff {command : Text} (hlength : (asBytes command).length ≤ 15)
    (hzero : 0 ∉ asBytes command) :
    MatchesExactly command ↔ ∀ byte ∈ asBytes command, byte < 128 := by
  constructor
  · intro h
    have hgroup : CoRe.containerCgroupId CoRe.demoEnv "containerd://4242".toList = .ok 4242 := by
      decide +kernel
    have hroom : (BoundedMap.empty : CoRe.ResizeContainersMap).Accepts 4242 :=
      .inr (by simp [CoRe.maxNumContainers])
    have hmatch := h CoRe.demoEnv _ .empty (CoRe.demoTask command (by omega) hzero) hgroup hroom
    exact ((isSome_podsnoop_create hgroup hroom hlength hzero).mp (hmatch.mpr rfl)).2
  · intro hascii env cid rcMap task hgroup haccepts
    rw [isSome_podsnoop_create hgroup haccepts hlength hzero]
    exact and_iff_left hascii

/-- The in-kernel match is equality of C strings, in both probes, exactly for buffers that do not hold
equal strings with a byte above 127; and a stored command matches exactly the tasks that are named so
exactly where it is ASCII. -/
theorem commandMatch_iff (comm val : Buffer 32) (command : Text)
    (hlength : (asBytes command).length ≤ 15) (hzero : 0 ∉ asBytes command) :
    (DecideEquality comm val ↔
        (cstr comm.toList = cstr val.toList → ∀ byte ∈ cstr comm.toList, byte < 128)) ∧
      (MatchesExactly command ↔ ∀ byte ∈ asBytes command, byte < 128) :=
  ⟨decideEquality_iff comm val, matchesExactly_iff hlength hzero⟩

/-- The command `make`, and two empty buffers. -/
theorem commandMatch_make :
    DecideEquality (Vector.replicate 32 0) (Vector.replicate 32 0) ∧ MatchesExactly "make".toList := by
  obtain ⟨hequality, hmatch⟩ := commandMatch_iff (Vector.replicate 32 0) (Vector.replicate 32 0)
    "make".toList (by decide +kernel) (by decide +kernel)
  exact ⟨hequality.mpr (by decide +kernel), hmatch.mpr (by decide +kernel)⟩

/-- The command `é`: two buffers with the same bytes, for which the CO-RE loop says that they differ
and the BCC loop that they are equal, and a stored entry that no task matches. -/
theorem commandMatch_counterexample :
    (∃ comm : Buffer 32, CoRe.compareLoop comm.toList comm.toList = false ∧
        compareLoop comm.toList comm.toList = true ∧ ¬ DecideEquality comm comm) ∧
      ¬ MatchesExactly "é".toList := by
  constructor
  · refine ⟨⟨#[195, 169] ++ Array.replicate 30 0, by decide⟩, by decide +kernel, by decide +kernel, ?_⟩
    rw [decideEquality_iff]
    exact fun h ↦ absurd (h rfl) (by decide +kernel)
  · rw [matchesExactly_iff (by decide +kernel) (by decide +kernel)]
    decide +kernel

end EbpfPlayground.Bcc
