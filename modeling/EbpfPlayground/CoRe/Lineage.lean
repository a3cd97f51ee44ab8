import EbpfPlayground.CoRe.Triggers
import EbpfPlayground.Foundation.Run

/-!
# Whose command the probe sees

`podsnoop` runs at the entry of `execve`, so the `comm` that it compares is still the caller's: the
name of the program that the caller launched last or, if it has launched none, of the one that its
parent ran when it forked.  The program that the call is about to launch plays no part.
-/

namespace EbpfPlayground.CoRe

open CString Run Text

/-- A call of `execve`: the caller, the program that it names, whether it is launched, and the map
at that time. -/
structure Execve where
  task : ℕ
  program : Comm
  succeeds : Bool
  rcMap : ResizeContainersMap
  pidTgid : UInt64

inductive TaskAction where
  | fork (parent child : ℕ)
  | execve (call : Execve)
  | exit (task : ℕ)

/-- The `comm` of each task that is alive. -/
abbrev Comms := ℕ → Option Comm

/-- What the kernel does to the tasks of a container. -/
def taskStep (s : Comms) : TaskAction → Option Comms
  | .fork parent child =>
    match s parent, s child with
    | some comm, none => some (Function.update s child (some comm))
    | _, _ => none
  | .execve call =>
    match s call.task with
    | some _ =>
      some (if call.succeeds then Function.update s call.task (some call.program) else s)
    | none => none
  | .exit task =>
    match s task with
    | some _ => some (Function.update s task none)
    | none => none

/-- What the probe outputs at the entry of the call. -/
def probeAt (cgroupId : UInt64) (s : Comms) (call : Execve) : Option PodExecEvent :=
  (s call.task).bind fun comm ↦ podsnoop call.rcMap ⟨comm, cgroupId, call.pidTgid⟩

/-- The probe outputs an event at this call, after these actions. -/
def Fires (cgroupId : UInt64) (init : Comms) (before : List TaskAction) (call : Execve) : Prop :=
  ∃ s event, run taskStep init before = some s ∧ probeAt cgroupId s call = some event

/-- The map holds the command for the container at every call. -/
def HoldsThroughout (cgroupId : UInt64) (command : Text) (history : List TaskAction) : Prop :=
  ∀ call, .execve call ∈ history →
    ∃ value, call.rcMap.lookup cgroupId = some value ∧ cstr value.toList = asBytes command

/-- Events come at exactly the calls that launch a program of this name. -/
def FiresAtLaunches (cgroupId : UInt64) (command : Text) (init : Comms)
    (history : List TaskAction) : Prop :=
  ∀ before call after, history = before ++ .execve call :: after →
    (Fires cgroupId init before call ↔
      call.succeeds = true ∧ call.program.bytes = asBytes command)

/-- The program that a task runs: the one that it launched last, else the one that its parent ran
when it forked.  The latest action comes first. -/
def programOf (init : Comms) : List TaskAction → ℕ → Option Comm
  | [], task => init task
  | .fork parent child :: before, task =>
    programOf init before (if task = child then parent else task)
  | .execve call :: before, task =>
    if task = call.task ∧ call.succeeds = true then some call.program
    else programOf init before task
  | .exit _ :: before, task => programOf init before task

/-- Events come at exactly the calls of tasks that run a program of this name. -/
def FiresAtCallers (cgroupId : UInt64) (command : Text) (init : Comms)
    (history : List TaskAction) : Prop :=
  ∀ before call after, history = before ++ .execve call :: after →
    (Fires cgroupId init before call ↔
      ∃ comm, programOf init before.reverse call.task = some comm ∧ comm.bytes = asBytes command)

/-! ## Steps and runs -/

/-- What a step does to the `comm` of a task. -/
theorem eq_some_of_taskStep {s s' : Comms} {action : TaskAction} (h : taskStep s action = some s')
    {before : List TaskAction} {init : Comms}
    (hs : ∀ task comm, s task = some comm → programOf init before task = some comm) (task : ℕ)
    (comm : Comm) (hcomm : s' task = some comm) :
    programOf init (action :: before) task = some comm := by
  cases action with
  | fork parent child =>
    rw [taskStep] at h
    split at h
    · next found hparent hchild =>
      obtain rfl := Option.some.inj h
      rw [programOf]
      by_cases htask : task = child
      · subst htask
        rw [Function.update_self] at hcomm
        rw [if_pos rfl]
        exact hs parent comm (hparent.trans hcomm)
      · rw [Function.update_of_ne htask] at hcomm
        rw [if_neg htask]
        exact hs task comm hcomm
    · cases h
  | execve call =>
    rw [taskStep] at h
    split at h
    · next found hfound =>
      obtain rfl := Option.some.inj h
      rw [programOf]
      by_cases hlaunch : task = call.task ∧ call.succeeds = true
      · rw [if_pos hlaunch]
        rw [if_pos hlaunch.2, hlaunch.1, Function.update_self] at hcomm
        exact hcomm
      · rw [if_neg hlaunch]
        apply hs task comm
        split at hcomm
        · next hsucceeds =>
          rwa [Function.update_of_ne fun htask ↦ hlaunch ⟨htask, hsucceeds⟩] at hcomm
        · exact hcomm
    · cases h
  | exit exited =>
    rw [taskStep] at h
    split at h
    · next found hfound =>
      obtain rfl := Option.some.inj h
      rw [programOf]
      by_cases htask : task = exited
      · rw [htask, Function.update_self] at hcomm
        cases hcomm
      · rw [Function.update_of_ne htask] at hcomm
        exact hs task comm hcomm
    · cases h

/-- In every run, the `comm` of a task is the name of the program that it runs. -/
theorem programOf_of_run {init s : Comms} {history : List TaskAction}
    (h : run taskStep init history = some s) (task : ℕ) (comm : Comm)
    (hcomm : s task = some comm) : programOf init history.reverse task = some comm := by
  refine Run.invariant (I := fun history s ↦ ∀ task comm, s task = some comm →
    programOf init history.reverse task = some comm) ?_ ?_ h task comm hcomm
  · exact fun _ _ h ↦ h
  · intro history s action s' hs hstep task comm hcomm
    rw [List.reverse_append]
    exact eq_some_of_taskStep hstep hs task comm hcomm

/-- The probe outputs an event exactly when the caller's `comm` is the command. -/
theorem probeAt_eq_some {cgroupId : UInt64} {s : Comms} {call : Execve} {comm : Comm}
    {command : Text} (hcommand : IsComm command) (hcomm : s call.task = some comm)
    (hentry : ∃ value, call.rcMap.lookup cgroupId = some value ∧
      cstr value.toList = asBytes command) :
    (∃ event, probeAt cgroupId s call = some event) ↔ comm.bytes = asBytes command := by
  obtain ⟨value, hvalue, hcstr⟩ := hentry
  rw [probeAt, hcomm, Option.bind_some]
  constructor
  · rintro ⟨event, hevent⟩
    obtain ⟨⟨value', hvalue', hbytes⟩, -⟩ := podsnoop_eq_some.mp hevent
    obtain rfl : value = value' := Option.some.inj (hvalue.symm.trans hvalue')
    exact hbytes.symm.trans hcstr
  · intro hbytes
    refine ⟨_, podsnoop_eq_some.mpr ⟨⟨value, hvalue, hcstr.trans hbytes.symm⟩, ?_, rfl⟩⟩
    change ∀ byte ∈ comm.bytes, byte < 128
    rw [hbytes]
    exact hcommand.lt_of_mem_asBytes

/-- In every history of a container's tasks, events come at exactly the calls of tasks that run a
program whose name is the command. -/
theorem fires_at_callers (cgroupId : UInt64) (command : Text) (hcommand : IsComm command)
    (init s : Comms) (history : List TaskAction) (hrun : run taskStep init history = some s)
    (hentry : HoldsThroughout cgroupId command history) :
    FiresAtCallers cgroupId command init history := by
  intro before call after hsplit
  rw [hsplit, run_append] at hrun
  obtain ⟨t, hbefore, hrest⟩ := Option.bind_eq_some_iff.mp hrun
  obtain ⟨t', hstep, -⟩ := Option.bind_eq_some_iff.mp hrest
  obtain ⟨comm, hcomm⟩ : ∃ comm, t call.task = some comm := by
    rw [taskStep] at hstep
    split at hstep
    · next comm hcomm => exact ⟨comm, hcomm⟩
    · cases hstep
  have hprogram := programOf_of_run hbefore call.task comm hcomm
  have hprobe := probeAt_eq_some hcommand hcomm (hentry call (by rw [hsplit]; simp))
  calc
    Fires cgroupId init before call ↔ ∃ event, probeAt cgroupId t call = some event := by
      rw [Fires, hbefore]
      simp
    _ ↔ comm.bytes = asBytes command := hprobe
    _ ↔ ∃ comm, programOf init before.reverse call.task = some comm ∧
        comm.bytes = asBytes command := by
      rw [hprogram]
      simp

/-! ## A shell that starts `make` -/

/-- The `comm` of a task that runs a program of this name. -/
def IsComm.comm {name : Text} (h : IsComm name) : Comm :=
  ⟨asBytes name, h.length_asBytes, h.zero_notMem⟩

theorem isComm_sh : IsComm "sh".toList := ⟨by decide, by decide, by decide, by decide⟩

theorem isComm_make : IsComm "make".toList := ⟨by decide, by decide, by decide, by decide⟩

theorem isComm_cc : IsComm "cc".toList := ⟨by decide, by decide, by decide, by decide⟩

/-- The entry of the container is `make`. -/
def makeMap : ResizeContainersMap :=
  BoundedMap.empty.put 4242 (bpfGetCurrentComm isComm_make.comm)

/-- A shell. -/
def shellComms : Comms := fun task ↦ if task = 1 then some isComm_sh.comm else none

def launchMake : Execve := ⟨2, isComm_make.comm, true, makeMap, 2⟩

def launchCc : Execve := ⟨3, isComm_cc.comm, true, makeMap, 3⟩

/-- A child of the shell launches `make`, and a child of `make` launches `cc`. -/
def buildHistory : List TaskAction := [.fork 1 2, .execve launchMake, .fork 2 3, .execve launchCc]

theorem holdsThroughout_buildHistory : HoldsThroughout 4242 "make".toList buildHistory := by
  have hmap : makeMap.lookup 4242 = some (bpfGetCurrentComm isComm_make.comm) :=
    BoundedMap.lookup_put_self _ (.inr (by decide))
  intro call hcall
  refine ⟨_, ?_, cstr_bpfGetCurrentComm isComm_make.comm⟩
  simp only [buildHistory, List.mem_cons, List.not_mem_nil, or_false, reduceCtorEq, false_or,
    TaskAction.execve.injEq] at hcall
  rcases hcall with rfl | rfl
  · exact hmap
  · exact hmap

theorem fires_at_callers_build : FiresAtCallers 4242 "make".toList shellComms buildHistory := by
  have hsome : (run taskStep shellComms buildHistory).isSome := rfl
  obtain ⟨s, hrun⟩ := Option.isSome_iff_exists.mp hsome
  exact fires_at_callers 4242 _ isComm_make shellComms s buildHistory hrun
    holdsThroughout_buildHistory

/-- There is no event when `make` is launched, and there is one when `cc` is. -/
theorem fires_at_launches_counterexample :
    (∃ s, run taskStep shellComms buildHistory = some s) ∧
      HoldsThroughout 4242 "make".toList buildHistory ∧
      ¬ Fires 4242 shellComms [.fork 1 2] launchMake ∧
      Fires 4242 shellComms [.fork 1 2, .execve launchMake, .fork 2 3] launchCc ∧
      ¬ FiresAtLaunches 4242 "make".toList shellComms buildHistory := by
  have hentry := holdsThroughout_buildHistory
  have hshell : ¬ Fires 4242 shellComms [.fork 1 2] launchMake := by
    rintro ⟨s, event, hrun, hevent⟩
    obtain rfl := Option.some.inj hrun
    have hcaller : Function.update shellComms 2 (some isComm_sh.comm) launchMake.task =
        some isComm_sh.comm := rfl
    have hprobe := probeAt_eq_some isComm_make hcaller (hentry launchMake (by simp [buildHistory]))
    exact absurd (hprobe.mp ⟨event, hevent⟩) (by decide)
  have hmake : Fires 4242 shellComms [.fork 1 2, .execve launchMake, .fork 2 3] launchCc := by
    obtain ⟨s, hrun⟩ : ∃ s, run taskStep shellComms [.fork 1 2, .execve launchMake, .fork 2 3] =
        some s := ⟨_, rfl⟩
    have hcaller : s launchCc.task = some isComm_make.comm := by
      obtain rfl := Option.some.inj hrun
      rfl
    have hprobe := probeAt_eq_some isComm_make hcaller (hentry launchCc (by simp [buildHistory]))
    obtain ⟨event, hevent⟩ := hprobe.mpr rfl
    exact ⟨s, event, hrun, hevent⟩
  refine ⟨Option.isSome_iff_exists.mp rfl, hentry, hshell, hmake, fun h ↦ ?_⟩
  exact hshell ((h [.fork 1 2] _ _ rfl).mpr ⟨rfl, rfl⟩)

end EbpfPlayground.CoRe
