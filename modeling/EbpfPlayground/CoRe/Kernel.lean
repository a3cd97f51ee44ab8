import EbpfPlayground.CoRe.Probe
import EbpfPlayground.Foundation.Run
import Mathlib.Logic.Function.Basic

/-!
# The threads of the node

What the daemon does not decide: which threads exist, which UTS namespace each of them is in, what the
hostname of a namespace is, and which containers run.  A thread is named by its tid.  The threads with
one tgid are a process, and the one whose tid is the tgid leads it.  A successful `execve` ends all
threads of the process but one, and that one has the tgid as its tid, whichever thread made the call.
-/

namespace EbpfPlayground.CoRe

/-- A thread, with what the probe reads of it and the UTS namespace it is in. -/
structure Thread where
  tid : UInt32
  tgid : UInt32
  comm : Comm
  cgroupId : UInt64
  uts : ℕ
  deriving DecidableEq

/-- `bpf_get_current_pid_tgid`. -/
def Thread.pidTgid (thread : Thread) : UInt64 :=
  UInt64.ofNat (thread.tgid.toNat * 2 ^ 32 + thread.tid.toNat)

/-- Low half first: the event's pid is the tid of the caller. -/
theorem Thread.toUInt32_pidTgid (thread : Thread) : thread.pidTgid.toUInt32 = thread.tid := by
  have htid := thread.tid.toNat_lt
  have htgid := thread.tgid.toNat_lt
  apply UInt32.toNat_inj.mp
  rw [UInt64.toNat_toUInt32, Thread.pidTgid, UInt64.toNat_ofNat']
  omega

/-- What the probe reads when the thread enters `execve`. -/
def Thread.task (thread : Thread) : Task := ⟨thread.comm, thread.cgroupId, thread.pidTgid⟩

/-- No two threads have one tid, and the threads of a process are in one UTS namespace. -/
structure Kernel where
  threads : List Thread
  /-- The hostname of each UTS namespace. -/
  hostname : ℕ → Text
  /-- The container with this cgroup runs. -/
  running : UInt64 → Bool
  distinct : (threads.map Thread.tid).Nodup
  share : ∀ first ∈ threads, ∀ second ∈ threads, first.tgid = second.tgid → first.uts = second.uts

inductive KernelAction where
  /-- A process starts: a container's first one, or a fork. -/
  | start (pid : UInt32) (comm : Comm) (cgroupId : UInt64) (uts : ℕ)
  /-- A thread starts another one in its process. -/
  | clone (caller tid : UInt32)
  /-- The `execve` of a thread succeeds. -/
  | launch (caller : UInt32) (program : Comm)
  /-- One thread exits. -/
  | exit (tid : UInt32)
  /-- A process exits or is killed. -/
  | exitGroup (pid : UInt32)
  | sethostname (uts : ℕ) (name : Text)
  | setRunning (cgroupId : UInt64) (running : Bool)

/-- The action ends the process with this pid, or its leader. -/
def KernelAction.Ends (pid : UInt32) : KernelAction → Prop
  | .exit tid => tid = pid
  | .exitGroup pid' => pid' = pid
  | _ => False

namespace Kernel

/-- The thread with this tid. -/
def find (k : Kernel) (tid : UInt32) : Option Thread := k.threads.find? fun thread ↦ thread.tid = tid

/-- The hostname that the thread with this tid sees. -/
def hostnameOf (k : Kernel) (tid : UInt32) : Option Text :=
  (k.find tid).map fun thread ↦ k.hostname thread.uts

/-- Only some of the threads are left. -/
def keep (k : Kernel) (p : Thread → Bool) : Kernel where
  threads := k.threads.filter p
  hostname := k.hostname
  running := k.running
  distinct := k.distinct.sublist (List.filter_sublist.map _)
  share := fun first hfirst second hsecond ↦
    k.share first (List.mem_of_mem_filter hfirst) second (List.mem_of_mem_filter hsecond)

/-- A new thread can take its tid and its place. -/
def Admits (k : Kernel) (thread : Thread) : Prop :=
  (∀ other ∈ k.threads, other.tid ≠ thread.tid) ∧
    ∀ other ∈ k.threads, other.tgid = thread.tgid → other.uts = thread.uts

instance (k : Kernel) (thread : Thread) : Decidable (k.Admits thread) :=
  inferInstanceAs (Decidable (_ ∧ _))

def add (k : Kernel) (thread : Thread) (h : k.Admits thread) : Kernel where
  threads := thread :: k.threads
  hostname := k.hostname
  running := k.running
  distinct := by
    rw [List.map_cons, List.nodup_cons]
    refine ⟨fun hmem ↦ ?_, k.distinct⟩
    obtain ⟨other, hother, htid⟩ := List.mem_map.mp hmem
    exact h.1 other hother htid
  share := by
    intro first hfirst second hsecond htgid
    rcases List.mem_cons.mp hfirst with hnew | hold
    · rw [hnew] at htgid ⊢
      rcases List.mem_cons.mp hsecond with rfl | hsecond
      · rfl
      · exact (h.2 second hsecond htgid.symm).symm
    · rcases List.mem_cons.mp hsecond with rfl | hsecond
      · exact h.2 first hold htgid
      · exact k.share first hold second hsecond htgid

def spawn (k : Kernel) (thread : Thread) : Option Kernel :=
  if h : k.Admits thread then some (k.add thread h) else none

/-- A tid is free while no thread and no process has it. -/
def Free (k : Kernel) (tid : UInt32) : Prop :=
  ∀ thread ∈ k.threads, thread.tid ≠ tid ∧ thread.tgid ≠ tid

instance (k : Kernel) (tid : UInt32) : Decidable (k.Free tid) :=
  inferInstanceAs (Decidable (∀ _ ∈ _, _))

def step (k : Kernel) : KernelAction → Option Kernel
  | .start pid comm cgroupId uts =>
    if k.Free pid then k.spawn ⟨pid, pid, comm, cgroupId, uts⟩ else none
  | .clone caller tid =>
    (k.find caller).bind fun thread ↦ if k.Free tid then k.spawn { thread with tid := tid } else none
  | .launch caller program =>
    (k.find caller).bind fun thread ↦
      (k.keep fun other ↦ other.tgid ≠ thread.tgid).spawn
        { thread with tid := thread.tgid, comm := program }
  | .exit tid => some (k.keep fun thread ↦ thread.tid ≠ tid)
  | .exitGroup pid => some (k.keep fun thread ↦ thread.tgid ≠ pid)
  | .sethostname uts name => some { k with hostname := Function.update k.hostname uts name }
  | .setRunning cgroupId running =>
    some { k with running := Function.update k.running cgroupId running }

/-! ## Threads by tid -/

variable {k k' : Kernel}

theorem mem_of_find {tid : UInt32} {thread : Thread} (h : k.find tid = some thread) :
    thread ∈ k.threads ∧ thread.tid = tid := by
  rw [find] at h
  have htid := List.find?_some h
  exact ⟨List.mem_of_find?_eq_some h, of_decide_eq_true htid⟩

theorem find_of_mem {thread : Thread} (h : thread ∈ k.threads) : k.find thread.tid = some thread := by
  cases hfind : k.find thread.tid with
  | none =>
    rw [find, List.find?_eq_none] at hfind
    exact absurd (decide_eq_true rfl) (hfind thread h)
  | some found =>
    obtain ⟨hfound, htid⟩ := mem_of_find hfind
    rw [List.inj_on_of_nodup_map k.distinct hfound h htid]

theorem mem_spawn {thread other : Thread} (h : k.spawn thread = some k') :
    other ∈ k'.threads ↔ other = thread ∨ other ∈ k.threads := by
  rw [spawn] at h
  split at h
  · obtain rfl := Option.some.inj h
    exact List.mem_cons
  · cases h

/-! ## Processes -/

/-- The thread with this tid leads its process, which is in this UTS namespace. -/
def Leads (k : Kernel) (pid : UInt32) (uts : ℕ) : Prop :=
  ∃ thread ∈ k.threads, thread.tid = pid ∧ thread.tgid = pid ∧ thread.uts = uts

theorem Leads.find {pid : UInt32} {uts : ℕ} (h : k.Leads pid uts) :
    ∃ thread, k.find pid = some thread ∧ thread.uts = uts := by
  obtain ⟨thread, hthread, htid, -, huts⟩ := h
  exact ⟨thread, htid ▸ find_of_mem hthread, huts⟩

theorem leads_of_find {pid : UInt32} {thread : Thread} (h : k.find pid = some thread)
    (hleader : thread.tgid = thread.tid) : k.Leads pid thread.uts := by
  obtain ⟨hmem, htid⟩ := mem_of_find h
  exact ⟨thread, hmem, htid, hleader.trans htid, rfl⟩

theorem Leads.keep {pid : UInt32} {uts : ℕ} (h : k.Leads pid uts) {p : Thread → Bool}
    (hp : ∀ thread : Thread, thread.tid = pid → thread.tgid = pid → p thread = true) :
    (k.keep p).Leads pid uts := by
  obtain ⟨thread, hthread, htid, htgid, huts⟩ := h
  exact ⟨thread, List.mem_filter.mpr ⟨hthread, hp thread htid htgid⟩, htid, htgid, huts⟩

theorem Leads.spawn {pid : UInt32} {uts : ℕ} (h : k.Leads pid uts) {thread : Thread}
    (hspawn : k.spawn thread = some k') : k'.Leads pid uts := by
  obtain ⟨leader, hleader, hrest⟩ := h
  exact ⟨leader, (mem_spawn hspawn).mpr (.inr hleader), hrest⟩

/-- A process keeps its pid and its UTS namespace until it, or its leader, exits. -/
theorem Leads.step {pid : UInt32} {uts : ℕ} (h : k.Leads pid uts) {action : KernelAction}
    (halive : ¬ action.Ends pid) (hstep : k.step action = some k') : k'.Leads pid uts := by
  cases action with
  | start pid' comm cgroupId uts' =>
    obtain ⟨-, hspawn⟩ := Option.ite_none_right_eq_some.mp hstep
    exact h.spawn hspawn
  | clone caller tid =>
    obtain ⟨thread, -, hspawn⟩ := Option.bind_eq_some_iff.mp hstep
    exact h.spawn (Option.ite_none_right_eq_some.mp hspawn).2
  | launch caller program =>
    obtain ⟨thread, hthread, hspawn⟩ := Option.bind_eq_some_iff.mp hstep
    by_cases htgid : thread.tgid = pid
    · -- The process itself: the new leader is in the caller's namespace, which is the leader's.
      obtain ⟨leader, hleader, -, hleaderTgid, huts⟩ := h
      have hshare := k.share thread (mem_of_find hthread).1 leader hleader
        (htgid.trans hleaderTgid.symm)
      exact ⟨_, (mem_spawn hspawn).mpr (.inl rfl), htgid, htgid, hshare.trans huts⟩
    · apply Leads.spawn _ hspawn
      apply h.keep
      intro leader _ hleaderTgid
      exact decide_eq_true fun heq ↦ htgid (heq.symm.trans hleaderTgid)
  | exit tid =>
    obtain rfl := Option.some.inj hstep
    apply h.keep
    intro leader hleader _
    exact decide_eq_true fun heq ↦ halive (heq.symm.trans hleader)
  | exitGroup pid' =>
    obtain rfl := Option.some.inj hstep
    apply h.keep
    intro leader _ hleader
    exact decide_eq_true fun heq ↦ halive (heq.symm.trans hleader)
  | sethostname uts' name =>
    obtain rfl := Option.some.inj hstep
    exact h
  | setRunning cgroupId running =>
    obtain rfl := Option.some.inj hstep
    exact h

end Kernel

end EbpfPlayground.CoRe
