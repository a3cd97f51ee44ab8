import EbpfPlayground.CoRe.Kernel
import EbpfPlayground.CoRe.PodInfo

/-!
# The daemon on its node

The daemon and the threads of its node take steps in any order.  The probe runs when a thread enters
`execve`; what comes of the call is a later step, and so is the handling of the event.  While an event
is handled, the commands of the helper script answer what is true of the node at that time.
-/

namespace EbpfPlayground.CoRe

open Shell Text

structure Cluster where
  daemon : State
  kernel : Kernel

inductive ClusterAction where
  | kernel (action : KernelAction)
  /-- A thread enters `execve`, and the probe runs. -/
  | enterExecve (tid : UInt32)
  /-- Any other step of the daemon. -/
  | daemon (action : Action)

namespace Cluster

def step (s : Cluster) : ClusterAction → Option Cluster
  | .kernel action => (s.kernel.step action).map fun k ↦ { s with kernel := k }
  | .enterExecve tid =>
    (s.kernel.find tid).bind fun thread ↦
      (CoRe.step s.daemon (.execve thread.task)).map fun d ↦ { s with daemon := d }
  | .daemon (.execve _) => none
  | .daemon action => (CoRe.step s.daemon action).map fun d ↦ { s with daemon := d }

/-- A run from a start of the daemon on some node. -/
def Reaches (history : List ClusterAction) (s : Cluster) : Prop :=
  ∃ k, Run.run step ⟨State.init, k⟩ history = some s

theorem step_enterExecve_cases {s s' : Cluster} {tid : UInt32} (h : s.step (.enterExecve tid) = some s') :
    ∃ thread d, s.kernel.find tid = some thread ∧
      CoRe.step s.daemon (.execve thread.task) = some d ∧ s' = { s with daemon := d } := by
  obtain ⟨thread, hthread, hstep⟩ := Option.bind_eq_some_iff.mp h
  obtain ⟨d, hd, rfl⟩ := Option.map_eq_some_iff.mp hstep
  exact ⟨thread, d, hthread, hd, rfl⟩

/-- A step is one of the node or one of the daemon, and leaves the other as it is. -/
theorem step_cases {s s' : Cluster} {action : ClusterAction} (h : s.step action = some s') :
    (∃ own k, action = .kernel own ∧ s.kernel.step own = some k ∧ s' = { s with kernel := k }) ∨
      ∃ own d, CoRe.step s.daemon own = some d ∧ s' = { s with daemon := d } := by
  cases action with
  | kernel own =>
    obtain ⟨k, hk, rfl⟩ := Option.map_eq_some_iff.mp h
    exact .inl ⟨own, k, rfl, hk, rfl⟩
  | enterExecve tid =>
    obtain ⟨thread, d, -, hd, heq⟩ := step_enterExecve_cases h
    exact .inr ⟨_, d, hd, heq⟩
  | daemon own =>
    cases own with
    | execve task => cases h
    | _ =>
      simp only [step, Option.map_eq_some_iff] at h
      obtain ⟨d, hd, rfl⟩ := h
      exact .inr ⟨_, d, hd, rfl⟩

theorem step_enterExecve {s : Cluster} {tid : UInt32} {thread : Thread} {event : PodExecEvent}
    (hthread : s.kernel.find tid = some thread)
    (hevent : podsnoop s.daemon.rcMap thread.task = some event) :
    s.step (.enterExecve tid) = some { s with
      daemon := { s.daemon with inFlight := s.daemon.inFlight ++ [⟨event, s.daemon.handled⟩] } } := by
  rw [step, hthread, Option.bind_some, (Steps.emit thread.task event hevent).step]
  rfl

/-- Steps of the node alone leave the daemon as it is. -/
theorem run_kernel (s : Cluster) (actions : List KernelAction) :
    Run.run step s (actions.map .kernel) =
      (Run.run Kernel.step s.kernel actions).map fun k ↦ { s with kernel := k } := by
  induction actions generalizing s with
  | nil => rfl
  | cons action actions ih =>
    rw [List.map_cons, Run.run_cons, Run.run_cons, step]
    cases s.kernel.step action with
    | none => rfl
    | some k => exact ih { s with kernel := k }

end Cluster

/-- The container with this cgroup, while it runs. -/
def Kernel.container (k : Kernel) (owner : UInt64 → Option RunningContainer) (cgroupId : UInt64) :
    Option RunningContainer :=
  if k.running cgroupId then owner cgroupId else none

/-- The commands of the helper script answer truly. -/
structure Answers (owner : UInt64 → Option RunningContainer) (k : Kernel) (env : SnoopEnv)
    (event : PodExecEvent) : Prop where
  glob : env.GlobsLiterally
  hostname : env.nsenterHostname (decimal event.cgroupPid.toNat) =
    ((k.hostnameOf event.cgroupPid).map (· ++ ['\n'])).getD []
  container : ∀ c, k.container owner event.cgroupId = some c → Describes env event.cgroupId c
  noContainer : k.container owner event.cgroupId = none →
    grep "kubepods".toList (env.findInum (decimal event.cgroupId.toNat)) = []

/-- Where the step handles an event, this holds of the node, the answers and the event. -/
def Handles (P : Kernel → SnoopEnv → PodExecEvent → Prop) (s : Cluster) (action : ClusterAction) :
    Prop :=
  ∀ index env emitted, action = .daemon (.deliver index env) →
    s.daemon.inFlight[index]? = some emitted → P s.kernel env emitted.event

/-! ## A node with one container -/

theorem isName_demo : IsName "4242".toList ∧ IsName "default".toList ∧ IsName "demo".toList ∧
    IsName "ctr".toList := by
  decide

/-- The container `ctr` of the pod `demo`. -/
def demoContainer : RunningContainer where
  id := "4242".toList
  container := ⟨("default".toList, "demo".toList), "ctr".toList⟩
  isName_id := isName_demo.1
  isName_ns := isName_demo.2.1
  isName_podName := isName_demo.2.2.1
  isName_name := isName_demo.2.2.2

def demoContainers (cgroupId : UInt64) : Option RunningContainer :=
  if cgroupId = 4242 then some demoContainer else none

/-- A thread of the process 7777, which is `make` in that container. -/
def makeThread (tid : UInt32) : Thread := ⟨tid, 7777, makeTask.comm, 4242, 0⟩

theorem distinct_makeThreads : ([makeThread 7777, makeThread 7778].map Thread.tid).Nodup := by
  decide

theorem share_makeThreads : ∀ first ∈ [makeThread 7777, makeThread 7778],
    ∀ second ∈ [makeThread 7777, makeThread 7778], first.tgid = second.tgid →
      first.uts = second.uts := by
  decide

/-- The process has two threads, and its namespace has this hostname. -/
def demoKernel (hostname : Text) : Kernel where
  threads := [makeThread 7777, makeThread 7778]
  hostname := fun _ ↦ hostname
  running := fun _ ↦ true
  distinct := distinct_makeThreads
  share := share_makeThreads

/-- What the commands answer about an event of that container. -/
def demoAnswers (k : Kernel) (event : PodExecEvent) (annotations : List (Text × Text)) : SnoopEnv :=
  { demoSnoopEnv [] annotations with
    nsenterHostname := fun _ ↦ ((k.hostnameOf event.cgroupPid).map (· ++ ['\n'])).getD [] }

theorem describes_demo (k : Kernel) (event : PodExecEvent) (annotations : List (Text × Text)) :
    Describes (demoAnswers k event annotations) 4242 demoContainer where
  directory := by
    refine ⟨"/sys/fs/cgroup/unified/kubepods".toList, ⟨⟨by decide, by decide⟩, by decide⟩, ?_⟩
    change grep "kubepods".toList ["/sys/fs/cgroup/unified/kubepods/".toList ++
      decimal (4242 : UInt64).toNat] = ["/sys/fs/cgroup/unified/kubepods".toList ++ '/' :: "4242".toList]
    decide +kernel
  namespaceLabel := by
    change "\"default\"\n".toList = Json.quote "default".toList ++ ['\n']
    decide +kernel
  nameLabel := by
    change "\"ctr\"\n".toList = Json.quote "ctr".toList ++ ['\n']
    decide +kernel

theorem answers_demo {k : Kernel} {event : PodExecEvent} (hcgroup : event.cgroupId = 4242)
    (hrunning : k.running 4242 = true) (annotations : List (Text × Text)) :
    Answers demoContainers k (demoAnswers k event annotations) event := by
  have hcontainer : k.container demoContainers event.cgroupId = some demoContainer := by
    rw [Kernel.container, hcgroup, hrunning]
    rfl
  constructor
  · exact fun field _ ↦ rfl
  · rfl
  · intro c hc
    obtain rfl := Option.some.inj (hcontainer.symm.trans hc)
    rw [hcgroup]
    exact describes_demo k event annotations
  · intro hnone
    rw [hcontainer] at hnone
    cases hnone

def makePod : Pod := demoPod (demoAnnotations "[\"make\"]".toList) "4242".toList

/-- The daemon after it has handled a pod with the trigger `make`. -/
def demoDaemon : State :=
  State.handlePod { State.init with stream := [.pod makePod] } demoEnv makePod []

def watchSteps : List ClusterAction :=
  [.daemon (.watch (.event (.applied makePod))), .daemon (.handle demoEnv)]

theorem run_watchSteps (k : Kernel) :
    Run.run Cluster.step ⟨State.init, k⟩ watchSteps = some ⟨demoDaemon, k⟩ := by
  have hwatch : step State.init (.watch (.event (.applied makePod))) =
      some { State.init with stream := [.pod makePod] } := rfl
  have hhandle : step { State.init with stream := [.pod makePod] } (.handle demoEnv) =
      some demoDaemon := rfl
  simp only [watchSteps, Run.run_cons, Run.run_nil, Cluster.step, hwatch, hhandle, Option.map_some,
    Option.bind_some]

/-- The event of a thread of that process. -/
def demoEmitted (tid : UInt32) : Emitted :=
  ⟨⟨4242, tid, bpfGetCurrentComm makeTask.comm⟩, demoDaemon.handled⟩

theorem podsnoop_makeThread (tid : UInt32) :
    podsnoop demoDaemon.rcMap (makeThread tid).task = some (demoEmitted tid).event := by
  have hleader : podsnoop demoDaemon.rcMap (makeThread 7777).task = some (demoEmitted 7777).event := by
    decide +kernel
  obtain ⟨hentry, hascii, -⟩ := podsnoop_eq_some.mp hleader
  refine podsnoop_eq_some.mpr ⟨hentry, hascii, ?_⟩
  rw [Thread.task, Thread.toUInt32_pidTgid]
  rfl

/-- The pod is handled, the leader starts a program, and its event is handled. -/
def demoSteps (env : SnoopEnv) : List ClusterAction :=
  watchSteps ++ [.enterExecve 7777] ++ [.daemon (.deliver 0 env)]

/-- What holds of the handling of that event holds of every handling in these steps. -/
theorem meets_demoSteps {P : Kernel → SnoopEnv → PodExecEvent → Prop} {k : Kernel} {env : SnoopEnv}
    (hthread : k.find 7777 = some (makeThread 7777)) :
    Run.Meets Cluster.step (Handles P) ⟨State.init, k⟩ (demoSteps env) ↔
      P k env (demoEmitted 7777).event := by
  have hrun : Run.run Cluster.step ⟨State.init, k⟩ (watchSteps ++ [.enterExecve 7777]) =
      some ⟨{ demoDaemon with inFlight := [demoEmitted 7777] }, k⟩ := by
    rw [Run.run_concat, run_watchSteps, Option.bind_some]
    exact Cluster.step_enterExecve hthread (podsnoop_makeThread 7777)
  have hbefore : Run.Meets Cluster.step (Handles P) ⟨State.init, k⟩
      (watchSteps ++ [.enterExecve 7777]) := by
    have hother : ∀ action ∈ watchSteps ++ [.enterExecve 7777],
        ∀ index env, action ≠ .daemon (.deliver index env) := by
      simp [watchSteps]
    have hmeets : Run.Meets Cluster.step (fun _ action ↦ ∀ index env, action ≠ .daemon (.deliver index env))
        ⟨State.init, k⟩ (watchSteps ++ [.enterExecve 7777]) :=
      Run.meets_of_forall_mem hother _
    exact hmeets.imp fun s action hne index env _ haction ↦ absurd haction (hne index env)
  rw [demoSteps, Run.meets_concat, and_iff_right hbefore, hrun]
  constructor
  · intro h
    exact h _ rfl 0 env (demoEmitted 7777) rfl rfl
  · rintro h t ht index env' emitted haction hqueued
    obtain rfl := Option.some.inj ht
    obtain ⟨rfl, rfl⟩ : 0 = index ∧ env = env' := by
      simpa using haction
    obtain rfl : demoEmitted 7777 = emitted := Option.some.inj hqueued
    exact h

end EbpfPlayground.CoRe
