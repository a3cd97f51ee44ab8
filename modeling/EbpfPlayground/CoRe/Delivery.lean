import EbpfPlayground.CoRe.Cluster

/-!
# Whether an event finds its container

The event names the thread that called `execve`.  When it is handled, that thread may be gone: the
process may have exited, or the call of another thread than the leader has succeeded.  A leader's event
is handled as it should be while the process is alive and sees its pod's name as its hostname.
-/

namespace EbpfPlayground.CoRe

open Shell Text

/-- A thread enters `execve`, the probe emits an event, and after some more steps the event is in the
perf buffer, at this place. -/
structure Awaits (s : Cluster) (thread : Thread) (emitted : Emitted) (between : List ClusterAction)
    (t : Cluster) (index : ℕ) : Prop where
  caller : s.kernel.find thread.tid = some thread
  emits : ∃ s', s.step (.enterExecve thread.tid) = some s' ∧
    s'.daemon.inFlight = s.daemon.inFlight ++ [emitted] ∧ Run.run Cluster.step s' between = some t
  queued : t.daemon.inFlight[index]? = some emitted

/-- Handling the event resolves this container and calls `resize_k8s_pod` for it. -/
structure Resolves (env : SnoopEnv) (event : PodExecEvent) (c : RunningContainer) : Prop where
  info : podInfo env (helperOutput env event) = some (c.ns, c.podName, c.name)
  call : handlePodSnoopEvent env event = (dropResult (resizeK8sPod env c.ns c.podName c.name).1,
    (resizeK8sPod env c.ns c.podName c.name).2)

theorem Awaits.event_eq {s t : Cluster} {thread : Thread} {emitted : Emitted}
    {between : List ClusterAction} {index : ℕ} (h : Awaits s thread emitted between t index) :
    emitted.event.OfProbe ∧ emitted.event.cgroupId = thread.cgroupId ∧
      emitted.event.cgroupPid = thread.tid := by
  obtain ⟨s', henter, hemitted, -⟩ := h.emits
  obtain ⟨found, d, hfound, hd, rfl⟩ := Cluster.step_enterExecve_cases henter
  obtain rfl : thread = found := Option.some.inj (h.caller.symm.trans hfound)
  cases steps_of_step hd with
  | execve _ hsilent =>
    have hlength := congrArg List.length hemitted
    simp at hlength
  | emit _ event hevent =>
    obtain rfl : (⟨event, s.daemon.handled⟩ : Emitted) = emitted := by
      simpa using hemitted
    obtain ⟨-, -, rfl⟩ := podsnoop_eq_some.mp hevent
    exact ⟨⟨_, _, hevent⟩, rfl, thread.toUInt32_pidTgid⟩

theorem Awaits.leads {s t : Cluster} {thread : Thread} {emitted : Emitted}
    {between : List ClusterAction} {index : ℕ} (h : Awaits s thread emitted between t index)
    (hleader : thread.tgid = thread.tid)
    (halive : ∀ action, .kernel action ∈ between → ¬ action.Ends thread.tid) :
    t.kernel.Leads thread.tid thread.uts := by
  obtain ⟨s', henter, -, hrun⟩ := h.emits
  obtain ⟨_, d, -, -, rfl⟩ := Cluster.step_enterExecve_cases henter
  have hleads : s.kernel.Leads thread.tid thread.uts := Kernel.leads_of_find h.caller hleader
  have hmeets : Run.Meets Cluster.step
      (fun _ a ↦ ∀ action, a = .kernel action → ¬ action.Ends thread.tid) { s with daemon := d } between := by
    apply Run.meets_of_forall_mem
    rintro _ ha action rfl
    exact halive action ha
  apply Run.invariant_of_meets (I := fun u ↦ u.kernel.Leads thread.tid thread.uts) hleads _ hmeets hrun
  intro u action u' hu hcondition hstep
  rcases Cluster.step_cases hstep with ⟨own, k, haction, hk, rfl⟩ | ⟨_, d, -, rfl⟩
  · exact hu.step (hcondition own haction) hk
  · exact hu

/-- An event of a thread-group leader is not lost while the container runs, the process is alive and
the hostname of its namespace is the pod's name, whatever happens before the event is handled. -/
theorem leader_event_resolves (owner : UInt64 → Option RunningContainer) (s t : Cluster)
    (thread : Thread) (emitted : Emitted) (between : List ClusterAction) (index : ℕ) (env : SnoopEnv)
    (c : RunningContainer) (hawaits : Awaits s thread emitted between t index)
    (hleader : thread.tgid = thread.tid)
    (halive : ∀ action, .kernel action ∈ between → ¬ action.Ends thread.tid)
    (hanswers : Answers owner t.kernel env emitted.event)
    (hrunning : t.kernel.container owner thread.cgroupId = some c)
    (hhostname : t.kernel.hostname thread.uts = c.podName) : Resolves env emitted.event c := by
  obtain ⟨hprobe, hcgroup, hpid⟩ := hawaits.event_eq
  obtain ⟨found, hfound, huts⟩ := (hawaits.leads hleader halive).find
  have hseen : t.kernel.hostnameOf emitted.event.cgroupPid = some c.podName := by
    rw [Kernel.hostnameOf, hpid, hfound, Option.map_some, huts, hhostname]
  have hline := hanswers.hostname
  rw [hseen] at hline
  have hdescribes := hanswers.container c (hcgroup ▸ hrunning)
  have hinfo := podInfo_helperOutput hanswers.glob hdescribes
    (plainHostname_of_isName c.isName_podName) hline
  exact ⟨hinfo, handlePodSnoopEvent_eq hprobe hinfo⟩

/-- A thread of the demo's process starts a program, and the node goes on. -/
theorem awaits_make {k k' : Kernel} {tid : UInt32} {actions : List KernelAction}
    (hthread : k.find tid = some (makeThread tid))
    (hrun : Run.run Kernel.step k actions = some k') :
    Awaits ⟨demoDaemon, k⟩ (makeThread tid) (demoEmitted tid) (actions.map .kernel)
      ⟨{ demoDaemon with inFlight := [demoEmitted tid] }, k'⟩ 0 where
  caller := hthread
  emits := by
    have henter := Cluster.step_enterExecve (s := ⟨demoDaemon, k⟩) hthread (podsnoop_makeThread tid)
    refine ⟨_, henter, rfl, ?_⟩
    rw [Cluster.run_kernel, hrun]
    rfl
  queued := rfl

/-- The other thread's call takes the process over before the leader's event is handled. -/
theorem leader_event_resolves_make :
    ∃ t env, Awaits ⟨demoDaemon, demoKernel "demo".toList⟩ (makeThread 7777) (demoEmitted 7777)
        [.kernel (.launch 7778 makeTask.comm)] t 0 ∧
      Resolves env (demoEmitted 7777).event demoContainer := by
  have hnode : (Run.run Kernel.step (demoKernel "demo".toList) [.launch 7778 makeTask.comm]).map
      (fun k ↦ (k.running 4242, k.hostname 0)) = some (true, "demo".toList) := by
    decide +kernel
  obtain ⟨k, hrun, hk⟩ := Option.map_eq_some_iff.mp hnode
  obtain ⟨hrunning, hhostname⟩ := Prod.mk.inj hk
  have hawaits : Awaits ⟨demoDaemon, demoKernel "demo".toList⟩ (makeThread 7777) (demoEmitted 7777)
      ([.launch 7778 makeTask.comm].map .kernel) _ 0 :=
    awaits_make rfl hrun
  have hcontainer : k.container demoContainers (makeThread 7777).cgroupId = some demoContainer := by
    rw [Kernel.container, makeThread, hrunning]
    rfl
  refine ⟨_, _, hawaits, leader_event_resolves demoContainers _ _ _ _ _ 0
    (demoAnswers k (demoEmitted 7777).event []) demoContainer hawaits rfl ?_
    (answers_demo rfl hrunning []) hcontainer hhostname⟩
  intro action haction
  obtain rfl : action = .launch 7778 makeTask.comm := by simpa using haction
  exact id

/-! ## Events that are lost -/

variable {owner : UInt64 → Option RunningContainer} {k : Kernel} {env : SnoopEnv}
  {event : PodExecEvent} {c : RunningContainer}

/-- Without the thread the script prints nothing. -/
theorem Answers.not_resolves_of_unseen (h : Answers owner k env event)
    (hunseen : k.hostnameOf event.cgroupPid = none) : ¬ Resolves env event c := by
  intro hresolves
  have hline := h.hostname
  rw [hunseen] at hline
  have hinfo := hresolves.info
  rw [helperOutput_of_empty_hostname hline, podInfo_of_parse_eq_none (Json.parse_nil _)] at hinfo
  cases hinfo

/-- Another hostname is another pod's name. -/
theorem Answers.not_resolves_of_ne (h : Answers owner k env event) {hostname : Text}
    (hseen : k.hostnameOf event.cgroupPid = some hostname) (hname : IsName hostname)
    (hne : hostname ≠ c.podName) : ¬ Resolves env event c := by
  intro hresolves
  have hline := h.hostname
  rw [hseen] at hline
  cases hcontainer : k.container owner event.cgroupId with
  | none =>
    have hinfo := hresolves.info
    rw [helperOutput_of_no_container (h.noContainer hcontainer),
      podInfo_of_parse_eq_none (Json.parse_nil _)] at hinfo
    cases hinfo
  | some c' =>
    have hplain := plainHostname_of_isName hname
    obtain ⟨-, hwords, -⟩ := eq_of_podInfo_helperOutput h.glob (h.container c' hcontainer)
      hplain.toLiteralHostname hline hresolves.info
    rw [hplain.words] at hwords
    exact hne (List.singleton_inj.mp hwords)

/-- The container runs, and the event of this thread is lost. -/
def Lost (tid : UInt32) (actions : List KernelAction) (hostname : Text) : Prop :=
  ∃ history s t emitted env, Cluster.Reaches history s ∧
    Awaits s (makeThread tid) emitted (actions.map .kernel) t 0 ∧
    Answers demoContainers t.kernel env emitted.event ∧
    t.kernel.container demoContainers 4242 = some demoContainer ∧ t.kernel.hostname 0 = hostname ∧
    ¬ Resolves env emitted.event demoContainer

theorem lost_of_run {tid : UInt32} {actions : List KernelAction} {hostname : Text}
    (hthread : (demoKernel hostname).find tid = some (makeThread tid)) {seen : Option Text}
    (hnode : (Run.run Kernel.step (demoKernel hostname) actions).map
      (fun k ↦ (k.running 4242, k.hostname 0, k.hostnameOf tid)) = some (true, hostname, seen))
    (hseen : ∀ name, seen = some name → IsName name ∧ name ≠ demoContainer.podName) :
    Lost tid actions hostname := by
  obtain ⟨k, hrun, hk⟩ := Option.map_eq_some_iff.mp hnode
  obtain ⟨hrunning, hhostname, hsees⟩ : k.running 4242 = true ∧ k.hostname 0 = hostname ∧
      k.hostnameOf tid = seen := by
    simpa using hk
  have hanswers : Answers demoContainers k (demoAnswers k (demoEmitted tid).event [])
      (demoEmitted tid).event :=
    answers_demo rfl hrunning []
  have hcontainer : k.container demoContainers 4242 = some demoContainer := by
    rw [Kernel.container, hrunning]
    rfl
  refine ⟨watchSteps, _, _, _, _, ⟨demoKernel hostname, run_watchSteps _⟩, awaits_make hthread hrun,
    hanswers, hcontainer, hhostname, ?_⟩
  cases seen with
  | none => exact hanswers.not_resolves_of_unseen hsees
  | some name =>
    obtain ⟨hname, hne⟩ := hseen name rfl
    exact hanswers.not_resolves_of_ne hsees hname hne

/-- The call of a thread that is not the leader succeeds, the process exits, or the pod has a hostname of
its own. -/
theorem leader_event_resolves_counterexample :
    Lost 7778 [.launch 7778 makeTask.comm] "demo".toList ∧
      Lost 7777 [.exitGroup 7777] "demo".toList ∧ Lost 7777 [] "other".toList := by
  have hthread : (Run.run Kernel.step (demoKernel "demo".toList) [.launch 7778 makeTask.comm]).map
      (fun k ↦ (k.running 4242, k.hostname 0, k.hostnameOf 7778)) =
      some (true, "demo".toList, none) := by
    decide +kernel
  have hexit : (Run.run Kernel.step (demoKernel "demo".toList) [.exitGroup 7777]).map
      (fun k ↦ (k.running 4242, k.hostname 0, k.hostnameOf 7777)) =
      some (true, "demo".toList, none) := by
    decide +kernel
  have hother : (Run.run Kernel.step (demoKernel "other".toList) []).map
      (fun k ↦ (k.running 4242, k.hostname 0, k.hostnameOf 7777)) =
      some (true, "other".toList, some "other".toList) := by
    decide +kernel
  refine ⟨lost_of_run rfl hthread (by simp), lost_of_run rfl hexit (by simp),
    lost_of_run rfl hother fun name hname ↦ ?_⟩
  obtain rfl := Option.some.inj hname
  exact ⟨by decide, by decide⟩

end EbpfPlayground.CoRe
