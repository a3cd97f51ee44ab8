import EbpfPlayground.CoRe.Cluster

/-!
# Whom a resize is for

The patch script is run for a namespace, a pod and a container.  The first and the last are those of the
container with the event's cgroup.  The pod is the hostname that the event's pid sees when the event is
handled, which is another pod's name where the hostname is set so, and where the pid has been reused.
A quote in the hostname lets it replace the other two as well.
-/

namespace EbpfPlayground.CoRe

open Shell Text

variable {owner : UInt64 → Option RunningContainer} {k : Kernel} {env : SnoopEnv}
  {event : PodExecEvent}

/-- The patch script is run for the container with the event's cgroup, in that container's namespace,
and for the pod that the event's pid sees as its hostname. -/
structure OnTarget (owner : UInt64 → Option RunningContainer) (k : Kernel) (event : PodExecEvent)
    (call : PatchCall) (c : RunningContainer) (hostname : Text) : Prop where
  owned : owner event.cgroupId = some c
  seen : k.hostnameOf event.cgroupPid = some hostname
  podNs : call.podNs = c.ns
  podName : words hostname = [call.podName]
  containerName : call.containerName = c.name

theorem Answers.onTarget (h : Answers owner k env event)
    (hliteral : ∀ hostname, k.hostnameOf event.cgroupPid = some hostname → LiteralHostname hostname)
    {call : PatchCall} (hcall : (handlePodSnoopEvent env event).2 = some call) :
    ∃ c hostname, OnTarget owner k event call c hostname := by
  have hinfo : podInfo env (helperOutput env event) =
      some (call.podNs, call.podName, call.containerName) :=
    handlePodSnoopEvent_call hcall
  have hempty : podInfo env [] = none := podInfo_of_parse_eq_none (Json.parse_nil _)
  cases hseen : k.hostnameOf event.cgroupPid with
  | none =>
    have hline := h.hostname
    rw [hseen] at hline
    rw [helperOutput_of_empty_hostname hline, hempty] at hinfo
    cases hinfo
  | some hostname =>
    cases hcontainer : k.container owner event.cgroupId with
    | none =>
      rw [helperOutput_of_no_container (h.noContainer hcontainer), hempty] at hinfo
      cases hinfo
    | some c =>
      have hline := h.hostname
      rw [hseen] at hline
      obtain ⟨hns, hpodName, hname⟩ := eq_of_podInfo_helperOutput h.glob
        (h.container c hcontainer) (hliteral hostname hseen) hline hinfo
      have howned := (Option.ite_none_right_eq_some.mp hcontainer).2
      exact ⟨c, hostname, howned, hseen, hns, hpodName, hname⟩

/-- In every run in which the commands answer truly and the hostnames are literal, each run of the
patch script is for the container with the event's cgroup and for the pod that the event's pid sees. -/
theorem patches_on_target (owner : UInt64 → Option RunningContainer) (k : Kernel)
    (history : List ClusterAction)
    (h : Run.Meets Cluster.step (Handles fun k env event ↦ Answers owner k env event ∧
      ∀ hostname, k.hostnameOf event.cgroupPid = some hostname → LiteralHostname hostname)
      ⟨State.init, k⟩ history) :
    Run.Meets Cluster.step (Handles fun k env event ↦
      ∀ call, (handlePodSnoopEvent env event).2 = some call →
        ∃ c hostname, OnTarget owner k event call c hostname) ⟨State.init, k⟩ history := by
  apply h.imp
  intro s action hanswers index env emitted haction hqueued call hcall
  obtain ⟨htrue, hliteral⟩ := hanswers index env emitted haction hqueued
  exact htrue.onTarget hliteral hcall

/-- What the commands answer about the leader's event. -/
def leaderAnswers (hostname : Text) : SnoopEnv :=
  demoAnswers (demoKernel hostname) (demoEmitted 7777).event (demoAnnotations "[\"make\"]".toList)

theorem patches_on_target_make :
    ∃ call c hostname, (handlePodSnoopEvent (leaderAnswers "demo".toList)
        (demoEmitted 7777).event).2 = some call ∧
      OnTarget demoContainers (demoKernel "demo".toList) (demoEmitted 7777).event call c hostname := by
  have hliteral : LiteralHostname "demo".toList :=
    (plainHostname_of_isName isName_demo.2.2.1).toLiteralHostname
  have hmeets := patches_on_target demoContainers (demoKernel "demo".toList)
    (demoSteps (leaderAnswers "demo".toList))
    ((meets_demoSteps rfl).mpr ⟨answers_demo rfl rfl _, fun hostname hseen ↦
      Option.some.inj hseen ▸ hliteral⟩)
  have hcall : (handlePodSnoopEvent (leaderAnswers "demo".toList) (demoEmitted 7777).event).2.isSome := by
    decide +kernel
  obtain ⟨call, hcall⟩ := Option.isSome_iff_exists.mp hcall
  obtain ⟨c, hostname, htarget⟩ := (meets_demoSteps rfl).mp hmeets call hcall
  exact ⟨call, c, hostname, hcall, htarget⟩

/-- Under this hostname, and with true answers, the patch script is run for another pod. -/
def Misses (hostname : Text) : Prop :=
  ∃ owner k history, k.hostname = (fun _ ↦ hostname) ∧
    Run.Meets Cluster.step (Handles (Answers owner)) ⟨State.init, k⟩ history ∧
    ¬ Run.Meets Cluster.step (Handles fun _ env event ↦
      ∀ call, (handlePodSnoopEvent env event).2 = some call →
        ∃ c, owner event.cgroupId = some c ∧ (call.podNs, call.podName) = c.container.pod ∧
          call.containerName = c.name) ⟨State.init, k⟩ history

theorem misses_of_call {hostname : Text}
    (h : ((handlePodSnoopEvent (leaderAnswers hostname) (demoEmitted 7777).event).2.map fun call ↦
      (call.podNs, call.podName) == ("default".toList, "demo".toList)) = some false) :
    Misses hostname := by
  obtain ⟨call, hcall, hpod⟩ := Option.map_eq_some_iff.mp h
  refine ⟨demoContainers, demoKernel hostname, demoSteps (leaderAnswers hostname), rfl,
    (meets_demoSteps rfl).mpr (answers_demo rfl rfl _), fun hmeets ↦ ?_⟩
  obtain ⟨c, howner, hown, -⟩ := (meets_demoSteps rfl).mp hmeets call hcall
  obtain rfl : demoContainer = c := Option.some.inj howner
  exact ne_of_beq_false hpod hown

/-- The hostname is `other`, which is the name of another pod, or it closes the string that it is
written into and sets the namespace. -/
theorem patches_on_target_counterexample :
    Misses "other".toList ∧ Misses "demo\",\"pod_ns\":\"evil\",\"x\":\"".toList :=
  ⟨misses_of_call (by decide +kernel), misses_of_call (by decide +kernel)⟩

end EbpfPlayground.CoRe
