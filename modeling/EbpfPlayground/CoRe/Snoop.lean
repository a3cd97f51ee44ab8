import EbpfPlayground.CoRe.Pod
import EbpfPlayground.CoRe.Probe
import EbpfPlayground.Foundation.Shell

/-!
# The event handler of the CO-RE daemon

`handle_pod_snoop_event` runs a helper script on the cgroup id and the pid of an event.  The script
takes the pod's name from the hostname that the pid sees, and its namespace and the container's
name from the container that the cgroup belongs to.  `resize_k8s_pod` then reads that pod's
annotation and runs `patch-pod-resources.sh`.
-/

namespace EbpfPlayground.CoRe

open Shell Text

/-- The arguments of one run of `patch-pod-resources.sh`. -/
structure PatchCall where
  podName : Text
  containerName : Text
  resources : Text
  podNs : Text
  deriving DecidableEq

def PatchCall.arguments (call : PatchCall) : List Text :=
  [call.podName, call.containerName, call.resources, call.podNs]

/-- The commands of the helper script and the Kubernetes API, as they answer while one event is
handled.  The helper script itself, whose arguments are two numbers, can be started. -/
structure SnoopEnv where
  /-- Standard output of `nsenter -t <pid> -u hostname`. -/
  nsenterHostname : Text → Text
  /-- Lines of `find /sys/fs/cgroup -inum <id>`. -/
  findInum : Text → List Text
  /-- Standard output of `crictl inspect <id> | jq '.status.labels."io.kubernetes.pod.namespace"'`. -/
  crictlNamespace : Text → Text
  /-- Standard output of `crictl inspect <id> | jq .status.metadata.name`. -/
  crictlName : Text → Text
  /-- Pathname expansion of one field; the field itself where no file matches. -/
  glob : Text → List Text
  /-- The annotations of the pod with this namespace and name; `none` for any error. -/
  getPod : Text → Text → Option (List (Text × Text))
  numberOk : Text → Bool
  /-- `patch-pod-resources.sh` can be started with these arguments: the system takes them, of which each
  has less than 128 KiB on Linux, and finds the script. -/
  spawns : PatchCall → Bool
  /-- No program is started with a NUL in an argument. -/
  nul_notMem : ∀ call, spawns call = true → ∀ argument ∈ call.arguments, '\x00' ∉ argument

/-- Field splitting and pathname expansion of an unquoted expansion. -/
def SnoopEnv.expand (env : SnoopEnv) (text : Text) : List Text := (words text).flatMap env.glob

/-- A text whose fields match no file expands to its fields. -/
theorem SnoopEnv.expand_eq_words {env : SnoopEnv} {text : Text}
    (h : ∀ field ∈ words text, env.glob field = [field]) : env.expand text = words text := by
  rw [SnoopEnv.expand, List.flatMap_congr h]
  simp

def podInfoFormat : Text :=
  "\x7b\"pod_ns\": %s, \"pod_name\": \"%s\", \"container_name\": %s\x7d".toList

/-- The container id: the base name of the cgroup directory, of cgroup v2 if there is one. -/
def ctrIdOf (env : SnoopEnv) (cgroupId : Text) : Text :=
  let kubepods := grep "kubepods".toList (env.findInum cgroupId)
  let unified := commandSubst (basename ((grep "unified".toList kubepods).flatMap env.expand))
  if unified = [] then commandSubst (basename (kubepods.flatMap env.expand)) else unified

/-- Standard output of `get-podns-podname-ctrname.sh`; empty where it exits with status 2. -/
def getPodnsPodnameCtrname (env : SnoopEnv) (cgroupId cgroupPid : Text) : Text :=
  let podName := commandSubst (env.nsenterHostname cgroupPid)
  if podName = [] then []
  else
    let ctrId := ctrIdOf env cgroupId
    if ctrId = [] then []
    else
      let podNs := commandSubst (env.crictlNamespace ctrId)
      if podNs = [] then []
      else
        let ctrName := commandSubst (env.crictlName ctrId)
        if ctrName = [] then []
        else printf podInfoFormat (env.expand podNs ++ env.expand podName ++ env.expand ctrName)

/-- The outcome, and the run of the patch script if there is one. -/
def resizeK8sPod (env : SnoopEnv) (podNs podName containerName : Text) :
    Outcome × Option PatchCall :=
  match env.getPod podNs podName with
  | none => (.err, none)
  | some annotations =>
    match annotations.lookup annotationKey with
    | none => (.ok, none)
    | some text =>
      match Json.parse (serdeJson env.numberOk) text with
      | none => (.err, none)
      | some resizeJson =>
        match (resizeJson.index resizeKey).asStr with
        | none => (.panic .unwrap, none)
        | some resize =>
          if env.spawns ⟨podName, containerName, resize, podNs⟩ then
            (.ok, some ⟨podName, containerName, resize, podNs⟩)
          else (.panic (.expect "failed to execute process".toList), none)

/-- The three strings that the handler reads out of the script's output. -/
def podInfo (env : SnoopEnv) (output : Text) : Option (Text × Text × Text) := do
  let podInfoJson ← Json.parse (serdeJson env.numberOk) output
  let podNs ← (podInfoJson.index "pod_ns".toList).asStr
  let podName ← (podInfoJson.index "pod_name".toList).asStr
  let containerName ← (podInfoJson.index "container_name".toList).asStr
  some (podNs, podName, containerName)

/-- An `Err` of `resize_k8s_pod` is dropped, a panic is not caught. -/
def handlePodSnoopEvent (env : SnoopEnv) (event : PodExecEvent) : Outcome × Option PatchCall :=
  match fromUtf8 event.cgroupCmd.toList with
  | none => (.panic .unwrap, none)
  | some _ =>
    let output :=
      getPodnsPodnameCtrname env (decimal event.cgroupId.toNat) (decimal event.cgroupPid.toNat)
    if output.length = 0 then (.ok, none)
    else
      match podInfo env output with
      | none => (.panic .unwrap, none)
      | some (podNs, podName, containerName) =>
        match resizeK8sPod env podNs podName containerName with
        | (.panic cause, call) => (.panic cause, call)
        | (_, call) => (.ok, call)

/-! ## What a run of the patch script says -/

theorem resizeK8sPod_call {env : SnoopEnv} {podNs podName containerName : Text} {call : PatchCall}
    (h : (resizeK8sPod env podNs podName containerName).2 = some call) :
    call.podNs = podNs ∧ call.podName = podName ∧ call.containerName = containerName := by
  unfold resizeK8sPod at h
  repeat' split at h
  all_goals cases h
  exact ⟨rfl, rfl, rfl⟩

/-- The target of a run of the patch script is what the helper script printed. -/
theorem handlePodSnoopEvent_call {env : SnoopEnv} {event : PodExecEvent} {call : PatchCall}
    (h : (handlePodSnoopEvent env event).2 = some call) :
    podInfo env (getPodnsPodnameCtrname env (decimal event.cgroupId.toNat)
      (decimal event.cgroupPid.toNat)) = some (call.podNs, call.podName, call.containerName) := by
  unfold handlePodSnoopEvent at h
  split at h
  · cases h
  dsimp only at h
  split at h
  · cases h
  split at h
  · cases h
  next podNs podName containerName hinfo =>
    have hcall : (resizeK8sPod env podNs podName containerName).2 = some call := by
      split at h
      · next cause call' hresult => rw [hresult]; exact h
      · next outcome call' _ hresult => rw [hresult]; exact h
    obtain ⟨rfl, rfl, rfl⟩ := resizeK8sPod_call hcall
    exact hinfo

/-! ## The demo -/

/-- What the helper script and the API answer on the node of the demo, for a pod with this hostname
and these annotations. -/
def demoSnoopEnv (hostname : Text) (annotations : List (Text × Text)) : SnoopEnv where
  nsenterHostname := fun _ ↦ hostname ++ ['\n']
  findInum := fun cgroupId ↦ ["/sys/fs/cgroup/unified/kubepods/".toList ++ cgroupId]
  crictlNamespace := fun _ ↦ "\"default\"\n".toList
  crictlName := fun _ ↦ "\"ctr\"\n".toList
  glob := fun field ↦ [field]
  getPod := fun _ _ ↦ some annotations
  numberOk := fun _ ↦ true
  spawns := fun call ↦ decide (∀ argument ∈ call.arguments, '\x00' ∉ argument)
  nul_notMem := fun _ ↦ of_decide_eq_true

end EbpfPlayground.CoRe
