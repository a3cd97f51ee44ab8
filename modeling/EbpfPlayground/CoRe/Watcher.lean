import EbpfPlayground.CoRe.Pod
import EbpfPlayground.CoRe.Probe

/-!
# The pod watcher of the CO-RE daemon

`handle_k8s_pod` walks the container statuses of a pod that carries the `ebpf-resize` annotation
and writes one map entry for every command of the annotation, all under the key of the container's
cgroup.  The functions are given as the source has them, with the map they are lent passed through.
-/

namespace EbpfPlayground.CoRe

open CString Text

/-- `Command::output().expect(..)`. -/
def spawned (output : Option (List UInt8)) : Except Panic (List UInt8) :=
  match output with
  | some stdout => .ok stdout
  | none => .error (.expect "failed to execute process".toList)

/-- `Option::unwrap` and `Result::unwrap`. -/
def unwrapped {α : Type} (value : Option α) : Except Panic α :=
  match value with
  | some a => .ok a
  | none => .error .unwrap

/-- The first field of `ls` on the directory that `find` reports. -/
def cgroupIdOf (env : Env) (dirName : Text) : Except Panic UInt64 := do
  let cgPathOut ← spawned (env.find "/sys/fs/cgroup/unified/kubepods".toList dirName)
  let cgPath ←
    if cgPathOut.length = 0 then do
      let cgPathOutV1 ← spawned (env.find "/sys/fs/cgroup/kubepods".toList dirName)
      unwrapped (fromUtf8 cgPathOutV1)
    else unwrapped (fromUtf8 cgPathOut)
  let lsCgidOut ← spawned (env.ls (trim cgPath))
  let lsCgOut ← unwrapped (fromUtf8 lsCgidOut)
  unwrapped (u64FromStr ((lsCgOut.splitOn ' ').headD []))

/-- The key: the cgroup id of the container with id `<runtime>://<directory>`. -/
def containerCgroupId (env : Env) (cid : Text) : Except Panic UInt64 := do
  let dirName ←
    match (splitSlashes cid)[1]? with
    | some part => .ok part
    | none => .error .indexOutOfBounds
  cgroupIdOf env dirName

/-- The part of `create_resize_bpf_map_entry` before the map update: its key and its value. -/
def resizeEntry (env : Env) (cid cmd : Text) : Except Panic (UInt64 × PodCommand) := do
  let cgroupIdKey ← containerCgroupId env cid
  match ofBytes bufSize (asBytes cmd) with
  | some cmdValue => .ok (cgroupIdKey, cmdValue)
  | none => .error .indexOutOfBounds

/-- The result of the update is only printed. -/
def createResizeBpfMapEntry (env : Env) (cid cmd : Text) (rcMap : ResizeContainersMap) :
    ResizeContainersMap × Outcome :=
  match resizeEntry env cid cmd with
  | .ok entry => (rcMap.put entry.1 entry.2, .ok)
  | .error cause => (rcMap, .panic cause)

/-- `for cmd in cmds { _ = create_resize_bpf_map_entry(..) }`. -/
def handleCommands (env : Env) (cid : Text) :
    List Json → ResizeContainersMap → ResizeContainersMap × Outcome
  | [], rcMap => (rcMap, .ok)
  | cmd :: cmds, rcMap =>
    match cmd.asStr with
    | none => (rcMap, .panic .unwrap)
    | some text =>
      match createResizeBpfMapEntry env cid text rcMap with
      | (rcMap', .panic cause) => (rcMap', .panic cause)
      | (rcMap', _) => handleCommands env cid cmds rcMap'

/-- `for cs in status.container_statuses`. -/
def handleStatuses (env : Env) (cname : Text) (resizeJson : Json) :
    List ContainerStatus → ResizeContainersMap → ResizeContainersMap × Outcome
  | [], rcMap => (rcMap, .ok)
  | cs :: css, rcMap =>
    if cname = cs.name then
      match cs.containerId with
      | none => handleStatuses env cname resizeJson css rcMap
      | some cid =>
        match (resizeJson.index commandsKey).asArr with
        | none => (rcMap, .err)
        | some cmds =>
          match handleCommands env cid cmds rcMap with
          | (rcMap', .ok) => handleStatuses env cname resizeJson css rcMap'
          | stopped => stopped
    else handleStatuses env cname resizeJson css rcMap

def handleK8sPod (env : Env) (p : Pod) (rcMap : ResizeContainersMap) :
    ResizeContainersMap × Outcome :=
  match env.myNodeName with
  | none => (rcMap, .panic (.expect "$MY_NODE_NAME is not set".toList))
  | some myNodeName =>
    if ∃ spec ∈ p.spec, spec.nodeName ≠ some myNodeName then (rcMap, .ok)
    else
      match p.annotations.lookup annotationKey with
      | none => (rcMap, .ok)
      | some text =>
        match Json.parse (serdeJson env.numberOk) text with
        | none => (rcMap, .err)
        | some resizeJson =>
          match (resizeJson.index cnameKey).asStr with
          | none => (rcMap, .panic .unwrap)
          | some cname =>
            match p.status with
            | none => (rcMap, .ok)
            | some status =>
              match status.containerStatuses with
              | none => (rcMap, .ok)
              | some css => handleStatuses env cname resizeJson css rcMap

/-! ## The demo -/

/-- The node of the demo: a container's id is its cgroup id in decimal. -/
def demoEnv : Env where
  myNodeName := some "node1".toList
  find := fun root dirName ↦ some (asBytes (root ++ '/' :: dirName ++ ['\n']))
  ls := fun path ↦ some (asBytes ((path.splitOn '/').getLastD [] ++ [' ', '.', '\n']))
  numberOk := fun _ ↦ true

/-- An annotation for the container `ctr` with some list of commands. -/
def demoAnnotations (commands : Text) : List (Text × Text) :=
  [(annotationKey, "\x7b\"cname\":\"ctr\",\"commands\":".toList ++ commands ++
    ",\"resize\":\"\x7b\x7d\"\x7d".toList)]

/-- A pod on that node with one container. -/
def demoPod (annotations : List (Text × Text)) (cid : Text) : Pod where
  ns := "default".toList
  name := "demo".toList
  annotations := annotations
  spec := some ⟨some "node1".toList⟩
  status := some ⟨some [⟨"ctr".toList, some ("containerd://".toList ++ cid)⟩]⟩

/-- A task that runs a program of this name in the cgroup 4242. -/
def demoTask (name : Text) (hlength : (asBytes name).length < 16) (hzero : 0 ∉ asBytes name) :
    Task where
  comm := ⟨asBytes name, hlength, hzero⟩
  cgroupId := 4242
  pidTgid := 7777

theorem make_short : (asBytes "make".toList).length < 16 := by decide

theorem zero_notMem_make : 0 ∉ asBytes "make".toList := by decide

end EbpfPlayground.CoRe
