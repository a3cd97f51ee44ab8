import EbpfPlayground.Foundation.BoundedMap
import EbpfPlayground.Foundation.CString
import EbpfPlayground.Foundation.Python
import EbpfPlayground.Foundation.Run

/-!
# The pod watcher of the BCC daemon

`watch_k8s_pods` looks at the first container status of each event's pod, reads the pod again, finds
the container's cgroup id and inserts or deletes an entry of `resize_containers_map`.  The key is a
`c_int` made of the cgroup id; `bcc` hands its four bytes to the kernel, zero-extended to the eight
bytes of the map's key.
-/

namespace EbpfPlayground.Bcc

open CString Python Text

/-- `BUF_SIZE`. -/
abbrev bufSize : ℕ := 32

/-- The value type `struct command`. -/
abbrev Command := Buffer bufSize

/-- The size of a `BPF_HASH` that gives none. -/
abbrev bpfHashSize : ℕ := 10240

abbrev ResizeContainersMap := BoundedMap UInt64 Command bpfHashSize

structure V1ContainerStatus where
  name : Text
  containerId : Option Text
  ready : Bool
  started : Option Bool
  deriving DecidableEq

structure V1ResourceRequirements where
  requests : Json
  limits : Json
  deriving DecidableEq

structure V1Container where
  name : Text
  resources : Option V1ResourceRequirements
  deriving DecidableEq

/-- The fields of a pod that the daemon reads; a missing status has no container statuses. -/
structure V1Pod where
  ns : Text
  name : Text
  deletionTimestamp : Option Text
  annotations : Option (List (Text × Text))
  containers : List V1Container
  containerStatuses : Option (List V1ContainerStatus)
  deriving DecidableEq

structure WatchEvent where
  type : Text
  object : V1Pod

/-- What the watcher gets from outside its own code. -/
structure WatchEnv where
  py : Interpreter
  /-- `read_namespaced_pod` by name and namespace; `none` for an exception. -/
  readNamespacedPod : Text → Text → Option V1Pod
  /-- Standard output of `find <root> -type d -name <cid>`. -/
  find : Text → Text → Text
  /-- Standard output of `ls -ladi <path> | awk '{print $1}'`. -/
  ls : Text → Text
  /-- The encoding of the watcher's own standard output has the character. -/
  stdoutEncodes : Char → Bool

/-- What the watcher does to the map, by cgroup id. -/
inductive MapOp where
  | insert (cgroupId : ℕ) (cmd : Command)
  | delete (cgroupId : ℕ)
  deriving DecidableEq

/-- `v1_pod.metadata.annotations["ebpf-resize"]` of annotations that are not empty. -/
def resizeAnnotation (annotations : List (Text × Text)) : Except PyError Text :=
  match annotations.lookup "ebpf-resize".toList with
  | some value => .ok value
  | none => .error .keyError

/-- `re.split(r"//", container_id)[1]`. -/
def cidOf (containerId : Option Text) : Except PyError Text :=
  match containerId with
  | none => .error .typeError
  | some text =>
    match (splitSlashes text)[1]? with
    | some cid => .ok cid
    | none => .error .indexError

/-- The path that one of the two `find` commands prints, empty where both print none. -/
def cgroupPath (env : WatchEnv) (cid : Text) : Text :=
  let unified := strip (env.find "/sys/fs/cgroup/unified/kubepods".toList cid)
  if unified = [] then strip (env.find "/sys/fs/cgroup/kubepods".toList cid) else unified

/-- `resize_json["commands"][0]`; `none` where the loop continues with the next event. -/
def resizeTrigger (py : Interpreter) (resizeJson : Json) : Except PyError (Option Json) := do
  let commands ← getItem resizeJson "commands".toList
  if (← len commands) = 0 then return none
  let trigger ← firstItem commands
  return if truthy py trigger then some trigger else none

/-- `print` of the line that ends with the trigger.  What else the watcher prints is ASCII: names, ids and
the event's type. -/
def printTrigger (env : WatchEnv) (trigger : Json) : Except PyError Unit :=
  if (format env.py trigger).all env.stdoutEncodes then .ok () else .error .valueError

/-- `resize_cmd.cmd = str.encode(resize_trigger)`: `ctypes` measures and copies the bytes as a C string. -/
def resizeCmd (py : Interpreter) (trigger : Json) : Except PyError Command :=
  match trigger with
  | .str text => do
    let bytes ← encode py text
    match ofBytes bufSize (cstr bytes) with
    | some cmd => .ok cmd
    | none => .error .valueError
  | _ => .error .typeError

/-- The body of the loop of `watch_k8s_pods`: an exception, or the operation if there is one. -/
def watchEvent (env : WatchEnv) (event : WatchEvent) : Except PyError (Option MapOp) := do
  let some (cs :: _) := event.object.containerStatuses | return none
  if event.object.name = [] ∨ cs.ready = false ∨ cs.started ≠ some true then return none
  let some v1Pod := env.readNamespacedPod event.object.name (stripQuotes event.object.ns)
    | throw .other
  let some (first :: rest) := v1Pod.annotations | return none
  let resizeAnnotationValue ← resizeAnnotation (first :: rest)
  if resizeAnnotationValue = [] then return none
  let cid ← cidOf cs.containerId
  let path := cgroupPath env cid
  if path = [] then return none
  let cgroupId := strip (env.ls path)
  if cgroupId = [] then return none
  let resizeJson ← jsonLoads env.py resizeAnnotationValue
  if truthy env.py resizeJson = false then return none
  let some trigger ← resizeTrigger env.py resizeJson | return none
  printTrigger env trigger
  let added := event.type = "ADDED".toList
  let modified := event.type = "MODIFIED".toList
  if added ∨ (modified ∧ v1Pod.deletionTimestamp = none) then
    let cmd ← resizeCmd env.py trigger
    return some (.insert (← parseInt cgroupId) cmd)
  if event.type = "REMOVED".toList ∨ (modified ∧ v1Pod.deletionTimestamp ≠ none) then
    return some (.delete (← parseInt cgroupId))
  return none

/-- `c_int(cgroup_id)`, zero-extended. -/
def mapKey (cgroupId : ℕ) : UInt64 := (UInt32.ofNat cgroupId).toUInt64

/-- One operation on the map: a refused insertion raises, a missing key of a deletion is passed
over. -/
def applyOp (rcMap : ResizeContainersMap) : MapOp → Option ResizeContainersMap
  | .insert cgroupId cmd => rcMap.update (mapKey cgroupId) cmd
  | .delete cgroupId => some (rcMap.remove (mapKey cgroupId))

/-- One turn of the loop; `none` where an exception leaves it. -/
def watchStep (rcMap : ResizeContainersMap) (turn : WatchEnv × WatchEvent) :
    Option ResizeContainersMap :=
  match watchEvent turn.1 turn.2 with
  | .error _ => none
  | .ok none => some rcMap
  | .ok (some op) => applyOp rcMap op

/-- The lookup that the execve probe makes for a task of this cgroup. -/
def probeLookup (rcMap : ResizeContainersMap) (bpfGetCurrentCgroupId : UInt64) : Option Command :=
  rcMap.lookup bpfGetCurrentCgroupId

end EbpfPlayground.Bcc
