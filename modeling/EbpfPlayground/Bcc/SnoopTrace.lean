import EbpfPlayground.Bcc.Watcher

/-!
# The trace handler of the BCC daemon

`handle_ebpf_snoop_trace` handles one trace message in each turn of its loop.  Of the names that the
body binds, only `req` and `lim` can be read in a turn that has not bound them, so they are what a
turn hands on to the next one.  A `ValueError` ends the turn, any other exception ends the loop.
Printed messages are left out.
-/

namespace EbpfPlayground.Bcc

open Python Text

/-- What the handler takes from `trace_fields`; `none` for bytes that are no text. -/
structure TraceMessage where
  pid : ℕ
  msg : Option Text

/-- One call of `patch_namespaced_pod`. -/
structure Patch where
  name : Text
  ns : Text
  body : V1Pod
  deriving DecidableEq

/-- The world as it answers during one turn, each time with a result or an exception. -/
structure TraceEnv where
  /-- `os.popen(command).read()`. -/
  popen : Text → Except PyError Text
  /-- By name and namespace. -/
  readNamespacedPod : Text → Text → Except PyError V1Pod
  patchNamespacedPod : Patch → Except PyError Unit

/-- The process: its interpreter and `os.uname()[1]`. -/
structure Handler where
  py : Interpreter
  nodename : Text

/-- The two local variables that outlive a turn; `none` while unbound. -/
structure Locals where
  req : Option Json
  lim : Option Json
  deriving DecidableEq

def Locals.init : Locals := ⟨none, none⟩

/-- A message and the world that it is handled in. -/
structure Turn where
  message : TraceMessage
  env : TraceEnv

/-- `os.popen(command).read().strip()`. -/
def TraceEnv.output (env : TraceEnv) (command : Text) : Except PyError Text := do
  return strip (← env.popen command)

/-- The container id, from the unified hierarchy if there is one. -/
def containerIdOf (py : Interpreter) (env : TraceEnv) (cgroupId : Json) : Except PyError Text := do
  let find := "basename $(find /sys/fs/cgroup -inum ".toList ++ format py cgroupId
  let unified ← env.output (find ++ " | grep kubepods | grep unified) 2>/dev/null".toList)
  if unified = [] then env.output (find ++ " | grep kubepods) 2>/dev/null".toList)
  else return unified

def podNsCmd (containerId : Text) : Text :=
  "crictl inspect ".toList ++ containerId ++
    " | jq '.status.labels.\"io.kubernetes.pod.namespace\"' 2>/dev/null".toList

def containerNameCmd (containerId : Text) : Text :=
  "crictl inspect ".toList ++ containerId ++ " | jq .status.metadata.name 2>/dev/null".toList

/-- What a turn knows when an event matches the annotation of its pod. -/
structure Match where
  podName : Text
  podNs : Text
  v1Pod : V1Pod
  containerName : Text
  resizeJson : Json

/-- A turn up to the test of the container's name and the command; `none` where it ends before or the
test fails. -/
def matchTrace (handler : Handler) (turn : Turn) : Except PyError (Option Match) := do
  let podName ← turn.env.output
    ("nsenter -t ".toList ++ decimal turn.message.pid ++ " -u hostname 2>/dev/null".toList)
  if podName = [] ∨ podName = handler.nodename then return none
  let some msg := turn.message.msg | throw .valueError
  let msgJson ← jsonLoads handler.py msg
  if truthy handler.py msgJson = false then return none
  let cgroupId ← getItem msgJson "cgroup_id".toList
  let command ← getItem msgJson "command".toList
  let containerId ← containerIdOf handler.py turn.env cgroupId
  if containerId = [] then return none
  let podNs ← turn.env.output (podNsCmd containerId)
  if podNs = [] then return none
  let v1Pod ← turn.env.readNamespacedPod podName (stripQuotes podNs)
  let some annotations := v1Pod.annotations | throw .typeError
  let resizeAnnotationValue ← resizeAnnotation annotations
  if resizeAnnotationValue = [] then return none
  let resizeJson ← jsonLoads handler.py resizeAnnotationValue
  if truthy handler.py resizeJson = false then return none
  let quotedName ← turn.env.output (containerNameCmd containerId)
  if quotedName = [] then return none
  let containerName := stripQuotes quotedName
  let cname ← getItem resizeJson "cname".toList
  if equal handler.py (.str containerName) cname = false then return none
  let commands ← getItem resizeJson "commands".toList
  if (← contains handler.py command commands) = false then return none
  return some ⟨podName, stripQuotes podNs, v1Pod, containerName, resizeJson⟩

/-- `json.loads(resize_json["resize"])`. -/
def resourcesJson (py : Interpreter) (resizeJson : Json) : Except PyError Json := do
  match ← getItem resizeJson "resize".toList with
  | .str text => jsonLoads py text
  | _ => throw .typeError

/-- The assignments to `req` and `lim`, made where `resources_json` is true. -/
def assignResources (py : Interpreter) (resizeJson : Json) (locals : Locals) :
    Except PyError Locals := do
  let resources ← resourcesJson py resizeJson
  if truthy py resources then
    let req ← getItem resources "requests".toList
    let lim ← getItem resources "limits".toList
    return ⟨some req, some lim⟩
  else return locals

/-- The resources of the first container with this name are replaced. -/
def resizeContainer (containerName : Text) (resized : V1ResourceRequirements) :
    List V1Container → List V1Container
  | [] => []
  | c :: cs =>
    if c.name = containerName then { c with resources := some resized } :: cs
    else c :: resizeContainer containerName resized cs

/-- The patch for a match, from the values of the two variables. -/
def Match.patch (found : Match) (req lim : Json) : Patch where
  name := found.podName
  ns := found.podNs
  body := { found.v1Pod with
    containers := resizeContainer found.containerName ⟨req, lim⟩ found.v1Pod.containers }

/-- What a turn leaves: the variables, the patch it sent, and the exception that ended it. -/
structure Handling where
  locals : Locals
  patch : Option Patch
  raised : Option PyError

/-- One turn of the loop. -/
def handleEbpfSnoopTrace (handler : Handler) (locals : Locals) (turn : Turn) : Handling :=
  match matchTrace handler turn with
  | .error e => ⟨locals, none, some e⟩
  | .ok none => ⟨locals, none, none⟩
  | .ok (some found) =>
    match assignResources handler.py found.resizeJson locals with
    | .error e => ⟨locals, none, some e⟩
    | .ok assigned =>
      match assigned.req, assigned.lim with
      | some req, some lim =>
        match turn.env.patchNamespacedPod (found.patch req lim) with
        | .ok _ => ⟨assigned, some (found.patch req lim), none⟩
        | .error e => ⟨assigned, some (found.patch req lim), some e⟩
      | _, _ => ⟨assigned, none, some .unboundLocalError⟩

/-- The loop goes on unless something else than a `ValueError` was raised. -/
def traceStep (handler : Handler) (locals : Locals) (turn : Turn) : Option Locals :=
  let handling := handleEbpfSnoopTrace handler locals turn
  match handling.raised with
  | none => some handling.locals
  | some .valueError => some handling.locals
  | some _ => none

end EbpfPlayground.Bcc
