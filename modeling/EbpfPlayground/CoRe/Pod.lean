import EbpfPlayground.Foundation.Json

/-!
# Pod objects and results of the CO-RE daemon

The fields of `k8s_openapi`'s `Pod` that the daemon reads, the ways its Rust functions end, and the
JSON decoder they use.  A panic keeps its cause; the error value of an `Err` is dropped by every
caller and is not kept.
-/

namespace EbpfPlayground.CoRe

structure ContainerStatus where
  name : Text
  containerId : Option Text
  deriving DecidableEq

structure PodSpec where
  nodeName : Option Text
  deriving DecidableEq

structure PodStatus where
  containerStatuses : Option (List ContainerStatus)
  deriving DecidableEq

structure Pod where
  ns : Text
  name : Text
  annotations : List (Text × Text)
  spec : Option PodSpec
  status : Option PodStatus
  deriving DecidableEq

/-- Namespace and name, which identify a pod in the cluster. -/
def Pod.key (p : Pod) : Text × Text := (p.ns, p.name)

inductive Panic where
  | expect (message : Text)
  | unwrap
  | indexOutOfBounds
  deriving DecidableEq

/-- How a function that returns `Result<()>` ends. -/
inductive Outcome where
  | ok
  | err
  | panic (cause : Panic)
  deriving DecidableEq

/-- `serde_json`: brackets nest at most 127 deep and lone surrogates are refused.  Which literals
overflow an `f64` is left to its float conversion. -/
def serdeJson (numberOk : Text → Bool) : Json.Dialect where
  maxDepth := 127
  numberOk := numberOk
  nonFinite := false
  loneSurrogate := fun _ ↦ none

/-- What the watcher gets from outside its own code. -/
structure Env where
  /-- `$MY_NODE_NAME`. -/
  myNodeName : Option Text
  /-- Standard output of `find <root> -type d -name <pattern>`; `none` where it cannot be started,
  as with a NUL in an argument. -/
  find : Text → Text → Option (List UInt8)
  /-- Standard output of `ls -ladi <path>`. -/
  ls : Text → Option (List UInt8)
  numberOk : Text → Bool

/-- The annotation, and the members of the object it holds. -/
def annotationKey : Text := "ebpf-resize".toList

def cnameKey : Text := "cname".toList

def commandsKey : Text := "commands".toList

def resizeKey : Text := "resize".toList

namespace Pod

/-- The pod has no spec or is scheduled on this node. -/
def OnNode (env : Env) (p : Pod) : Prop :=
  ∃ node, env.myNodeName = some node ∧ ∀ spec ∈ p.spec, spec.nodeName = some node

/-- The parsed `ebpf-resize` annotation. -/
def resizeJson (env : Env) (p : Pod) : Option Json :=
  (p.annotations.lookup annotationKey).bind (Json.parse (serdeJson env.numberOk))

/-- The string under `cname`. -/
def cname (env : Env) (p : Pod) : Option Text :=
  (p.resizeJson env).bind fun resizeJson ↦ (resizeJson.index cnameKey).asStr

/-- The list under `commands`. -/
def commands (env : Env) (p : Pod) : Option (List Json) :=
  (p.resizeJson env).bind fun resizeJson ↦ (resizeJson.index commandsKey).asArr

/-- The `commands` list holds this string. -/
def Lists (env : Env) (p : Pod) (command : Text) : Prop :=
  ∃ cmds, p.commands env = some cmds ∧ .str command ∈ cmds

/-- `status.container_statuses`, empty where it or the status is missing. -/
def statuses (p : Pod) : List ContainerStatus :=
  (p.status.bind fun status ↦ status.containerStatuses).getD []

end Pod

end EbpfPlayground.CoRe
