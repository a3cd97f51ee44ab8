import EbpfPlayground.Foundation.Run
import EbpfPlayground.CoRe.Updates
import EbpfPlayground.CoRe.Snoop

/-!
# The CO-RE daemon as a transition system

The watcher thread, the probe in the kernel and the event thread share the map and the perf
buffer.  An action is one indivisible step of one of them; what the outside world answers is part
of the action, so that a statement about every run is a statement about every such world.  Map
updates are atomic.  The state also keeps a history that no step reads: the pods handled so far
and, with each event, the pods handled before it was emitted.
-/

namespace EbpfPlayground.CoRe

/-- `kube::runtime::watcher::Event`. -/
inductive WatchEvent where
  | applied (p : Pod)
  | deleted (p : Pod)
  | restarted (ps : List Pod)

/-- An item of the watcher's stream: an event or an `Err`. -/
inductive WatchItem where
  | event (e : WatchEvent)
  | error

/-- An item of the flattened stream. -/
inductive StreamItem where
  | pod (p : Pod)
  | error

/-- `applied_objects`: the pods of a re-list come one by one, deleted pods are dropped. -/
def WatchItem.appliedObjects : WatchItem → List StreamItem
  | .event (.applied p) => [.pod p]
  | .event (.deleted _) => []
  | .event (.restarted ps) => ps.map .pod
  | .error => [.error]

/-- A call of `handle_k8s_pod`. -/
structure Handled where
  env : Env
  pod : Pod

/-- An event in the perf buffer, with the calls made before it was emitted, latest first. -/
structure Emitted where
  event : PodExecEvent
  before : List Handled

/-- A run of the patch script and the event that caused it. -/
structure Patched where
  call : PatchCall
  cause : Emitted

structure State where
  rcMap : ResizeContainersMap
  /-- Items that the watcher loop has not taken yet. -/
  stream : List StreamItem
  inFlight : List Emitted
  /-- The watcher loop runs: it has not returned and has not panicked. -/
  watching : Bool
  /-- The event thread runs. -/
  snooping : Bool
  /-- Calls of `handle_k8s_pod`, latest first. -/
  handled : List Handled
  patched : List Patched

inductive Action where
  /-- The API server sends an item. -/
  | watch (item : WatchItem)
  /-- The watcher loop takes the next item. -/
  | handle (env : Env)
  /-- A task calls `execve`. -/
  | execve (task : Task)
  /-- The event thread handles one of the events in the perf buffer. -/
  | deliver (index : ℕ) (env : SnoopEnv)
  /-- An event is lost, as when the perf buffer is full. -/
  | lose (index : ℕ)

def State.init : State where
  rcMap := .empty
  stream := []
  inFlight := []
  watching := true
  snooping := true
  handled := []
  patched := []

/-- One turn of the watcher loop on a pod; only a panic ends the loop. -/
def State.handlePod (s : State) (env : Env) (p : Pod) (rest : List StreamItem) : State :=
  let result := handleK8sPod env p s.rcMap
  { s with
    rcMap := result.1
    stream := rest
    watching := match result.2 with
      | .panic _ => false
      | _ => true
    handled := ⟨env, p⟩ :: s.handled }

def State.deliverEvent (s : State) (index : ℕ) (emitted : Emitted) (env : SnoopEnv) : State :=
  let result := handlePodSnoopEvent env emitted.event
  { s with
    inFlight := s.inFlight.eraseIdx index
    snooping := match result.1 with
      | .panic _ => false
      | _ => true
    patched := (result.2.map fun call ↦ ⟨call, emitted⟩).toList ++ s.patched }

def step (s : State) : Action → Option State
  | .watch item => some { s with stream := s.stream ++ item.appliedObjects }
  | .handle env =>
    match s.watching, s.stream with
    | true, .pod p :: rest => some (s.handlePod env p rest)
    | true, .error :: rest => some { s with stream := rest, watching := false }
    | _, _ => none
  | .execve task =>
    match podsnoop s.rcMap task with
    | none => some s
    | some event => some { s with inFlight := s.inFlight ++ [⟨event, s.handled⟩] }
  | .deliver index env =>
    match s.snooping, s.inFlight[index]? with
    | true, some emitted => some (s.deliverEvent index emitted env)
    | _, _ => none
  | .lose index =>
    match s.inFlight[index]? with
    | some _ => some { s with inFlight := s.inFlight.eraseIdx index }
    | none => none

/-- A run of the daemon from its start with an empty map. -/
abbrev Reaches (history : List Action) (s : State) : Prop :=
  Run.run step State.init history = some s

/-! ## What a step can do -/

/-- Everything a step can do, one case for each kind of action. -/
inductive Steps (s : State) : Action → State → Prop where
  | watch (item : WatchItem) :
      Steps s (.watch item) { s with stream := s.stream ++ item.appliedObjects }
  | handle (env : Env) (p : Pod) (rest : List StreamItem) (hwatching : s.watching = true)
      (hstream : s.stream = .pod p :: rest) : Steps s (.handle env) (s.handlePod env p rest)
  | watchError (env : Env) (rest : List StreamItem) (hwatching : s.watching = true)
      (hstream : s.stream = .error :: rest) :
      Steps s (.handle env) { s with stream := rest, watching := false }
  | execve (task : Task) (hsilent : podsnoop s.rcMap task = none) : Steps s (.execve task) s
  | emit (task : Task) (event : PodExecEvent) (hevent : podsnoop s.rcMap task = some event) :
      Steps s (.execve task) { s with inFlight := s.inFlight ++ [⟨event, s.handled⟩] }
  | deliver (index : ℕ) (env : SnoopEnv) (emitted : Emitted) (hsnooping : s.snooping = true)
      (hemitted : s.inFlight[index]? = some emitted) :
      Steps s (.deliver index env) (s.deliverEvent index emitted env)
  | lose (index : ℕ) (emitted : Emitted) (hemitted : s.inFlight[index]? = some emitted) :
      Steps s (.lose index) { s with inFlight := s.inFlight.eraseIdx index }

theorem steps_of_step {s s' : State} {action : Action} (h : step s action = some s') :
    Steps s action s' := by
  cases action with
  | watch item =>
    obtain rfl := Option.some.inj h
    exact .watch item
  | handle env =>
    simp only [step] at h
    split at h
    · next p rest hwatching hstream =>
      obtain rfl := Option.some.inj h
      exact .handle env p rest hwatching hstream
    · next rest hwatching hstream =>
      obtain rfl := Option.some.inj h
      exact .watchError env rest hwatching hstream
    · cases h
  | execve task =>
    simp only [step] at h
    split at h
    · next hsilent =>
      obtain rfl := Option.some.inj h
      exact .execve task hsilent
    · next event hevent =>
      obtain rfl := Option.some.inj h
      exact .emit task event hevent
  | deliver index env =>
    simp only [step] at h
    split at h
    · next emitted hsnooping hemitted =>
      obtain rfl := Option.some.inj h
      exact .deliver index env emitted hsnooping hemitted
    · cases h
  | lose index =>
    simp only [step] at h
    split at h
    · next emitted hemitted =>
      obtain rfl := Option.some.inj h
      exact .lose index emitted hemitted
    · cases h

theorem Steps.step {s s' : State} {action : Action} (h : Steps s action s') :
    step s action = some s' := by
  cases h with
  | watch item => rfl
  | handle env p rest hwatching hstream => simp [CoRe.step, hwatching, hstream]
  | watchError env rest hwatching hstream => simp [CoRe.step, hwatching, hstream]
  | execve task hsilent => simp [CoRe.step, hsilent]
  | emit task event hevent => simp [CoRe.step, hevent]
  | deliver index env emitted hsnooping hemitted => simp [CoRe.step, hsnooping, hemitted]
  | lose index emitted hemitted => simp [CoRe.step, hemitted]

/-- A run goes on with one more step. -/
theorem Reaches.concat {history : List Action} {s s' : State} {action : Action}
    (hreach : Reaches history s) (h : Steps s action s') : Reaches (history ++ [action]) s' :=
  Run.run_concat_eq_some.mpr ⟨s, hreach, h.step⟩

@[simp]
theorem handlePod_rcMap (s : State) (env : Env) (p : Pod) (rest : List StreamItem) :
    (s.handlePod env p rest).rcMap = s.rcMap.putAll (podUpdates env p) := by
  simp [State.handlePod, handleK8sPod_eq]

@[simp]
theorem handlePod_handled (s : State) (env : Env) (p : Pod) (rest : List StreamItem) :
    (s.handlePod env p rest).handled = ⟨env, p⟩ :: s.handled := rfl

/-- A run of the patch script that a delivery adds is caused by the delivered event. -/
theorem mem_deliverEvent_patched {s : State} {index : ℕ} {emitted : Emitted} {env : SnoopEnv}
    {patched : Patched} (h : patched ∈ (s.deliverEvent index emitted env).patched) :
    patched ∈ s.patched ∨ patched.cause = emitted := by
  simp only [State.deliverEvent, List.mem_append, Option.mem_toList, Option.map_eq_some_iff] at h
  rcases h with ⟨call, -, rfl⟩ | hold
  · exact .inr rfl
  · exact .inl hold

end EbpfPlayground.CoRe
