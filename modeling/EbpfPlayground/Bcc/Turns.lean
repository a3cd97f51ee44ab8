import EbpfPlayground.Bcc.MapKey

/-!
# What one event does to the map

The body of the loop of `watch_k8s_pods` passes guards that continue with the next event, steps that
can raise, and last the tests of the event's type.  An event that passes all guards names a cgroup
id and a command, and its type and the pod's deletion timestamp decide between an insertion, a
deletion and nothing.  The steps that can raise are listed.
-/

namespace EbpfPlayground.Bcc

open CString Python Text

/-- The pod has a name, and its first container is ready and started. -/
structure FirstReady (event : WatchEvent) (cs : V1ContainerStatus) : Prop where
  name_ne : event.object.name ≠ []
  first : ∃ css, event.object.containerStatuses = some (cs :: css)
  ready : cs.ready = true
  started : cs.started = some true

/-- The pod can be read again. -/
structure ReadAgain (env : WatchEnv) (event : WatchEvent) (cs : V1ContainerStatus) (v1Pod : V1Pod) :
    Prop extends FirstReady event cs where
  read : env.readNamespacedPod event.object.name (stripQuotes event.object.ns) = some v1Pod

/-- It has the annotation. -/
structure Annotated (env : WatchEnv) (event : WatchEvent) (cs : V1ContainerStatus) (v1Pod : V1Pod)
    (value : Text) : Prop extends ReadAgain env event cs v1Pod where
  named : ∃ annotations, v1Pod.annotations = some annotations ∧
    annotations.lookup "ebpf-resize".toList = some value
  value_ne : value ≠ []

/-- The first container has a cgroup directory, and `ls` prints this for it. -/
structure Located (env : WatchEnv) (event : WatchEvent) (cs : V1ContainerStatus) (v1Pod : V1Pod)
    (value cgroupId : Text) : Prop extends Annotated env event cs v1Pod value where
  cgroup : ∃ cid, cidOf cs.containerId = .ok cid ∧ cgroupPath env cid ≠ [] ∧
    strip (env.ls (cgroupPath env cid)) = cgroupId
  cgroupId_ne : cgroupId ≠ []

/-- The annotation is a JSON value other than an empty one. -/
structure Parsed (env : WatchEnv) (event : WatchEvent) (cs : V1ContainerStatus) (v1Pod : V1Pod)
    (value cgroupId : Text) (resizeJson : Json) : Prop
    extends Located env event cs v1Pod value cgroupId where
  loads : jsonLoads env.py value = .ok resizeJson
  truthy : Python.truthy env.py resizeJson = true

/-- It has a first command. -/
structure Triggered (env : WatchEnv) (event : WatchEvent) (cs : V1ContainerStatus) (v1Pod : V1Pod)
    (value cgroupId : Text) (resizeJson trigger : Json) : Prop
    extends Parsed env event cs v1Pod value cgroupId resizeJson where
  trigger_eq : resizeTrigger env.py resizeJson = .ok (some trigger)

/-- Standard output can encode the command. -/
def Printable (env : WatchEnv) (trigger : Json) : Prop :=
  ∀ c ∈ format env.py trigger, env.stdoutEncodes c = true

instance (env : WatchEnv) (trigger : Json) : Decidable (Printable env trigger) :=
  inferInstanceAs (Decidable (∀ c ∈ format env.py trigger, _))

/-- The event passes all guards with this pod, command and text of a cgroup id. -/
def Handled (env : WatchEnv) (event : WatchEvent) (v1Pod : V1Pod) (trigger : Json)
    (cgroupId : Text) : Prop :=
  ∃ cs value resizeJson, Triggered env event cs v1Pod value cgroupId resizeJson trigger ∧
    Printable env trigger

/-- The event installs an entry. -/
def WatchEvent.Adds (event : WatchEvent) (v1Pod : V1Pod) : Prop :=
  event.type = "ADDED".toList ∨ event.type = "MODIFIED".toList ∧ v1Pod.deletionTimestamp = none

/-- The event removes an entry. -/
def WatchEvent.Removes (event : WatchEvent) (v1Pod : V1Pod) : Prop :=
  event.type = "REMOVED".toList ∨ event.type = "MODIFIED".toList ∧ v1Pod.deletionTimestamp ≠ none

instance (event : WatchEvent) (v1Pod : V1Pod) : Decidable (event.Adds v1Pod) :=
  inferInstanceAs (Decidable (_ ∨ _))

instance (event : WatchEvent) (v1Pod : V1Pod) : Decidable (event.Removes v1Pod) :=
  inferInstanceAs (Decidable (_ ∨ _))

/-- The tests of the type at the end of the body. -/
def opFor (py : Interpreter) (event : WatchEvent) (v1Pod : V1Pod) (trigger : Json)
    (cgroupId : Text) : Except PyError (Option MapOp) := do
  if event.Adds v1Pod then
    let cmd ← resizeCmd py trigger
    return some (.insert (← parseInt cgroupId) cmd)
  if event.Removes v1Pod then
    return some (.delete (← parseInt cgroupId))
  return none

/-- The value is no object with `commands` whose first item can be taken if there is one. -/
def NoCommands (resizeJson : Json) : Prop :=
  ¬ ∃ members commands, resizeJson = .obj members ∧
    members.lookup "commands".toList = some commands ∧
    ((∃ elements, commands = .arr elements) ∨ (∃ text, commands = .str text) ∨ commands = .obj [])

/-- The events that raise before the tests of the type. -/
inductive Stuck (env : WatchEnv) (event : WatchEvent) : Prop
  /-- The pod cannot be read. -/
  | read (cs : V1ContainerStatus) (hready : FirstReady event cs)
      (hread : env.readNamespacedPod event.object.name (stripQuotes event.object.ns) = none)
  /-- It has annotations, but not this one. -/
  | unannotated (cs : V1ContainerStatus) (v1Pod : V1Pod) (hread : ReadAgain env event cs v1Pod)
      (annotations : List (Text × Text)) (hannotations : v1Pod.annotations = some annotations)
      (hne : annotations ≠ []) (hkey : annotations.lookup "ebpf-resize".toList = none)
  /-- The container id is missing or has no `//`. -/
  | containerId (cs : V1ContainerStatus) (v1Pod : V1Pod) (value : Text)
      (hannotated : Annotated env event cs v1Pod value)
      (hcid : Raises (cidOf cs.containerId))
  /-- The annotation is not JSON. -/
  | json (cs : V1ContainerStatus) (v1Pod : V1Pod) (value cgroupId : Text)
      (hlocated : Located env event cs v1Pod value cgroupId)
      (hjson : Raises (jsonLoads env.py value))
  | commands (cs : V1ContainerStatus) (v1Pod : V1Pod) (value cgroupId : Text) (resizeJson : Json)
      (hparsed : Parsed env event cs v1Pod value cgroupId resizeJson)
      (hcommands : NoCommands resizeJson)
  /-- The line with the first command cannot be printed. -/
  | printed (cs : V1ContainerStatus) (v1Pod : V1Pod) (value cgroupId : Text)
      (resizeJson trigger : Json)
      (htriggered : Triggered env event cs v1Pod value cgroupId resizeJson trigger)
      (hprint : ¬ Printable env trigger)

/-! ## The body in pieces -/

section Pieces

variable (env : WatchEnv) (event : WatchEvent) (cs : V1ContainerStatus) (v1Pod : V1Pod)

/-- The body of the loop from the first command on. -/
def fromTrigger (cgroupId : Text) (trigger : Json) : Except PyError (Option MapOp) :=
  printTrigger env trigger >>= fun _ ↦ opFor env.py event v1Pod trigger cgroupId

/-- The body from the parsed annotation on. -/
def fromJson (cgroupId : Text) (resizeJson : Json) : Except PyError (Option MapOp) :=
  if truthy env.py resizeJson = false then .ok none
  else resizeTrigger env.py resizeJson >>= fun trigger ↦
    match trigger with
    | some trigger => fromTrigger env event v1Pod cgroupId trigger
    | _ => .ok none

/-- The body from the container id on. -/
def fromContainerId (value : Text) : Except PyError (Option MapOp) :=
  cidOf cs.containerId >>= fun cid ↦
    if cgroupPath env cid = [] then .ok none
    else if strip (env.ls (cgroupPath env cid)) = [] then .ok none
    else jsonLoads env.py value >>=
      fromJson env event v1Pod (strip (env.ls (cgroupPath env cid)))

/-- The body from the annotations on. -/
def fromAnnotations : Except PyError (Option MapOp) :=
  match v1Pod.annotations with
  | some (first :: rest) =>
    resizeAnnotation (first :: rest) >>= fun value ↦
      if value = [] then .ok none else fromContainerId env event cs v1Pod value
  | _ => .ok none

end Pieces

variable {env : WatchEnv} {event : WatchEvent}

theorem FirstReady.watchEvent {cs : V1ContainerStatus} (h : FirstReady event cs) :
    watchEvent env event =
      match env.readNamespacedPod event.object.name (stripQuotes event.object.ns) with
      | some v1Pod => fromAnnotations env event cs v1Pod
      | _ => .error .other := by
  obtain ⟨css, hfirst⟩ := h.first
  have hguard : ¬ (event.object.name = [] ∨ cs.ready = false ∨ cs.started ≠ some true) := by
    simp [h.name_ne, h.ready, h.started]
  rw [Bcc.watchEvent, hfirst]
  dsimp only
  rw [if_neg hguard]
  rfl

/-- Without a ready first container the event is passed over. -/
theorem watchEvent_of_not_firstReady (h : ∀ cs, ¬ FirstReady event cs) :
    watchEvent env event = .ok none := by
  rw [Bcc.watchEvent]
  cases hstatuses : event.object.containerStatuses with
  | none => rfl
  | some css =>
    cases css with
    | nil => rfl
    | cons cs css =>
      dsimp only
      rw [if_pos]
      · rfl
      · by_contra hguard
        push Not at hguard
        exact h cs ⟨hguard.1, ⟨css, hstatuses⟩, by simpa using hguard.2.1, hguard.2.2⟩

/-! ## What the guards let through -/

section Stages

variable {cs : V1ContainerStatus} {v1Pod : V1Pod} {value cgroupId : Text}
  {resizeJson trigger : Json}

theorem ReadAgain.watchEvent (h : ReadAgain env event cs v1Pod) :
    watchEvent env event = fromAnnotations env event cs v1Pod := by
  rw [h.toFirstReady.watchEvent, h.read]

theorem fromAnnotations_of_lookup {annotations : List (Text × Text)}
    (hannotations : v1Pod.annotations = some annotations)
    (hvalue : annotations.lookup "ebpf-resize".toList = some value) :
    fromAnnotations env event cs v1Pod =
      if value = [] then .ok none else fromContainerId env event cs v1Pod value := by
  cases annotations with
  | nil => cases hvalue
  | cons first rest =>
    rw [fromAnnotations, hannotations]
    dsimp only
    rw [ resizeAnnotation, hvalue]
    rfl

theorem Annotated.watchEvent (h : Annotated env event cs v1Pod value) :
    watchEvent env event = fromContainerId env event cs v1Pod value := by
  obtain ⟨annotations, hannotations, hvalue⟩ := h.named
  rw [h.toReadAgain.watchEvent, fromAnnotations_of_lookup hannotations hvalue, if_neg h.value_ne]

theorem Located.watchEvent (h : Located env event cs v1Pod value cgroupId) :
    watchEvent env event = (jsonLoads env.py value >>= fromJson env event v1Pod cgroupId) := by
  obtain ⟨cid, hcid, hpath, rfl⟩ := h.cgroup
  have hls := h.cgroupId_ne
  rw [h.toAnnotated.watchEvent, fromContainerId, hcid]
  exact (if_neg hpath).trans (if_neg hls)

theorem Parsed.watchEvent (h : Parsed env event cs v1Pod value cgroupId resizeJson) :
    watchEvent env event = (resizeTrigger env.py resizeJson >>= fun trigger ↦
      match trigger with
      | some trigger => fromTrigger env event v1Pod cgroupId trigger
      | _ => .ok none) := by
  have hfalse : ¬ Python.truthy env.py resizeJson = false := by
    rw [h.truthy]
    exact Bool.noConfusion
  rw [h.toLocated.watchEvent, h.loads]
  exact if_neg hfalse

theorem Triggered.watchEvent
    (h : Triggered env event cs v1Pod value cgroupId resizeJson trigger) :
    watchEvent env event = fromTrigger env event v1Pod cgroupId trigger := by
  rw [h.toParsed.watchEvent, h.trigger_eq]
  rfl

theorem printTrigger_eq (env : WatchEnv) (trigger : Json) :
    printTrigger env trigger = if Printable env trigger then .ok () else .error .valueError := by
  unfold printTrigger
  exact if_congr List.all_eq_true rfl rfl

/-- An event that passes all guards is left to the tests of its type. -/
theorem Handled.watchEvent (h : Handled env event v1Pod trigger cgroupId) :
    watchEvent env event = opFor env.py event v1Pod trigger cgroupId := by
  obtain ⟨cs, value, resizeJson, htriggered, hprint⟩ := h
  rw [htriggered.watchEvent, fromTrigger, printTrigger_eq, if_pos hprint]
  rfl

end Stages

/-- The first command cannot be taken exactly where there are no `commands` to take it from. -/
theorem raises_resizeTrigger {py : Interpreter} {resizeJson : Json} :
    Raises (resizeTrigger py resizeJson) ↔ NoCommands resizeJson := by
  unfold NoCommands
  cases resizeJson with
  | obj members =>
    rw [resizeTrigger, getItem]
    cases hlookup : members.lookup "commands".toList with
    | none =>
      refine iff_of_true (raises_error _) ?_
      rintro ⟨_, commands, ⟨⟩, hcommands, -⟩
      rw [hlookup] at hcommands
      cases hcommands
    | some commands =>
      have hhas : (∃ members' commands', Json.obj members = .obj members' ∧
          members'.lookup "commands".toList = some commands' ∧ ((∃ elements, commands' = .arr elements) ∨
            (∃ text, commands' = .str text) ∨ commands' = .obj [])) ↔
          (∃ elements, commands = .arr elements) ∨ (∃ text, commands = .str text) ∨
            commands = .obj [] := by
        constructor
        · rintro ⟨_, commands', ⟨⟩, hcommands, h⟩
          rw [hlookup, Option.some.injEq] at hcommands
          exact hcommands ▸ h
        · exact fun h ↦ ⟨members, commands, rfl, hlookup, h⟩
      rw [hhas]
      cases commands with
      | arr elements =>
        refine iff_of_false ?_ (not_not_intro (.inl ⟨elements, rfl⟩))
        cases elements <;> exact not_raises_ok _
      | str text =>
        refine iff_of_false ?_ (not_not_intro (.inr (.inl ⟨text, rfl⟩)))
        cases text <;> exact not_raises_ok _
      | obj inner =>
        cases inner with
        | nil => exact iff_of_false (not_raises_ok _) (not_not_intro (.inr (.inr rfl)))
        | cons member inner => exact iff_of_true (raises_error _) (by simp)
      | _ => exact iff_of_true (raises_error _) (by simp)
  | _ => exact iff_of_true (raises_error _) (by rintro ⟨_, _, ⟨⟩, -⟩)

theorem Stuck.raises (h : Stuck env event) : Raises (watchEvent env event) := by
  cases h with
  | read cs hready hread =>
    rw [hready.watchEvent, hread]
    exact raises_error _
  | unannotated cs v1Pod hread annotations hannotations hne hkey =>
    rw [hread.watchEvent, fromAnnotations, hannotations]
    cases annotations with
    | nil => exact absurd rfl hne
    | cons first rest =>
      dsimp only
      rw [ resizeAnnotation, hkey]
      exact raises_error _
  | containerId cs v1Pod value hannotated hcid =>
    rw [hannotated.watchEvent, fromContainerId]
    exact raises_bind.mpr (.inl hcid)
  | json cs v1Pod value cgroupId hlocated hjson =>
    rw [hlocated.watchEvent]
    exact raises_bind.mpr (.inl hjson)
  | commands cs v1Pod value cgroupId resizeJson hparsed hcommands =>
    rw [hparsed.watchEvent]
    exact raises_bind.mpr (.inl (raises_resizeTrigger.mpr hcommands))
  | printed cs v1Pod value cgroupId resizeJson trigger htriggered hprint =>
    rw [htriggered.watchEvent, fromTrigger, printTrigger_eq, if_neg hprint]
    exact raises_error _

/-- An event is passed over, or stuck, or passes all guards. -/
theorem watchEvent_cases (env : WatchEnv) (event : WatchEvent) :
    watchEvent env event = .ok none ∨ Stuck env event ∨
      ∃ v1Pod trigger cgroupId, Handled env event v1Pod trigger cgroupId := by
  by_cases hready : ∃ cs, FirstReady event cs
  swap
  · exact .inl (watchEvent_of_not_firstReady fun cs h ↦ hready ⟨cs, h⟩)
  obtain ⟨cs, hready⟩ := hready
  cases hread : env.readNamespacedPod event.object.name (stripQuotes event.object.ns) with
  | none => exact .inr (.inl (.read cs hready hread))
  | some v1Pod =>
  have hagain : ReadAgain env event cs v1Pod := ⟨hready, hread⟩
  cases hannotations : v1Pod.annotations with
  | none =>
    left
    rw [hagain.watchEvent, fromAnnotations, hannotations]
  | some annotations =>
  cases hvalue : annotations.lookup "ebpf-resize".toList with
  | none =>
    by_cases hempty : annotations = []
    · left
      rw [hagain.watchEvent, fromAnnotations, hannotations, hempty]
    · exact .inr (.inl (.unannotated cs v1Pod hagain annotations hannotations hempty hvalue))
  | some value =>
  by_cases hne : value = []
  · left
    rw [hagain.watchEvent, fromAnnotations_of_lookup hannotations hvalue, if_pos hne]
  have hannotated : Annotated env event cs v1Pod value :=
    ⟨hagain, ⟨annotations, hannotations, hvalue⟩, hne⟩
  cases hcid : cidOf cs.containerId with
  | error e => exact .inr (.inl (.containerId cs v1Pod value hannotated ⟨e, hcid⟩))
  | ok cid =>
  by_cases hpath : cgroupPath env cid = []
  · left
    rw [hannotated.watchEvent, fromContainerId, hcid]
    exact if_pos hpath
  by_cases hls : strip (env.ls (cgroupPath env cid)) = []
  · left
    rw [hannotated.watchEvent, fromContainerId, hcid]
    exact (if_neg hpath).trans (if_pos hls)
  have hlocated : Located env event cs v1Pod value (strip (env.ls (cgroupPath env cid))) :=
    ⟨hannotated, ⟨cid, hcid, hpath, rfl⟩, hls⟩
  cases hjson : jsonLoads env.py value with
  | error e => exact .inr (.inl (.json cs v1Pod value _ hlocated ⟨e, hjson⟩))
  | ok resizeJson =>
  by_cases htruthy : truthy env.py resizeJson = false
  · left
    rw [hlocated.watchEvent, hjson]
    exact if_pos htruthy
  have hparsed : Parsed env event cs v1Pod value (strip (env.ls (cgroupPath env cid))) resizeJson :=
    ⟨hlocated, hjson, by simpa using htruthy⟩
  cases htrigger : resizeTrigger env.py resizeJson with
  | error e =>
    have hcommands := raises_resizeTrigger.mp ⟨e, htrigger⟩
    exact .inr (.inl (.commands cs v1Pod value _ resizeJson hparsed hcommands))
  | ok trigger =>
  cases trigger with
  | none =>
    left
    rw [hparsed.watchEvent, htrigger]
    rfl
  | some trigger =>
    by_cases hprint : Printable env trigger
    · exact .inr (.inr ⟨v1Pod, trigger, _, cs, value, resizeJson, ⟨hparsed, htrigger⟩, hprint⟩)
    · exact .inr (.inl (.printed cs v1Pod value _ resizeJson trigger ⟨hparsed, htrigger⟩ hprint))

/-- The loop body raises for stuck events and in the tests of the type. -/
theorem raises_watchEvent : Raises (watchEvent env event) ↔ Stuck env event ∨
    ∃ v1Pod trigger cgroupId, Handled env event v1Pod trigger cgroupId ∧
      Raises (opFor env.py event v1Pod trigger cgroupId) := by
  constructor
  · intro h
    rcases watchEvent_cases env event with hnone | hstuck | ⟨v1Pod, trigger, cgroupId, hhandled⟩
    · rw [hnone] at h
      exact absurd h (not_raises_ok _)
    · exact .inl hstuck
    · rw [hhandled.watchEvent] at h
      exact .inr ⟨v1Pod, trigger, cgroupId, hhandled, h⟩
  · rintro (hstuck | ⟨v1Pod, trigger, cgroupId, hhandled, h⟩)
    · exact hstuck.raises
    · rw [hhandled.watchEvent]
      exact h

theorem watchEvent_eq_some {op : MapOp} : watchEvent env event = .ok (some op) ↔
    ∃ v1Pod trigger cgroupId, Handled env event v1Pod trigger cgroupId ∧
      opFor env.py event v1Pod trigger cgroupId = .ok (some op) := by
  constructor
  · intro h
    rcases watchEvent_cases env event with hnone | hstuck | ⟨v1Pod, trigger, cgroupId, hhandled⟩
    · rw [hnone] at h
      cases h
    · obtain ⟨e, he⟩ := hstuck.raises
      rw [he] at h
      cases h
    · exact ⟨v1Pod, trigger, cgroupId, hhandled, hhandled.watchEvent.symm.trans h⟩
  · rintro ⟨v1Pod, trigger, cgroupId, hhandled, h⟩
    exact hhandled.watchEvent.trans h

theorem not_raises_of_watchStep {rcMap rcMap' : ResizeContainersMap} {turn : WatchEnv × WatchEvent}
    (h : watchStep rcMap turn = some rcMap') :
    ¬ Raises (watchEvent turn.1 turn.2) := by
  rintro ⟨e, he⟩
  rw [watchStep, he] at h
  cases h

/-! ## Insertions and deletions -/

theorem resizeCmd_eq_ok {py : Interpreter} {text : Text} {cmd : Command} :
    resizeCmd py (.str text) = .ok cmd ↔ (∀ c ∈ text, py.isSurrogate c = false) ∧
      ofBytes bufSize (cstr (asBytes text)) = some cmd := by
  rw [resizeCmd]
  cases hencode : encode py text with
  | error e =>
    refine iff_of_false nofun fun h ↦ ?_
    rw [encode_eq_ok.mpr ⟨h.1, rfl⟩] at hencode
    cases hencode
  | ok bytes =>
    obtain ⟨hplain, rfl⟩ := encode_eq_ok.mp hencode
    rw [and_iff_right hplain]
    simp only [bind, Except.bind]
    cases ofBytes bufSize (cstr (asBytes text)) <;> simp

section Types

variable {py : Interpreter} {v1Pod : V1Pod} {trigger : Json} {cgroupId : Text}

theorem WatchEvent.Adds.not_removes (h : event.Adds v1Pod) : ¬ event.Removes v1Pod := by
  have hne : "ADDED".toList ≠ "MODIFIED".toList ∧ "REMOVED".toList ≠ "MODIFIED".toList ∧
      "ADDED".toList ≠ "REMOVED".toList := by
    decide
  rintro (hremoved | ⟨hmodified, htimestamp⟩)
  · rcases h with hadded | ⟨hmodified, -⟩
    · exact hne.2.2 (hadded.symm.trans hremoved)
    · exact hne.2.1 (hremoved.symm.trans hmodified)
  · rcases h with hadded | ⟨-, hnone⟩
    · exact hne.1 (hadded.symm.trans hmodified)
    · exact htimestamp hnone

theorem opFor_of_adds (h : event.Adds v1Pod) :
    opFor py event v1Pod trigger cgroupId = (resizeCmd py trigger >>= fun cmd ↦
      parseInt cgroupId >>= fun g ↦ .ok (some (.insert g cmd))) := if_pos h

theorem opFor_of_removes (h : event.Removes v1Pod) :
    opFor py event v1Pod trigger cgroupId =
      (parseInt cgroupId >>= fun g ↦ .ok (some (.delete g))) :=
  (if_neg fun hadds ↦ hadds.not_removes h).trans (if_pos h)

theorem opFor_of_neither (hadds : ¬ event.Adds v1Pod) (hremoves : ¬ event.Removes v1Pod) :
    opFor py event v1Pod trigger cgroupId = .ok none := (if_neg hadds).trans (if_neg hremoves)

theorem opFor_eq_insert {g : ℕ} {cmd : Command} :
    opFor py event v1Pod trigger cgroupId = .ok (some (.insert g cmd)) ↔
      event.Adds v1Pod ∧ resizeCmd py trigger = .ok cmd ∧ parseInt cgroupId = .ok g := by
  by_cases hadds : event.Adds v1Pod
  · rw [opFor_of_adds hadds, and_iff_right hadds]
    cases hcmd : resizeCmd py trigger with
    | error e => simp [bind, Except.bind]
    | ok cmd' =>
      cases hint : parseInt cgroupId with
      | error e => simp [bind, Except.bind]
      | ok g' => simp [bind, Except.bind, and_comm]
  · refine iff_of_false (fun h ↦ ?_) fun h ↦ hadds h.1
    by_cases hremoves : event.Removes v1Pod
    · rw [opFor_of_removes hremoves] at h
      cases hint : parseInt cgroupId with
      | error e => simp [hint, bind, Except.bind] at h
      | ok g' => simp [hint, bind, Except.bind] at h
    · rw [opFor_of_neither hadds hremoves] at h
      cases h

theorem opFor_eq_delete {g : ℕ} :
    opFor py event v1Pod trigger cgroupId = .ok (some (.delete g)) ↔
      event.Removes v1Pod ∧ parseInt cgroupId = .ok g := by
  by_cases hremoves : event.Removes v1Pod
  · rw [opFor_of_removes hremoves, and_iff_right hremoves]
    cases parseInt cgroupId <;> simp [bind, Except.bind]
  · refine iff_of_false (fun h ↦ ?_) fun h ↦ hremoves h.1
    by_cases hadds : event.Adds v1Pod
    · rw [opFor_of_adds hadds] at h
      cases hcmd : resizeCmd py trigger with
      | error e => simp [hcmd, bind, Except.bind] at h
      | ok cmd =>
        cases hint : parseInt cgroupId with
        | error e => simp [hcmd, hint, bind, Except.bind] at h
        | ok g' => simp [hcmd, hint, bind, Except.bind] at h
    · rw [opFor_of_neither hadds hremoves] at h
      cases h

end Types

/-! ## The demo -/

def demoInterpreter : Interpreter where
  recursionLimit := 1000
  numberOk := fun _ ↦ true
  numberTruthy := fun literal ↦ literal ≠ ['0']
  numberEq := fun a b ↦ a = b
  numberEqBool := fun _ _ ↦ false
  loneSurrogate := fun _ ↦ none
  tooDeep := fun _ ↦ false
  str := fun _ ↦ []

/-- A pod `demo` with one container, whose id is its cgroup id in decimal. -/
def demoV1Pod (annotations : List (Text × Text)) (deletionTimestamp : Option Text) (ready : Bool) :
    V1Pod where
  ns := "default".toList
  name := "demo".toList
  deletionTimestamp := deletionTimestamp
  annotations := some annotations
  containers := []
  containerStatuses := some [⟨"ctr".toList, some "containerd://4242".toList, ready, some true⟩]

/-- The annotation with these commands. -/
def demoAnnotations (commands : Text) : List (Text × Text) :=
  [("ebpf-resize".toList,
    "\x7b\"cname\":\"ctr\",\"commands\":".toList ++ commands ++ ",\"resize\":\"\x7b\x7d\"\x7d".toList)]

/-- A node where reading a pod again gives this pod. -/
def demoWatchEnv (readAgain : Option V1Pod) : WatchEnv where
  py := demoInterpreter
  readNamespacedPod := fun _ _ ↦ readAgain
  find := fun root cid ↦ root ++ '/' :: cid ++ ['\n']
  ls := fun path ↦ (path.splitOn '/').getLastD [] ++ ['\n']
  stdoutEncodes := fun _ ↦ true

/-- The pod is reported, and read again in the same version. -/
def demoTurnOf (type : Text) (v1Pod : V1Pod) : WatchEnv × WatchEvent :=
  (demoWatchEnv (some v1Pod), ⟨type, v1Pod⟩)

end EbpfPlayground.Bcc
