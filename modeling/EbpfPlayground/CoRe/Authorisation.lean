import EbpfPlayground.CoRe.Daemon

/-!
# Which resizes the current annotation permits

An entry outlives the annotation that asked for it: a later version of the pod may drop the command,
name another container or drop the annotation, and the entry stays as it is unless the new version
writes it again.  Where every handled version lists or rewrites the entries of its pod, each run of
the patch script is permitted by the version handled last before the event.
-/

namespace EbpfPlayground.CoRe

open CString Text

/-- A container: its pod and its name. -/
structure Container where
  pod : Text × Text
  name : Text
  deriving DecidableEq

/-- The version of a pod that was handled most recently. -/
def lastHandled (handled : List Handled) (pod : Text × Text) : Option Handled :=
  handled.find? fun call ↦ call.pod.key = pod

/-- The annotation names this container and lists this command. -/
def Permits (call : Handled) (name : Text) (command : List UInt8) : Prop :=
  call.pod.cname call.env = some name ∧
    ∃ text, call.pod.Lists call.env text ∧ cstr (asBytes text) = command

/-- The latest handled version of the pod that the container belongs to permits the command. -/
def LatestPermits (owner : UInt64 → Option Container) (handled : List Handled) (cgroupId : UInt64)
    (command : List UInt8) : Prop :=
  ∃ container call, owner cgroupId = some container ∧
    lastHandled handled container.pod = some call ∧ Permits call container.name command

/-- The event was permitted when it was emitted. -/
def Authorised (owner : UInt64 → Option Container) (emitted : Emitted) : Prop :=
  LatestPermits owner emitted.before emitted.event.cgroupId (cstr emitted.event.cgroupCmd.toList)

/-- The statuses of a handled pod are those of its own containers. -/
def TrueStatuses (owner : UInt64 → Option Container) (call : Handled) : Prop :=
  ∀ cs ∈ call.pod.statuses, ∀ cid cgroupId, cs.containerId = some cid →
    containerCgroupId call.env cid = .ok cgroupId → owner cgroupId = some ⟨call.pod.key, cs.name⟩

/-- Where the action handles a pod, each entry that a container of this pod has before is one that
the new version still permits or writes again. -/
def Refreshes (owner : UInt64 → Option Container) (s : State) (action : Action) : Prop :=
  ∀ env p rest, action = .handle env → s.stream = .pod p :: rest →
    ∀ cgroupId value name, s.rcMap.lookup cgroupId = some value →
      owner cgroupId = some ⟨p.key, name⟩ →
        Permits ⟨env, p⟩ name (cstr value.toList) ∨ WellFormed env p cgroupId

/-- Every entry, every event in flight and every event that was handled is permitted. -/
structure Fresh (owner : UInt64 → Option Container) (s : State) : Prop where
  entries : ∀ cgroupId value, s.rcMap.lookup cgroupId = some value →
    LatestPermits owner s.handled cgroupId (cstr value.toList)
  events : ∀ emitted ∈ s.inFlight, Authorised owner emitted
  patches : ∀ patched ∈ s.patched, Authorised owner patched.cause

theorem fresh_init (owner : UInt64 → Option Container) : Fresh owner State.init where
  entries := by simp [State.init]
  events := by simp [State.init]
  patches := by simp [State.init]

theorem lastHandled_cons_self (call : Handled) (handled : List Handled) :
    lastHandled (call :: handled) call.pod.key = some call := by
  simp [lastHandled]

theorem lastHandled_cons_of_ne (call : Handled) {pod : Text × Text} (handled : List Handled)
    (h : call.pod.key ≠ pod) : lastHandled (call :: handled) pod = lastHandled handled pod := by
  simp [lastHandled, h]

/-- An update of a handled pod is permitted by it. -/
theorem latestPermits_of_mem_podUpdates {owner : UInt64 → Option Container} (call : Handled)
    {handled : List Handled} (htrue : TrueStatuses owner call) {cgroupId : UInt64}
    {value : PodCommand} (h : (cgroupId, value) ∈ podUpdates call.env call.pod) :
    LatestPermits owner (call :: handled) cgroupId (cstr value.toList) := by
  obtain ⟨-, ⟨cs, hcs, hcname, cid, hcid, hgroup⟩, hlists⟩ := requests_of_mem_podUpdates h
  refine ⟨⟨call.pod.key, cs.name⟩, call, htrue cs hcs cid cgroupId hcid hgroup, ?_, hcname, hlists⟩
  exact lastHandled_cons_self call handled

/-- The entries after a pod is handled. -/
theorem Fresh.entries_handlePod {owner : UInt64 → Option Container} {s : State} (hs : Fresh owner s)
    {env : Env} {p : Pod} {rest : List StreamItem} (htrue : TrueStatuses owner ⟨env, p⟩)
    (hrefresh : ∀ cgroupId value name, s.rcMap.lookup cgroupId = some value →
      owner cgroupId = some ⟨p.key, name⟩ →
        Permits ⟨env, p⟩ name (cstr value.toList) ∨ WellFormed env p cgroupId)
    (cgroupId : UInt64) (value : PodCommand)
    (hlookup : (s.handlePod env p rest).rcMap.lookup cgroupId = some value) :
    LatestPermits owner (⟨env, p⟩ :: s.handled) cgroupId (cstr value.toList) := by
  rw [handlePod_rcMap] at hlookup
  rcases BoundedMap.lookup_putAll_cases hlookup with hold | hnew
  · obtain ⟨container, call, howner, hlast, hpermits⟩ := hs.entries cgroupId value hold
    by_cases hpod : p.key = container.pod
    · obtain ⟨pod, name⟩ := container
      subst hpod
      rcases hrefresh cgroupId value name hold howner with hstill | hformed
      · exact ⟨_, _, howner, lastHandled_cons_self ⟨env, p⟩ s.handled, hstill⟩
      · -- The version writes the entry again, so the value found is its own.
        have hkey : cgroupId ∈ s.rcMap.keys := BoundedMap.mem_keys.mpr ⟨value, hold⟩
        obtain ⟨value', hvalue', hlookup'⟩ := BoundedMap.lookup_putAll_of_mem
          (fun first _ _ _ ↦ BoundedMap.accepts_putAll_of_mem_keys hkey first)
          hformed.mem_podUpdates
        obtain rfl : value = value' := Option.some.inj (hlookup.symm.trans hlookup')
        exact latestPermits_of_mem_podUpdates ⟨env, p⟩ htrue hvalue'
    · refine ⟨container, call, howner, ?_, hpermits⟩
      rw [lastHandled_cons_of_ne ⟨env, p⟩ s.handled hpod]
      exact hlast
  · exact latestPermits_of_mem_podUpdates ⟨env, p⟩ htrue hnew

theorem Fresh.step {owner : UInt64 → Option Container} {s s' : State} {action : Action}
    (hs : Fresh owner s) (htrue : ∀ call ∈ s'.handled, TrueStatuses owner call)
    (hrefresh : Refreshes owner s action) (h : step s action = some s') : Fresh owner s' := by
  cases steps_of_step h with
  | watch item => exact ⟨hs.entries, hs.events, hs.patches⟩
  | handle env p rest _ hstream =>
    refine ⟨?_, hs.events, hs.patches⟩
    exact hs.entries_handlePod (htrue ⟨env, p⟩ List.mem_cons_self) (hrefresh env p rest rfl hstream)
  | watchError env rest => exact ⟨hs.entries, hs.events, hs.patches⟩
  | execve task => exact hs
  | emit task event hevent =>
    refine ⟨hs.entries, ?_, hs.patches⟩
    intro emitted hemitted
    rcases List.mem_append.mp hemitted with hold | hnew
    · exact hs.events emitted hold
    · obtain rfl := List.mem_singleton.mp hnew
      obtain ⟨⟨value, hvalue, hcstr⟩, -, rfl⟩ := podsnoop_eq_some.mp hevent
      have hentry := hs.entries task.cgroupId value hvalue
      rw [hcstr, ← cstr_bpfGetCurrentComm task.comm] at hentry
      exact hentry
  | deliver index env emitted _ hemitted =>
    refine ⟨hs.entries, fun other hother ↦ hs.events other (List.mem_of_mem_eraseIdx hother), ?_⟩
    intro patched hpatched
    rcases mem_deliverEvent_patched hpatched with hold | hcause
    · exact hs.patches patched hold
    · rw [hcause]
      exact hs.events emitted (List.mem_of_getElem? hemitted)
  | lose index emitted =>
    exact ⟨hs.entries, fun other hother ↦ hs.events other (List.mem_of_mem_eraseIdx hother),
      hs.patches⟩

/-- No step forgets a call. -/
theorem handled_subset_of_step {s s' : State} {action : Action} (h : step s action = some s') :
    s.handled ⊆ s'.handled := by
  cases steps_of_step h with
  | handle env p rest => exact List.subset_cons_self _ _
  | _ => exact List.Subset.refl _

/-- Where every handled version refreshes the entries of its pod, every run of the patch script is
permitted by the version of the pod that was handled last before the event. -/
theorem patches_authorised (owner : UInt64 → Option Container) (history : List Action) (s : State)
    (hreach : Reaches history s) (htrue : ∀ call ∈ s.handled, TrueStatuses owner call)
    (hrefresh : Run.Meets step (Refreshes owner) State.init history) :
    ∀ patched ∈ s.patched, Authorised owner patched.cause := by
  have hfresh : (∀ call ∈ s.handled, TrueStatuses owner call) → Fresh owner s := by
    refine Run.invariant_of_meets (I := fun t ↦
      (∀ call ∈ t.handled, TrueStatuses owner call) → Fresh owner t) ?_ ?_ hrefresh hreach
    · exact fun _ ↦ fresh_init owner
    · intro t action t' ht haction hstep htrue'
      have hbefore : ∀ call ∈ t.handled, TrueStatuses owner call := fun call hcall ↦
        htrue' call (handled_subset_of_step hstep hcall)
      exact (ht hbefore).step htrue' haction hstep
  exact (hfresh htrue).patches

/-! ## A pod whose annotation is edited -/

/-- The pod of the demo while it lists these commands. -/
def demoVersion (commands : Text) : Pod := demoPod (demoAnnotations commands) "4242".toList

def demoOwner (cgroupId : UInt64) : Option Container :=
  if cgroupId = 4242 then some ⟨("default".toList, "demo".toList), "ctr".toList⟩ else none

def makeTask : Task := demoTask "make".toList make_short zero_notMem_make

def makeEvent : PodExecEvent := ⟨4242, makeTask.pidTgid.toUInt32, bpfGetCurrentComm makeTask.comm⟩

theorem trueStatuses_demoVersion (commands : Text) :
    TrueStatuses demoOwner ⟨demoEnv, demoVersion commands⟩ := by
  intro cs hcs cid cgroupId hcid hgroup
  have hknown : containerCgroupId demoEnv ("containerd://".toList ++ "4242".toList) = .ok 4242 := by
    decide +kernel
  obtain rfl : cs = ⟨"ctr".toList, some ("containerd://".toList ++ "4242".toList)⟩ :=
    List.mem_singleton.mp hcs
  obtain rfl := Option.some.inj hcid
  obtain rfl := Except.ok.inj (hknown.symm.trans hgroup)
  rfl

/-- Two versions of a pod are handled, then `make` is started and its event is handled. -/
def editedHistory (first second : Pod) (env : SnoopEnv) : List Action :=
  [.watch (.event (.applied first)), .handle demoEnv, .watch (.event (.applied second)),
    .handle demoEnv, .execve makeTask, .deliver 0 env]

theorem reaches_editedHistory {first second : Pod} {env : SnoopEnv} {call : PatchCall}
    (hok : podOutcome demoEnv first = .ok)
    (hevent : podsnoop ((BoundedMap.empty.putAll (podUpdates demoEnv first)).putAll
      (podUpdates demoEnv second)) makeTask = some makeEvent)
    (hcall : (handlePodSnoopEvent env makeEvent).2 = some call) :
    ∃ s, Reaches (editedHistory first second env) s ∧
      s.handled = [⟨demoEnv, second⟩, ⟨demoEnv, first⟩] ∧
      ⟨call, makeEvent, s.handled⟩ ∈ s.patched := by
  set s₁ := { State.init with stream := [.pod first] }
  set s₂ := s₁.handlePod demoEnv first []
  set s₃ := { s₂ with stream := [.pod second] }
  set s₄ := s₃.handlePod demoEnv second []
  set s₅ := { s₄ with inFlight := [⟨makeEvent, s₄.handled⟩] }
  have hwatching : s₃.watching = true := by
    simp [s₃, s₂, State.handlePod, handleK8sPod_eq, hok]
  have hmap : s₄.rcMap = (BoundedMap.empty.putAll (podUpdates demoEnv first)).putAll
      (podUpdates demoEnv second) := by
    simp [s₄, s₃, s₂, s₁, State.init]
  have hreach : Reaches (editedHistory first second env)
      (s₅.deliverEvent 0 ⟨makeEvent, s₄.handled⟩ env) := by
    have h₁ : Reaches [.watch (.event (.applied first))] s₁ := rfl
    have h₂ := h₁.concat (.handle demoEnv first [] rfl rfl)
    have h₃ : Reaches _ s₃ := h₂.concat (.watch (.event (.applied second)))
    have h₄ := h₃.concat (.handle demoEnv second [] hwatching rfl)
    have h₅ : Reaches _ s₅ := h₄.concat (.emit makeTask makeEvent (hmap ▸ hevent))
    exact h₅.concat (.deliver 0 env ⟨makeEvent, s₄.handled⟩ rfl rfl)
  refine ⟨_, hreach, rfl, ?_⟩
  simp only [State.deliverEvent, hcall, Option.map_some, Option.toList_some]
  exact List.mem_append_left _ List.mem_cons_self

theorem refreshes_of_ne_handle {owner : UInt64 → Option Container} {s : State} {action : Action}
    (h : ∀ env, action ≠ .handle env) : Refreshes owner s action :=
  fun env _ _ haction ↦ absurd haction (h env)

theorem refreshes_demoVersion {s : State} {commands : Text}
    (hstream : s.stream = [.pod (demoVersion commands)])
    (hformed : WellFormed demoEnv (demoVersion commands) 4242) :
    Refreshes demoOwner s (.handle demoEnv) := by
  intro env p rest haction hpod cgroupId value name _ howner
  obtain rfl := Action.handle.inj haction
  obtain ⟨hp, -⟩ := List.cons.inj (hstream.symm.trans hpod)
  obtain rfl := StreamItem.pod.inj hp
  have hgroup : cgroupId = 4242 := by
    by_contra hne
    rw [demoOwner, if_neg hne] at howner
    cases howner
  exact .inr (hgroup ▸ hformed)

theorem wellFormed_demoVersion {commands : Text} (cmds : List Text)
    (hcname : (demoVersion commands).cname demoEnv = some "ctr".toList)
    (hcmds : (demoVersion commands).commands demoEnv = some (cmds.map .str)) (hne : cmds ≠ [])
    (hfits : ∀ cmd ∈ cmds, (asBytes cmd).length ≤ bufSize) :
    WellFormed demoEnv (demoVersion commands) 4242 :=
  wellFormed_demoPod cmds hcname hcmds (by decide +kernel) hne hfits

/-- An edit from `gcc` to `make` is followed by a run of `make`. -/
theorem patches_authorised_make :
    ∃ s : State, s.patched ≠ [] ∧ ∀ patched ∈ s.patched, Authorised demoOwner patched.cause := by
  obtain ⟨first, hfirst⟩ : ∃ p, p = demoVersion "[\"gcc\"]".toList := ⟨_, rfl⟩
  obtain ⟨second, hsecond⟩ : ∃ p, p = demoVersion "[\"make\"]".toList := ⟨_, rfl⟩
  obtain ⟨env, henv⟩ :
      ∃ env, env = demoSnoopEnv "demo".toList (demoAnnotations "[\"make\"]".toList) := ⟨_, rfl⟩
  have hformedFirst : WellFormed demoEnv first 4242 := by
    rw [hfirst]
    exact wellFormed_demoVersion ["gcc".toList] (by decide +kernel) (by decide +kernel)
      (by simp) (by decide)
  have hformedSecond : WellFormed demoEnv second 4242 := by
    rw [hsecond]
    exact wellFormed_demoVersion ["make".toList] (by decide +kernel) (by decide +kernel)
      (by simp) (by decide)
  have hevent : podsnoop ((BoundedMap.empty.putAll (podUpdates demoEnv first)).putAll
      (podUpdates demoEnv second)) makeTask = some makeEvent := by
    rw [hfirst, hsecond]
    decide +kernel
  obtain ⟨call, hcall⟩ : ∃ call, (handlePodSnoopEvent env makeEvent).2 = some call := by
    rw [← Option.isSome_iff_exists, henv]
    decide +kernel
  obtain ⟨s, hreach, hhandled, hpatched⟩ :=
    reaches_editedHistory hformedFirst.podOutcome hevent hcall
  refine ⟨s, List.ne_nil_of_mem hpatched, patches_authorised demoOwner _ s hreach ?_ ?_⟩
  · intro handled hmem
    rw [hhandled, hfirst, hsecond] at hmem
    simp only [List.mem_cons, List.not_mem_nil, or_false] at hmem
    rcases hmem with rfl | rfl
    · exact trueStatuses_demoVersion _
    · exact trueStatuses_demoVersion _
  · subst hfirst hsecond
    refine ⟨refreshes_of_ne_handle (by simp), fun s₁ h₁ ↦ ?_⟩
    obtain rfl := Option.some.inj h₁
    refine ⟨refreshes_demoVersion rfl hformedFirst, fun s₂ h₂ ↦ ?_⟩
    obtain rfl := Option.some.inj h₂
    refine ⟨refreshes_of_ne_handle (by simp), fun s₃ h₃ ↦ ?_⟩
    obtain rfl := Option.some.inj h₃
    refine ⟨refreshes_demoVersion rfl hformedSecond, fun s₄ h₄ ↦ ?_⟩
    refine ⟨refreshes_of_ne_handle (by simp), fun s₅ h₅ ↦ ?_⟩
    exact ⟨refreshes_of_ne_handle (by simp), fun s₆ h₆ ↦ trivial⟩

/-- The run of a command that is no longer listed patches the pod although its latest version lists none. -/
theorem patches_authorised_counterexample :
    ∃ owner history s, Reaches history s ∧ (∀ call ∈ s.handled, TrueStatuses owner call) ∧
      ∃ patched ∈ s.patched, ¬ Authorised owner patched.cause := by
  obtain ⟨first, hfirst⟩ : ∃ p, p = demoVersion "[\"make\"]".toList := ⟨_, rfl⟩
  obtain ⟨second, hsecond⟩ : ∃ p, p = demoVersion "[]".toList := ⟨_, rfl⟩
  obtain ⟨env, henv⟩ : ∃ env, env = demoSnoopEnv "demo".toList (demoAnnotations "[]".toList) := ⟨_, rfl⟩
  have hok : podOutcome demoEnv first = .ok := by
    rw [hfirst]
    decide +kernel
  have hevent : podsnoop ((BoundedMap.empty.putAll (podUpdates demoEnv first)).putAll
      (podUpdates demoEnv second)) makeTask = some makeEvent := by
    rw [hfirst, hsecond]
    decide +kernel
  obtain ⟨call, hcall⟩ : ∃ call, (handlePodSnoopEvent env makeEvent).2 = some call := by
    rw [← Option.isSome_iff_exists, henv]
    decide +kernel
  have hcommands : second.commands demoEnv = some [] := by
    rw [hsecond]
    decide +kernel
  obtain ⟨s, hreach, hhandled, hpatched⟩ := reaches_editedHistory hok hevent hcall
  refine ⟨demoOwner, _, s, hreach, ?_, _, hpatched, ?_⟩
  · intro handled hmem
    rw [hhandled, hfirst, hsecond] at hmem
    simp only [List.mem_cons, List.not_mem_nil, or_false] at hmem
    rcases hmem with rfl | rfl
    · exact trueStatuses_demoVersion _
    · exact trueStatuses_demoVersion _
  · rintro ⟨container, latest, howner, hlatest, -, text, ⟨cmds, hcmds, hmem⟩, -⟩
    obtain rfl : ⟨("default".toList, "demo".toList), "ctr".toList⟩ = container :=
      Option.some.inj howner
    have hlast : lastHandled s.handled second.key = some ⟨demoEnv, second⟩ := by
      rw [hhandled]
      exact lastHandled_cons_self _ _
    have hkey : second.key = ("default".toList, "demo".toList) := by rw [hsecond]; rfl
    rw [hkey] at hlast
    obtain rfl : (⟨demoEnv, second⟩ : Handled) = latest := Option.some.inj (hlast.symm.trans hlatest)
    obtain rfl : [] = cmds := Option.some.inj (hcommands.symm.trans hcmds)
    cases hmem

end EbpfPlayground.CoRe
