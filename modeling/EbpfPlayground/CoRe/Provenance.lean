import EbpfPlayground.CoRe.Daemon

/-!
# Where events come from

Every entry of the map was asked for by a pod that has been handled, and every event in the perf
buffer repeats the C string of such an entry.  The bytes of an event are ASCII, because the compare
loop accepts nothing else, so reading them as UTF-8 succeeds.
-/

namespace EbpfPlayground.CoRe

open CString

/-- One of the calls was made on a pod that asks for this command in this cgroup. -/
def Requested (handled : List Handled) (cgroupId : UInt64) (command : List UInt8) : Prop :=
  ∃ call ∈ handled, Requests call.env call.pod cgroupId command

theorem Requested.mono {handled handled' : List Handled} {cgroupId : UInt64}
    {command : List UInt8} (h : Requested handled cgroupId command) (hsub : handled ⊆ handled') :
    Requested handled' cgroupId command :=
  h.imp fun _ hcall ↦ ⟨hsub hcall.1, hcall.2⟩

/-- Every entry and every event in flight was requested. -/
structure Provenance (s : State) : Prop where
  entries : ∀ cgroupId command, s.rcMap.lookup cgroupId = some command →
    Requested s.handled cgroupId (cstr command.toList)
  events : ∀ emitted ∈ s.inFlight,
    Requested s.handled emitted.event.cgroupId (cstr emitted.event.cgroupCmd.toList) ∧
      (Text.fromUtf8 emitted.event.cgroupCmd.toList).isSome

theorem provenance_init : Provenance State.init where
  entries := by simp [State.init]
  events := by simp [State.init]

theorem Provenance.step {s s' : State} {action : Action} (hs : Provenance s)
    (h : step s action = some s') : Provenance s' := by
  cases steps_of_step h with
  | watch item => exact ⟨hs.entries, hs.events⟩
  | handle env p rest =>
    have hsub : s.handled ⊆ (s.handlePod env p rest).handled := List.subset_cons_self _ _
    constructor
    · intro cgroupId command hlookup
      rw [handlePod_rcMap] at hlookup
      rcases BoundedMap.lookup_putAll_cases hlookup with hold | hnew
      · exact (hs.entries cgroupId command hold).mono hsub
      · exact ⟨⟨env, p⟩, List.mem_cons_self, requests_of_mem_podUpdates hnew⟩
    · intro emitted hemitted
      exact (hs.events emitted hemitted).imp_left fun hrequested ↦ hrequested.mono hsub
  | watchError env rest => exact ⟨hs.entries, hs.events⟩
  | execve task => exact hs
  | emit task event hevent =>
    refine ⟨hs.entries, fun emitted hemitted ↦ ?_⟩
    rcases List.mem_append.mp hemitted with hold | hnew
    · exact hs.events emitted hold
    · obtain rfl := List.mem_singleton.mp hnew
      obtain ⟨⟨val, hval, hcstr⟩, -, hshape⟩ := podsnoop_eq_some.mp hevent
      have hrequested := hs.entries task.cgroupId val hval
      rw [hcstr] at hrequested
      subst hshape
      exact ⟨by rwa [cstr_bpfGetCurrentComm], isSome_fromUtf8_of_podsnoop hevent⟩
  | deliver index env emitted =>
    exact ⟨hs.entries, fun other hother ↦ hs.events other (List.mem_of_mem_eraseIdx hother)⟩
  | lose index emitted =>
    exact ⟨hs.entries, fun other hother ↦ hs.events other (List.mem_of_mem_eraseIdx hother)⟩

theorem provenance_of_reaches {history : List Action} {s : State} (h : Reaches history s) :
    Provenance s :=
  Run.invariant (I := fun _ ↦ Provenance) provenance_init
    (fun _ _ _ _ hs hstep ↦ hs.step hstep) h

/-- Every event that is delivered in any run comes from a pod handled earlier that asks for its
command in its cgroup, and its bytes are valid UTF-8. -/
theorem delivered_event_requested (history : List Action) (s : State) (hreach : Reaches history s)
    (index : ℕ) (env : SnoopEnv) (s' : State) (hdeliver : step s (.deliver index env) = some s') :
    ∃ emitted, s.inFlight[index]? = some emitted ∧
      (∃ call ∈ s.handled,
        Requests call.env call.pod emitted.event.cgroupId (cstr emitted.event.cgroupCmd.toList)) ∧
      (Text.fromUtf8 emitted.event.cgroupCmd.toList).isSome := by
  cases steps_of_step hdeliver with
  | deliver _ _ emitted _ hemitted =>
    have hmem := List.mem_of_getElem? hemitted
    exact ⟨emitted, hemitted, (provenance_of_reaches hreach).events emitted hmem⟩

/-- The pod is applied and handled, and `make` is started in its container. -/
def makeHistory : List Action :=
  [.watch (.event (.applied (demoPod (demoAnnotations "[\"make\"]".toList) "4242".toList))),
    .handle demoEnv, .execve (demoTask "make".toList make_short zero_notMem_make)]

theorem delivered_event_requested_make :
    ∃ s emitted, Reaches makeHistory s ∧ s.inFlight[0]? = some emitted ∧
      (∃ call ∈ s.handled,
        Requests call.env call.pod emitted.event.cgroupId (cstr emitted.event.cgroupCmd.toList)) ∧
      (Text.fromUtf8 emitted.event.cgroupCmd.toList).isSome := by
  set env := demoSnoopEnv "demo".toList (demoAnnotations "[\"make\"]".toList) with henv
  have hrun : (Run.run step State.init (makeHistory ++ [.deliver 0 env])).isSome := by
    rw [henv]
    decide +kernel
  obtain ⟨s', hs'⟩ := Option.isSome_iff_exists.mp hrun
  obtain ⟨s, hreach, hdeliver⟩ := Run.run_concat_eq_some.mp hs'
  obtain ⟨emitted, hemitted, hrequested⟩ :=
    delivered_event_requested makeHistory s hreach 0 env s' hdeliver
  exact ⟨s, emitted, hreach, hemitted, hrequested⟩

end EbpfPlayground.CoRe
