import EbpfPlayground.CoRe.Authorisation
import EbpfPlayground.CoRe.PatchScript

/-!
# What stops the event handler

`handle_pod_snoop_event` drops the result of `resize_k8s_pod`, so an error of the API or a text that
is no JSON goes unnoticed.  A panic under it does not: it leaves the callback and ends the process.
The annotations that do so are listed; without them every event is handled and the patch script runs
for those events whose pod has a string to patch with.
-/

namespace EbpfPlayground.CoRe

open Shell Text

/-- The helper script's answer for an event. -/
def helperOutput (env : SnoopEnv) (event : PodExecEvent) : Text :=
  getPodnsPodnameCtrname env (decimal event.cgroupId.toNat) (decimal event.cgroupPid.toNat)

/-- The events of a perf buffer, one call of the handler after the other: what each call runs, and
how the last one ended. -/
def snoopLoop : List (SnoopEnv × PodExecEvent) → List (Option PatchCall) × Outcome
  | [] => ([], .ok)
  | (env, event) :: rest =>
    match handlePodSnoopEvent env event with
    | (.panic cause, call) => ([call], .panic cause)
    | (_, call) => (call :: (snoopLoop rest).1, (snoopLoop rest).2)

/-- `_ = resize_k8s_pod(..)`: only a panic gets through. -/
def dropResult : Outcome → Outcome
  | .panic cause => .panic cause
  | _ => .ok

/-- The event comes from the probe. -/
def PodExecEvent.OfProbe (event : PodExecEvent) : Prop := ∃ map task, podsnoop map task = some event

/-- The run of the patch script that an event asks for: its pod can be read and has an annotation
that is an object with a string `resize`. -/
def requestedPatch (env : SnoopEnv) (event : PodExecEvent) : Option PatchCall :=
  (podInfo env (helperOutput env event)).bind fun (podNs, podName, containerName) ↦
    (resizeText env podNs podName).map fun resize ↦ ⟨podName, containerName, resize, podNs⟩

/-- Every event is handled, and the patch script runs for exactly those that ask for it. -/
structure Survives (items : List (SnoopEnv × PodExecEvent)) : Prop where
  returns : (snoopLoop items).2 = .ok
  patches : (snoopLoop items).1 = items.map fun item ↦ requestedPatch item.1 item.2

/-- The events on which `handle_pod_snoop_event` panics. -/
inductive Crashes (env : SnoopEnv) (event : PodExecEvent) : Prop where
  /-- The annotation is JSON without a string under `resize`. -/
  | resize (podNs podName containerName text : Text) (annotations : List (Text × Text))
      (resizeJson : Json)
      (hinfo : podInfo env (helperOutput env event) = some (podNs, podName, containerName))
      (hpod : env.getPod podNs podName = some annotations)
      (htext : annotations.lookup annotationKey = some text)
      (hjson : Json.parse (serdeJson env.numberOk) text = some resizeJson)
      (hresize : (resizeJson.index resizeKey).asStr = none)
  /-- The patch script cannot be started with the arguments that the event asks for. -/
  | start (call : PatchCall) (hcall : requestedPatch env event = some call)
      (hspawn : env.spawns call = false)

/-! ## One event -/

section

variable {env : SnoopEnv} {event : PodExecEvent} {podNs podName containerName : Text}

/-- What a call does for an event of the probe whose names the helper script found. -/
theorem handlePodSnoopEvent_eq (hevent : event.OfProbe)
    (hinfo : podInfo env (helperOutput env event) = some (podNs, podName, containerName)) :
    handlePodSnoopEvent env event =
      (dropResult (resizeK8sPod env podNs podName containerName).1,
        (resizeK8sPod env podNs podName containerName).2) := by
  obtain ⟨map, task, hprobe⟩ := hevent
  obtain ⟨command, hcommand⟩ := Option.isSome_iff_exists.mp (isSome_fromUtf8_of_podsnoop hprobe)
  have houtput : (helperOutput env event).length ≠ 0 := by
    intro hlength
    rw [List.length_eq_zero_iff.mp hlength] at hinfo
    cases hinfo
  rw [helperOutput] at hinfo houtput
  simp only [handlePodSnoopEvent, hcommand, if_neg houtput, hinfo]
  rcases resizeK8sPod env podNs podName containerName with ⟨_ | _ | _, call⟩ <;> rfl

theorem requestedPatch_eq
    (hinfo : podInfo env (helperOutput env event) = some (podNs, podName, containerName)) :
    requestedPatch env event =
      (resizeText env podNs podName).map fun resize ↦ ⟨podName, containerName, resize, podNs⟩ := by
  rw [requestedPatch, hinfo]
  rfl

/-- An event that does not crash the handler runs the script as it asks for. -/
theorem handlePodSnoopEvent_of_not_crashes (hevent : event.OfProbe)
    (hinfo : podInfo env (helperOutput env event) = some (podNs, podName, containerName))
    (h : ¬ Crashes env event) :
    handlePodSnoopEvent env event = (.ok, requestedPatch env event) := by
  rw [handlePodSnoopEvent_eq hevent hinfo]
  have hrequested := requestedPatch_eq hinfo
  rw [resizeK8sPod]
  cases hpod : env.getPod podNs podName with
  | none =>
    rw [hrequested, resizeText, hpod]
    rfl
  | some annotations =>
    cases htext : annotations.lookup annotationKey with
    | none =>
      rw [hrequested, resizeText, hpod]
      simp [htext, dropResult]
    | some text =>
      cases hjson : Json.parse (serdeJson env.numberOk) text with
      | none =>
        rw [hrequested, resizeText, hpod]
        simp [htext, hjson, dropResult]
      | some resizeJson =>
        cases hresize : (resizeJson.index resizeKey).asStr with
        | none =>
          exact absurd (.resize _ _ _ text annotations resizeJson hinfo hpod htext hjson hresize) h
        | some resize =>
          have hcall : requestedPatch env event =
              some ⟨podName, containerName, resize, podNs⟩ := by
            rw [hrequested, resizeText, hpod]
            simp [htext, hjson, hresize]
          cases hspawn : env.spawns ⟨podName, containerName, resize, podNs⟩ with
          | true => simp only [hspawn, if_true, hcall, htext, hjson, hresize, dropResult]
          | false => exact absurd (.start _ hcall hspawn) h

/-- A NUL in an argument, which a JSON string may have, is enough. -/
theorem Crashes.of_nul {call : PatchCall} (hcall : requestedPatch env event = some call)
    {argument : Text} (hargument : argument ∈ call.arguments) (hnul : '\x00' ∈ argument) :
    Crashes env event := by
  refine .start call hcall ?_
  rw [← Bool.not_eq_true]
  exact fun hspawns ↦ env.nul_notMem call hspawns argument hargument hnul

theorem handlePodSnoopEvent_of_crashes (hevent : event.OfProbe) (h : Crashes env event) :
    ∃ cause, handlePodSnoopEvent env event = (.panic cause, none) := by
  cases h with
  | resize podNs podName containerName text annotations resizeJson hinfo hpod htext hjson hresize =>
    refine ⟨.unwrap, ?_⟩
    rw [handlePodSnoopEvent_eq hevent hinfo]
    simp [resizeK8sPod, hpod, htext, hjson, hresize, dropResult]
  | start call hcall hspawn =>
    refine ⟨.expect "failed to execute process".toList, ?_⟩
    rw [requestedPatch] at hcall
    obtain ⟨⟨podNs, podName, containerName⟩, hinfo, hcall⟩ := Option.bind_eq_some_iff.mp hcall
    obtain ⟨resize, hresize, rfl⟩ := Option.map_eq_some_iff.mp hcall
    rw [resizeText] at hresize
    obtain ⟨annotations, hpod, hresize⟩ := Option.bind_eq_some_iff.mp hresize
    obtain ⟨text, htext, hresize⟩ := Option.bind_eq_some_iff.mp hresize
    obtain ⟨resizeJson, hjson, hresize⟩ := Option.bind_eq_some_iff.mp hresize
    rw [handlePodSnoopEvent_eq hevent hinfo]
    simp [resizeK8sPod, hpod, htext, hjson, hresize, hspawn, dropResult]

end

/-! ## Sequences of events -/

/-- The handler survives a sequence of events exactly when none of them crashes it. -/
theorem survives_iff (items : List (SnoopEnv × PodExecEvent))
    (hevents : ∀ item ∈ items, item.2.OfProbe)
    (hanswers : ∀ item ∈ items, ∃ info, podInfo item.1 (helperOutput item.1 item.2) = some info) :
    Survives items ↔ ∀ item ∈ items, ¬ Crashes item.1 item.2 := by
  induction items with
  | nil => exact iff_of_true ⟨rfl, rfl⟩ (by simp)
  | cons item items ih =>
    obtain ⟨env, event⟩ := item
    have hevent : event.OfProbe := hevents (env, event) List.mem_cons_self
    obtain ⟨⟨podNs, podName, containerName⟩, hinfo⟩ := hanswers (env, event) List.mem_cons_self
    rw [List.forall_mem_cons]
    by_cases h : Crashes env event
    · obtain ⟨cause, hcause⟩ := handlePodSnoopEvent_of_crashes hevent h
      refine iff_of_false (fun hsurvives ↦ ?_) fun hnone ↦ hnone.1 h
      have hreturns := hsurvives.returns
      rw [snoopLoop, hcause] at hreturns
      cases hreturns
    · have hrest := ih (fun item hitem ↦ hevents item (List.mem_cons_of_mem _ hitem))
        (fun item hitem ↦ hanswers item (List.mem_cons_of_mem _ hitem))
      have hloop : snoopLoop ((env, event) :: items) =
          (requestedPatch env event :: (snoopLoop items).1, (snoopLoop items).2) := by
        rw [snoopLoop, handlePodSnoopEvent_of_not_crashes hevent hinfo h]
      rw [and_iff_right h, ← hrest]
      constructor
      · rintro ⟨hreturns, hpatches⟩
        rw [hloop] at hreturns hpatches
        exact ⟨hreturns, (List.cons.inj hpatches).2⟩
      · rintro ⟨hreturns, hpatches⟩
        refine ⟨?_, ?_⟩
        · rw [hloop]
          exact hreturns
        · rw [hloop, hpatches]
          rfl

/-- Two events of the demo's container: `make` is run twice, and the annotations are those that the
API answers each time. -/
def makeEvents (first second : List (Text × Text)) : List (SnoopEnv × PodExecEvent) :=
  [(demoSnoopEnv "demo".toList first, makeEvent), (demoSnoopEnv "demo".toList second, makeEvent)]

theorem ofProbe_makeEvent : makeEvent.OfProbe := by
  refine ⟨BoundedMap.empty.put 4242 (bpfGetCurrentComm makeTask.comm), makeTask, ?_⟩
  decide +kernel

theorem survives_make : Survives (makeEvents (demoAnnotations "[\"make\"]".toList) []) := by
  obtain ⟨items, hitems⟩ :
      ∃ items, items = makeEvents (demoAnnotations "[\"make\"]".toList) [] := ⟨_, rfl⟩
  have hevent : ∀ item ∈ items, item.2 = makeEvent := by
    rw [hitems]
    decide +kernel
  have hanswers : ∀ item ∈ items, (podInfo item.1 (helperOutput item.1 item.2)).isSome := by
    rw [hitems]
    decide +kernel
  have hreturns : ∀ item ∈ items, (handlePodSnoopEvent item.1 item.2).1 = .ok := by
    rw [hitems]
    decide +kernel
  rw [← hitems]
  refine (survives_iff items ?_ ?_).mpr ?_
  · intro item hitem
    rw [hevent item hitem]
    exact ofProbe_makeEvent
  · intro item hitem
    exact Option.isSome_iff_exists.mp (hanswers item hitem)
  · intro item hitem hcrashes
    obtain ⟨cause, hcause⟩ := handlePodSnoopEvent_of_crashes
      (hevent item hitem ▸ ofProbe_makeEvent) hcrashes
    have hok := hreturns item hitem
    rw [hcause] at hok
    cases hok

/-- A `resize` string that is one NUL. -/
def nulResize : List (Text × Text) :=
  [(annotationKey, "\x7b\"resize\":\"\\u0000\"\x7d".toList)]

/-- A pod whose annotation is the empty object comes first: the handler panics, and the event behind
it is not handled.  So it is with a string that no program can be started with. -/
theorem survives_counterexample :
    (snoopLoop (makeEvents [(annotationKey, ['\x7b', '\x7d'])]
      (demoAnnotations "[\"make\"]".toList)) = ([none], .panic .unwrap) ∧
    ¬ Survives (makeEvents [(annotationKey, ['\x7b', '\x7d'])]
      (demoAnnotations "[\"make\"]".toList))) ∧
    ¬ Survives (makeEvents nulResize (demoAnnotations "[\"make\"]".toList)) := by
  have hloop : snoopLoop (makeEvents [(annotationKey, ['\x7b', '\x7d'])]
      (demoAnnotations "[\"make\"]".toList)) = ([none], .panic .unwrap) := by
    decide +kernel
  have hcall : requestedPatch (demoSnoopEnv "demo".toList nulResize) makeEvent =
      some ⟨"demo".toList, "ctr".toList, ['\x00'], "default".toList⟩ := by
    decide +kernel
  have hargument : ['\x00'] ∈ PatchCall.arguments
      ⟨"demo".toList, "ctr".toList, ['\x00'], "default".toList⟩ := by
    decide +kernel
  have hnul : Crashes (demoSnoopEnv "demo".toList nulResize) makeEvent :=
    .of_nul hcall hargument List.mem_cons_self
  refine ⟨⟨hloop, fun h ↦ ?_⟩, fun h ↦ ?_⟩
  · have hreturns := h.returns
    rw [hloop] at hreturns
    cases hreturns
  · obtain ⟨cause, hcause⟩ := handlePodSnoopEvent_of_crashes ofProbe_makeEvent hnul
    have hreturns := h.returns
    rw [makeEvents, snoopLoop, hcause] at hreturns
    cases hreturns

end EbpfPlayground.CoRe
