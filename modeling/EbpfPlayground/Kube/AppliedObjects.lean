import EbpfPlayground.Kube.Session
import EbpfPlayground.Kube.WatchExt

/-!
# A consumer of applied objects

A consumer that takes the flattened stream until its first error sees one list and the changes after
it.  It therefore sees every object in its present version after all older ones, and no version
twice.
-/

namespace EbpfPlayground.Kube

open ChangeLog

variable {K : Type*} [Resource K]

/-- The objects in front of the first error. -/
def taken : List (Except Error K) → List K
  | .ok obj :: items => obj :: taken items
  | _ => []

omit [Resource K] in
theorem taken_map_ok (objs : List K) (rest : List (Except Error K)) :
    taken (objs.map .ok ++ rest) = objs ++ taken rest := by
  induction objs with
  | nil => rfl
  | cons obj objs ih => exact congrArg (obj :: ·) ih

omit [Resource K] in
theorem taken_mono {first second : List (Except Error K)} (h : first <+: second) :
    taken first <+: taken second := by
  induction first generalizing second with
  | nil => exact List.nil_prefix
  | cons item first ih =>
    obtain ⟨rest, rfl⟩ := h
    cases item with
    | error err => exact List.nil_prefix
    | ok obj => exact List.cons_prefix_cons.mpr ⟨rfl, ih (List.prefix_append first rest)⟩

/-- The items follow the language of the stream. -/
theorem Session.Reaches.recovers {versions : Versions} {lp : ListParams} {s : Session K}
    (h : s.Reaches versions lp) (rest : List (Item K)) :
    Recovers false (s.items ++ rest) ↔ Recovers s.state.listed rest := by
  obtain ⟨log, -, hrun⟩ := h
  induction hrun generalizing rest with
  | refl => rfl
  | @tail middle _ _ hstep ih =>
    cases hstep with
    | commit entry hentry => exact ih rest
    | poll api item state hserves hstep =>
      rw [polled_items, polled_state, List.append_assoc, ih]
      exact (steps_of_stepTrampolined hstep).recovers rest

/-- The item is no error. -/
def Item.IsOk (item : Item K) : Prop := ∃ event, item = .ok event

/-- The events after a list, which are no lists. -/
theorem Recovers.exists_changes {items : List (Item K)} (h : Recovers true items)
    (hok : ∀ item ∈ items, item.IsOk) :
    ∃ changes : List (Change K), items = changes.map fun change ↦ .ok (.ofChange change) := by
  induction items with
  | nil => exact ⟨[], rfl⟩
  | cons item items ih =>
    obtain ⟨⟨event, rfl⟩, hitems⟩ := List.forall_mem_cons.mp hok
    cases event with
    | applied obj =>
      obtain ⟨changes, rfl⟩ := ih h.2 hitems
      exact ⟨.put obj :: changes, rfl⟩
    | deleted obj =>
      obtain ⟨changes, rfl⟩ := ih h.2 hitems
      exact ⟨.delete obj :: changes, rfl⟩
    | restarted objs => exact absurd h (by simp [Recovers])

omit [Resource K] in
theorem sinceList_changes (objs : List K) (changes : List (Change K)) :
    sinceList (.ok (.restarted objs) :: changes.map fun change ↦ .ok (.ofChange change)) =
      some (objs, changes.map Event.ofChange) := by
  induction changes using List.reverseRecOn with
  | nil => rfl
  | append_singleton changes last ih =>
    rw [List.map_append, List.map_singleton, ← List.cons_append, sinceList_concat, ih,
      List.map_append, List.map_singleton]
    cases last <;> rfl

/-- Without an error there is one list, and then the changes behind it. -/
structure Uninterrupted (versions : Versions) (s : Session K) (objs : List K)
    (listed revision : ℕ) : Prop where
  length : revision ≤ s.log.length
  version : ∀ version ∈ s.state.resourceVersion, version = versions.version revision
  le : listed ≤ revision
  snapshot : IsSnapshot ObjectRef.fromObj objs (stateAt ObjectRef.fromObj s.log listed)
  items : s.items = .ok (.restarted objs) ::
    (window s.log listed revision).map fun change ↦ .ok (.ofChange change)

theorem Session.Reaches.uninterrupted {versions : Versions} {lp : ListParams} {s : Session K}
    (h : s.Reaches versions lp) (hok : ∀ item ∈ s.items, item.IsOk) (hne : s.items ≠ []) :
    ∃ objs listed revision, Uninterrupted versions s objs listed revision := by
  have hrecovers : Recovers false s.items := by
    have hall := (h.recovers []).mpr (by simp [Recovers])
    simpa using hall
  obtain ⟨first, rest, hitems⟩ := List.exists_cons_of_ne_nil hne
  rw [hitems] at hrecovers hok
  obtain ⟨⟨event, rfl⟩, hrest⟩ := List.forall_mem_cons.mp hok
  cases event with
  | applied obj => exact absurd hrecovers (by simp [Recovers])
  | deleted obj => exact absurd hrecovers (by simp [Recovers])
  | restarted objs =>
    obtain ⟨changes, rfl⟩ := Recovers.exists_changes hrecovers hrest
    have hmissed : s.missed = [] := by
      rcases h.complains with hmem | hnone
      · rw [hitems] at hmem
        obtain ⟨event, hevent⟩ := hok _ hmem
        cases hevent
      · exact hnone.2
    have hsince := sinceList_changes objs changes
    rw [← hitems] at hsince
    rcases h.inv.progress with hunlisted | ⟨listed, revision, hsynced⟩
    · rw [hunlisted.sinceList] at hsince
      cases hsince
    · obtain ⟨objs', hsnapshot, hevents⟩ := hsynced.events
      rw [hsince, hmissed, mask_nil, Option.some.injEq, Prod.mk.injEq] at hevents
      obtain ⟨rfl, hchanges⟩ := hevents
      refine ⟨objs, listed, revision, hsynced.length, hsynced.reads.resourceVersion, hsynced.le,
        hsnapshot, ?_⟩
      have hok := congrArg (List.map (Except.ok (ε := Error))) hchanges
      rw [List.map_map, List.map_map] at hok
      rw [hitems]
      exact congrArg _ hok

omit [Resource K] in
/-- The flattened stream of a list and the changes behind it. -/
theorem flatMap_flattenItem (objs : List K) (changes : List (Change K)) :
    (.ok (.restarted objs) :: changes.map fun change ↦ .ok (.ofChange change)).flatMap
        (EventFlatten.flattenItem false) = (objs ++ puts changes).map .ok := by
  rw [List.flatMap_cons, List.map_append]
  congr 1
  induction changes with
  | nil => rfl
  | cons change changes ih =>
    rw [List.map_cons, List.flatMap_cons, ih]
    cases change <;> rfl

theorem Uninterrupted.taken_eq {versions : Versions} {s : Session K} {objs : List K}
    {listed revision : ℕ} (h : Uninterrupted versions s objs listed revision) :
    taken (s.items.flatMap (EventFlatten.flattenItem false)) =
      objs ++ puts (window s.log listed revision) := by
  have htaken := taken_map_ok (objs ++ puts (window s.log listed revision)) []
  rw [h.items, flatMap_flattenItem]
  simpa [taken] using htaken

/-- The resource version of an object. -/
def versionOf (obj : K) : Option Text := (Resource.metadata obj).resourceVersion

/-- Without an error, no version is among the applied objects twice. -/
theorem Uninterrupted.nodup {versions : Versions} {lp : ListParams} {s : Session K} {objs : List K}
    {listed revision : ℕ} (hs : s.Reaches versions lp)
    (h : Uninterrupted versions s objs listed revision) :
    ((objs ++ puts (window s.log listed revision)).map versionOf).Nodup := by
  have hinjective : Function.Injective fun index ↦ some (versions.version (index + 1)) := by
    intro i j heq
    exact Nat.succ_injective (versions.injective (Option.some.inj heq))
  exact nodup_map_stamp hinjective
    (fun index obj hentry ↦ (hs.inv.committed index _ hentry).version) h.snapshot revision

omit [Resource K] in
theorem taken_concat_error (items : List (Except Error K)) (err : Error) :
    taken (items ++ [.error err]) = taken items := by
  induction items with
  | nil => rfl
  | cons item items ih =>
    cases item with
    | error err' => rfl
    | ok obj => exact congrArg (obj :: ·) ih

omit [Resource K] in
/-- What comes behind an error makes no difference. -/
theorem taken_concat_of_error {items : List (Item K)} (h : ¬ ∀ item ∈ items, item.IsOk)
    (more : List (Item K)) :
    taken ((items ++ more).flatMap (EventFlatten.flattenItem false)) =
      taken (items.flatMap (EventFlatten.flattenItem false)) := by
  induction items with
  | nil => exact absurd (by simp) h
  | cons item items ih =>
    cases item with
    | error err => rfl
    | ok event =>
      have hitems : ¬ ∀ item ∈ items, item.IsOk := fun hok ↦
        h (List.forall_mem_cons.mpr ⟨⟨event, rfl⟩, hok⟩)
      rw [List.cons_append, List.flatMap_cons, List.flatMap_cons]
      have hevent : EventFlatten.flattenItem false (.ok event : Item K) =
          event.intoIterApplied.map .ok := rfl
      rw [hevent, taken_map_ok, taken_map_ok, ih hitems]

theorem taken_nodup {versions : Versions} {lp : ListParams} {s : Session K}
    (h : s.Reaches versions lp) :
    ((taken (s.items.flatMap (EventFlatten.flattenItem false))).map versionOf).Nodup := by
  have huninterrupted : ∀ t : Session K, t.Reaches versions lp → (∀ item ∈ t.items, item.IsOk) →
      ((taken (t.items.flatMap (EventFlatten.flattenItem false))).map versionOf).Nodup := by
    intro t ht hok
    rcases eq_or_ne t.items [] with hnil | hne
    · simp [hnil, taken]
    · obtain ⟨objs, listed, revision, hu⟩ := ht.uninterrupted hok hne
      rw [hu.taken_eq]
      exact hu.nodup ht
  obtain ⟨log, hlog, hrun⟩ := h
  induction hrun with
  | refl => simp [Session.init, taken]
  | @tail middle _ hbefore hstep ih =>
    cases hstep with
    | commit entry hentry => exact ih
    | poll api item state hserves hstep =>
      by_cases hok : ∀ item ∈ middle.items, item.IsOk
      · cases item with
        | none => simpa using ih
        | some item =>
          cases item with
          | error err =>
            have hlast : [(.error err : Item K)].flatMap (EventFlatten.flattenItem false) =
                [.error err] := rfl
            rw [polled_items, Option.toList_some, List.flatMap_append, hlast, taken_concat_error]
            exact ih
          | ok event =>
            apply huninterrupted _ ⟨log, hlog, hbefore.tail (.poll api _ state hserves hstep)⟩
            intro other hother
            rw [polled_items, Option.toList_some, List.mem_append, List.mem_singleton] at hother
            rcases hother with hold | rfl
            · exact hok other hold
            · exact ⟨event, rfl⟩
      · rw [polled_items, taken_concat_of_error hok]
        exact ih

/-- The stream of the run above, once with nothing to say. -/
def demoStream : List (Poll (Item ObjectMeta)) :=
  [.ready (some (.ok (.restarted [demoObject]))), .pending, .ready (some (.ok (.applied otherObject)))]

/-- In every run, and whenever the flattened stream is polled, its consumer sees no version of an
object twice before the first error. -/
theorem applied_once {versions : Versions} {lp : ListParams} {s : Session K}
    (h : s.Reaches versions lp) {stream : List (Poll (Item K))} (hstream : yielded stream = s.items)
    (n : ℕ) :
    ((taken (yielded (EventFlatten.polls false n [] stream).1)).map versionOf).Nodup := by
  have hprefix := EventFlatten.polls_begin false n stream
  rw [hstream] at hprefix
  exact (taken_nodup h).sublist ((taken_mono hprefix).map versionOf).sublist

theorem applied_once_demo :
    ((taken (yielded (EventFlatten.polls false 2 [] demoStream).1)).map versionOf).Nodup :=
  applied_once demoSession_reaches rfl 2

/-- In every run without an error so far, once there was a list, the consumer that has polled what
there is has seen each object of the collection last in the version that it has at the revision the
watcher goes on from. -/
theorem applied_latest {versions : Versions} {lp : ListParams} {s : Session K}
    (h : s.Reaches versions lp) (hok : ∀ item ∈ s.items, item.IsOk) (hne : s.items ≠ [])
    {stream : List (Poll (Item K))} (hstream : yielded stream = s.items) {n : ℕ}
    (hn : EventFlatten.work [] stream ≤ n) :
    ∃ revision ≤ s.log.length,
      (∀ version ∈ s.state.resourceVersion, version = versions.version revision) ∧
      ∀ key obj, stateAt ObjectRef.fromObj s.log revision key = some obj →
        ((taken (yielded (EventFlatten.polls false n [] stream).1)).filter
          fun other ↦ ObjectRef.fromObj other = key).getLast? = some obj := by
  obtain ⟨objs, listed, revision, hu⟩ := h.uninterrupted hok hne
  refine ⟨revision, hu.length, hu.version, fun key obj hobj ↦ ?_⟩
  rw [EventFlatten.polls_all hn, hstream, hu.taken_eq]
  rw [stateAt_eq_replay hu.le] at hobj
  exact getLast?_of_replay hu.snapshot (fun key obj h ↦ key_of_stateAt h) hobj

theorem applied_latest_demo :
    ∃ revision ≤ demoSession.log.length,
      (∀ version ∈ demoSession.state.resourceVersion, version = unaryVersions.version revision) ∧
      ∀ key obj, stateAt ObjectRef.fromObj demoSession.log revision key = some obj →
        ((taken (yielded (EventFlatten.polls false 4 [] demoStream).1)).filter
          fun other ↦ ObjectRef.fromObj other = key).getLast? = some obj :=
  applied_latest demoSession_reaches (by simp [demoSession, sessionOf, Item.IsOk])
    (by simp [demoSession, sessionOf]) rfl (by decide)

end EbpfPlayground.Kube
