import EbpfPlayground.CoRe.Isolation
import EbpfPlayground.Kube.AppliedObjects

/-!
# The daemon on a watcher's stream

`load_ebpf_tracer_and_watch_k8s_pods` reads `watcher(api, lp).applied_objects()` with `try_next`.
The stream of its transition system is what that adapter yields, and the loop is followed from the
API server's log to the map.
-/

namespace EbpfPlayground.CoRe

open ChangeLog Kube

/-- A pod with the metadata that the watcher reads. -/
structure PodObject where
  pod : Pod
  resourceVersion : Option Text
  uid : Option Text

instance : Resource PodObject where
  metadata obj :=
    { name := some obj.pod.name
      ns := some obj.pod.ns
      resourceVersion := obj.resourceVersion
      uid := obj.uid }

theorem fromObj_eq_of_key {obj other : PodObject} (h : other.pod.key = obj.pod.key) :
    ObjectRef.fromObj other = ObjectRef.fromObj obj := by
  obtain ⟨hns, hname⟩ := Prod.mk.inj h
  simp [ObjectRef.fromObj, Resource.metadata, hns, hname]

/-- What `try_next` returns, as the daemon's transition system has it. -/
def streamItem : Except Kube.Error PodObject → StreamItem
  | .ok obj => .pod obj.pod
  | .error _ => .error

/-- A well-formed pod that the loop reaches has an entry when the loop has read everything. -/
theorem WellFormed.mem_keys_watchLoop {before after : List (Env × StreamItem)} {env : Env} {p : Pod}
    {cgroupId : UInt64} (hformed : WellFormed env p cgroupId)
    (hbefore : ∀ turn ∈ before, Harmless turn) (hp : ¬ Aborts env p)
    {rcMap : ResizeContainersMap}
    (hroom : (watchLoop before rcMap).1.AcceptsAll (podUpdates env p)) :
    cgroupId ∈ (watchLoop (before ++ (env, .pod p) :: after) rcMap).1.keys := by
  rw [watchLoop_append rcMap hbefore, watchLoop_cons_pod env p after _ hp]
  apply keys_subset_watchLoop
  obtain ⟨value, -, hlookup⟩ := BoundedMap.lookup_putAll_of_mem
    (fun first value rest hsplit ↦ hroom first (cgroupId, value) rest hsplit)
    hformed.mem_podUpdates
  exact BoundedMap.mem_keys.mpr ⟨value, hlookup⟩

/-- In every run of the watcher against the API server without an error so far, once there was a list
and if no pod makes the daemon panic: the loop has read everything and gone on, each pod of the
cluster as of the revision the watcher goes on from was handled in just that version and in no other
one after it, and a well-formed pod has its entry in the map unless the map refused it. -/
theorem cluster_handled {versions : Versions} {lp : ListParams} {s : Session PodObject}
    (h : s.Reaches versions lp) (hok : ∀ item ∈ s.items, item.IsOk) (hne : s.items ≠ [])
    (stream : List (Kube.Poll (Kube.Item PodObject))) (hstream : yielded stream = s.items) {n : ℕ}
    (hn : EventFlatten.work [] stream ≤ n) {turns : List (Env × StreamItem)}
    (hturns : turns.map Prod.snd =
      (yielded (EventFlatten.polls false n [] stream).1).map streamItem)
    (hharmless : ∀ turn ∈ turns, Harmless turn) :
    (watchLoop turns .empty).2 = .ok ∧ ∃ revision ≤ s.log.length,
      (∀ version ∈ s.state.resourceVersion, version = versions.version revision) ∧
      ∀ key obj, stateAt ObjectRef.fromObj s.log revision key = some obj →
        ∃ before env after, turns = before ++ (env, .pod obj.pod) :: after ∧
          (∀ turn ∈ after, ∀ p, turn.2 = .pod p → p.key ≠ obj.pod.key) ∧
          ∀ cgroupId, WellFormed env obj.pod cgroupId →
            (watchLoop before .empty).1.AcceptsAll (podUpdates env obj.pod) →
              cgroupId ∈ (watchLoop turns .empty).1.keys := by
  obtain ⟨objs, listed, revision, hu⟩ := h.uninterrupted hok hne
  refine ⟨watchLoop_eq_ok.mpr hharmless, revision, hu.length, hu.version, fun key obj hobj ↦ ?_⟩
  have hkey : ObjectRef.fromObj obj = key := key_of_stateAt hobj
  have hread : turns.map Prod.snd = (objs ++ puts (window s.log listed revision)).map
      fun obj ↦ .pod obj.pod := by
    rw [hturns, EventFlatten.polls_all hn, hstream, hu.items, flatMap_flattenItem, List.map_map]
    rfl
  rw [stateAt_eq_replay hu.le] at hobj
  have hlast := getLast?_of_replay hu.snapshot (fun key obj h ↦ key_of_stateAt h) hobj
  obtain ⟨first, second, hsplit, hsecond⟩ := exists_split_of_getLast?_filter hlast
  rw [hsplit, List.map_append, List.map_eq_append_iff] at hread
  obtain ⟨before, rest, rfl, -, hrest⟩ := hread
  obtain ⟨turn, after, rfl, hturn, hafter⟩ := List.map_eq_cons_iff.mp hrest
  obtain ⟨env, item⟩ := turn
  obtain rfl : item = .pod obj.pod := hturn
  refine ⟨before, env, after, rfl, ?_, fun cgroupId hformed hroom ↦ ?_⟩
  · intro turn hmem p hp hpkey
    have hitem : turn.2 ∈ after.map Prod.snd := List.mem_map_of_mem hmem
    rw [hafter, hp] at hitem
    obtain ⟨other, hother, heq⟩ := List.mem_map.mp hitem
    obtain rfl : other.pod = p := StreamItem.pod.inj heq
    apply hsecond other hother
    rw [← hkey, decide_eq_true_iff]
    exact fromObj_eq_of_key hpkey
  · exact hformed.mem_keys_watchLoop (fun turn hturn ↦ hharmless turn (List.mem_append_left _ hturn))
      (hharmless _ (List.mem_append_right _ List.mem_cons_self)) hroom

def demoPodObject : PodObject where
  pod := demoPod (demoAnnotations "[\"make\"]".toList) "4242".toList
  resourceVersion := some ['1']
  uid := none

/-- The same pod with another command in its annotation. -/
def updatedPodObject : PodObject where
  pod := demoPod (demoAnnotations "[\"gcc\"]".toList) "4242".toList
  resourceVersion := some ['1', '1']
  uid := none

theorem cluster_handled_demo :
    (watchLoop [(demoEnv, .pod demoPodObject.pod), (demoEnv, .pod updatedPodObject.pod)] .empty).2 =
      .ok := by
  have hreach : (sessionOf demoPodObject updatedPodObject).Reaches unaryVersions .default :=
    sessionOf_reaches ⟨rfl, rfl⟩ ⟨rfl, rfl⟩
  have hharmless : ∀ turn ∈ [(demoEnv, StreamItem.pod demoPodObject.pod),
      (demoEnv, StreamItem.pod updatedPodObject.pod)], Harmless turn := by
    have hpod : ∀ p, podOutcome demoEnv p = .ok → Harmless (demoEnv, .pod p) := by
      intro p hok haborts
      obtain ⟨cause, hcause⟩ := haborts.podOutcome_eq_panic
      rw [hok] at hcause
      cases hcause
    rw [List.forall_mem_cons, List.forall_mem_singleton]
    exact ⟨hpod _ (by decide +kernel), hpod _ (by decide +kernel)⟩
  exact (cluster_handled hreach (by simp [sessionOf, Item.IsOk]) (by simp [sessionOf])
    [.ready (some (.ok (.restarted [demoPodObject]))), .ready (some (.ok (.applied updatedPodObject)))]
    rfl (n := 3) (by decide) rfl hharmless).1

end EbpfPlayground.CoRe
