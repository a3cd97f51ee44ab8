import EbpfPlayground.CoRe.Updates

/-!
# Lists of pods that are delivered again

After a restart the watcher gets every pod again, in any order.  The version of a pod that was
handled last has left its updates settled in the map: the last command of each container is there,
or the map was full and refused the key.  Updates of other pods are for other cgroups, so they
change neither, and handling the version once more is a no-op.
-/

namespace EbpfPlayground.CoRe

open BoundedMap

/-- A sequence of calls of `handle_k8s_pod`; `none` where one of them panics. -/
def handlePods (env : Env) : List Pod → ResizeContainersMap → Option ResizeContainersMap
  | [], rcMap => some rcMap
  | p :: pods, rcMap =>
    match handleK8sPod env p rcMap with
    | (_, .panic _) => none
    | (rcMap', _) => handlePods env pods rcMap'

/-- The cgroup ids of all containers of a pod. -/
def Pod.cgroupIds (env : Env) (p : Pod) : List UInt64 :=
  (p.statuses.filterMap ContainerStatus.containerId).filterMap fun cid ↦
    (containerCgroupId env cid).toOption

/-- No container of one pod has the cgroup id of a container of the other. -/
def Pod.Apart (env : Env) (p p' : Pod) : Prop :=
  ∀ cgroupId ∈ p.cgroupIds env, cgroupId ∉ p'.cgroupIds env

instance (env : Env) (p p' : Pod) : Decidable (p.Apart env p') :=
  List.decidableBAll (fun cgroupId ↦ cgroupId ∉ p'.cgroupIds env) (p.cgroupIds env)

/-- A version of the pod with this identity. -/
structure Version (Uid : Type) where
  uid : Uid
  pod : Pod

/-- Containers of different pods have different cgroup ids. -/
def DistinctContainers {Uid : Type} (env : Env) (history : List (Version Uid)) : Prop :=
  ∀ version ∈ history, ∀ version' ∈ history, version.uid ≠ version'.uid →
    version.pod.Apart env version'.pod

instance {Uid : Type} [DecidableEq Uid] (env : Env) (history : List (Version Uid)) :
    Decidable (DistinctContainers env history) :=
  inferInstanceAs (Decidable (∀ version ∈ history, ∀ version' ∈ history, _))

/-- No later version of the same pod has been handled. -/
def Latest {Uid : Type} (history : List (Version Uid)) (version : Version Uid) : Prop :=
  ∃ before after, history = before ++ version :: after ∧
    ∀ version' ∈ after, version'.uid ≠ version.uid

variable {Uid : Type} {env : Env}

/-! ## Sequences of calls as sequences of updates -/

/-- Calls of which none panics perform the updates of all the pods. -/
theorem handlePods_eq_some {pods : List Pod} {rcMap rcMap' : ResizeContainersMap} :
    handlePods env pods rcMap = some rcMap' ↔
      (∀ p ∈ pods, ∀ cause, podOutcome env p ≠ .panic cause) ∧
        rcMap.putAll (pods.map (podUpdates env)).flatten = rcMap' := by
  induction pods generalizing rcMap with
  | nil => simp [handlePods]
  | cons p pods ih =>
    rw [handlePods, handleK8sPod_eq, List.forall_mem_cons, List.map_cons, List.flatten_cons,
      putAll_append]
    cases houtcome : podOutcome env p with
    | panic cause => simp
    | ok => simp [ih]
    | err => simp [ih]

/-- A pod asks for updates under the cgroup ids of its own containers. -/
theorem keys_podUpdates_subset {p : Pod} {cgroupId : UInt64}
    (h : cgroupId ∈ (podUpdates env p).map Prod.fst) : cgroupId ∈ p.cgroupIds env := by
  rw [List.mem_map] at h
  obtain ⟨entry, hentry, rfl⟩ := h
  obtain ⟨-, ⟨cs, hcs, -, cid, hid, hgroup⟩, -⟩ := requests_of_mem_podUpdates hentry
  rw [Pod.cgroupIds, List.mem_filterMap]
  refine ⟨cid, List.mem_filterMap.mpr ⟨cs, hcs, hid⟩, ?_⟩
  rw [hgroup]
  rfl

/-- The updates of pods that are apart are for different keys. -/
theorem Pod.Apart.keys_disjoint {p p' : Pod} (h : p.Apart env p') :
    ∀ key ∈ (podUpdates env p).map Prod.fst, key ∉ (podUpdates env p').map Prod.fst :=
  fun key hkey hmem ↦ h key (keys_podUpdates_subset hkey) (keys_podUpdates_subset hmem)

/-! ## Handling the latest versions again -/

/-- The updates of the latest version of a pod are settled. -/
theorem settled_of_latest {history : List (Version Uid)} {version : Version Uid}
    {rcMap rcMap' : ResizeContainersMap} (hdistinct : DistinctContainers env history)
    (hrun : handlePods env (history.map Version.pod) rcMap = some rcMap')
    (hlatest : Latest history version) : rcMap'.Settled (podUpdates env version.pod) := by
  obtain ⟨before, after, rfl, hafter⟩ := hlatest
  obtain ⟨-, hmap⟩ := handlePods_eq_some.mp hrun
  simp only [List.map_append, List.map_cons, List.flatten_append, List.flatten_cons,
    putAll_append] at hmap
  rw [← hmap]
  refine (settled_putAll _ _).putAll fun key hkey hmem ↦ ?_
  -- A later update of this key would be one of another pod.
  rw [List.mem_map] at hmem
  obtain ⟨entry, hentry, rfl⟩ := hmem
  simp only [List.mem_flatten, List.mem_map] at hentry
  obtain ⟨_, ⟨_, ⟨version', hversion', rfl⟩, rfl⟩, hmem⟩ := hentry
  have happart : version.pod.Apart env version'.pod :=
    hdistinct version (by simp) version' (by simp [hversion']) (hafter version' hversion').symm
  exact happart.keys_disjoint entry.1 hkey (List.mem_map_of_mem hmem)

/-- Pods whose updates are settled may be handled in any order and number. -/
theorem handlePods_of_settled {pods : List Pod} {rcMap : ResizeContainersMap}
    (houtcome : ∀ p ∈ pods, ∀ cause, podOutcome env p ≠ .panic cause)
    (hsettled : ∀ p ∈ pods, rcMap.Settled (podUpdates env p)) :
    handlePods env pods rcMap = some rcMap := by
  rw [handlePods_eq_some, and_iff_right houtcome]
  clear houtcome
  induction pods with
  | nil => rfl
  | cons p pods ih =>
    rw [List.forall_mem_cons] at hsettled
    rw [List.map_cons, List.flatten_cons, putAll_append, putAll_of_settled hsettled.1]
    exact ih hsettled.2

/-- Pods that are apart from each other give the same map in every order. -/
theorem handlePods_perm {pods pods' : List Pod} (hperm : pods.Perm pods')
    (happart : pods.Pairwise (Pod.Apart env)) {rcMap rcMap' : ResizeContainersMap}
    (haccepts : rcMap.AcceptsAll (pods.map (podUpdates env)).flatten)
    (hrun : handlePods env pods rcMap = some rcMap') : handlePods env pods' rcMap = some rcMap' := by
  obtain ⟨houtcome, hmap⟩ := handlePods_eq_some.mp hrun
  have hblocks : (pods.map (podUpdates env)).Pairwise fun block block' ↦
      ∀ key ∈ block.map Prod.fst, key ∉ block'.map Prod.fst :=
    happart.map _ fun p p' h ↦ h.keys_disjoint
  rw [handlePods_eq_some, (putAll_flatten_perm (hperm.map _) hblocks haccepts).1]
  exact ⟨fun p hp ↦ houtcome p (hperm.mem_iff.mpr hp), hmap⟩

/-- After any history of calls without a panic, handling latest versions again in any order and
number leaves the map as it is; and new pods give the same map in every order if none of their
updates is refused. -/
theorem relist_noop (env : Env) (history : List (Version Uid)) (rcMap : ResizeContainersMap)
    (hdistinct : DistinctContainers env history)
    (hrun : handlePods env (history.map Version.pod) .empty = some rcMap) :
    (∀ relist : List (Version Uid), (∀ version ∈ relist, Latest history version) →
      handlePods env (relist.map Version.pod) rcMap = some rcMap) ∧
    ∀ (fresh fresh' : List Pod) (rcMap' : ResizeContainersMap), fresh.Perm fresh' →
      fresh.Pairwise (Pod.Apart env) → rcMap.AcceptsAll (fresh.map (podUpdates env)).flatten →
      handlePods env fresh rcMap = some rcMap' → handlePods env fresh' rcMap = some rcMap' := by
  refine ⟨fun relist hlatest ↦ ?_, fun fresh fresh' rcMap' hperm happart haccepts hfresh ↦
    handlePods_perm hperm happart haccepts hfresh⟩
  apply handlePods_of_settled
  · intro p hp
    obtain ⟨version, hversion, rfl⟩ := List.mem_map.mp hp
    obtain ⟨before, after, rfl, -⟩ := hlatest version hversion
    exact (handlePods_eq_some.mp hrun).1 version.pod (by simp)
  · intro p hp
    obtain ⟨version, hversion, rfl⟩ := List.mem_map.mp hp
    exact settled_of_latest hdistinct hrun (hlatest version hversion)

/-- Two pods, the first in two versions. -/
def demoVersions : List (Version ℕ) :=
  [⟨0, demoPod (demoAnnotations "[\"make\"]".toList) "7".toList⟩,
    ⟨1, demoPod (demoAnnotations "[\"ld\"]".toList) "8".toList⟩,
    ⟨0, demoPod (demoAnnotations "[\"make\",\"gcc\"]".toList) "7".toList⟩]

/-- They are listed again in another order and with a repetition, and two new pods are handled in
both orders. -/
theorem relist_noop_demo :
    ∃ rcMap rcMap', handlePods demoEnv (demoVersions.map Version.pod) .empty = some rcMap ∧
      handlePods demoEnv [demoPod (demoAnnotations "[\"make\",\"gcc\"]".toList) "7".toList,
        demoPod (demoAnnotations "[\"ld\"]".toList) "8".toList,
        demoPod (demoAnnotations "[\"make\",\"gcc\"]".toList) "7".toList] rcMap = some rcMap ∧
      handlePods demoEnv [demoPod (demoAnnotations "[\"ld\"]".toList) "9".toList,
        demoPod (demoAnnotations "[\"make\"]".toList) "10".toList] rcMap = some rcMap' ∧
      handlePods demoEnv [demoPod (demoAnnotations "[\"make\"]".toList) "10".toList,
        demoPod (demoAnnotations "[\"ld\"]".toList) "9".toList] rcMap = some rcMap' := by
  set gcc := demoPod (demoAnnotations "[\"make\",\"gcc\"]".toList) "7".toList with hgcc
  set ld := demoPod (demoAnnotations "[\"ld\"]".toList) "8".toList with hld
  set ninth := demoPod (demoAnnotations "[\"ld\"]".toList) "9".toList with hninth
  set tenth := demoPod (demoAnnotations "[\"make\"]".toList) "10".toList with htenth
  have hcard : (handlePods demoEnv (demoVersions.map Version.pod) .empty).map
      (fun rcMap ↦ rcMap.keys.card) = some 2 := by
    decide +kernel
  obtain ⟨rcMap, hrun, hkeys⟩ := Option.map_eq_some_iff.mp hcard
  have hrelist := relist_noop demoEnv demoVersions rcMap (by decide +kernel) hrun
  have hnew : ∀ p ∈ [ninth, tenth], podOutcome demoEnv p = .ok := by
    rw [hninth, htenth]
    decide +kernel
  have hlength : ([ninth, tenth].map (podUpdates demoEnv)).flatten.length = 2 := by
    rw [hninth, htenth]
    decide +kernel
  have haccepts : rcMap.AcceptsAll ([ninth, tenth].map (podUpdates demoEnv)).flatten := by
    apply acceptsAll_of_length_le
    rw [hkeys, hlength]
    decide
  have hfresh : handlePods demoEnv [ninth, tenth] rcMap =
      some (rcMap.putAll ([ninth, tenth].map (podUpdates demoEnv)).flatten) := by
    rw [handlePods_eq_some]
    refine ⟨fun p hp cause ↦ ?_, rfl⟩
    rw [hnew p hp]
    exact Outcome.noConfusion
  have happart : [ninth, tenth].Pairwise (Pod.Apart demoEnv) := by
    rw [hninth, htenth]
    decide +kernel
  refine ⟨rcMap, _, hrun, ?_, hfresh, ?_⟩
  · refine hrelist.1 [⟨0, gcc⟩, ⟨1, ld⟩, ⟨0, gcc⟩] ?_
    have hlatestGcc : Latest demoVersions ⟨0, gcc⟩ := ⟨demoVersions.take 2, [], rfl, by simp⟩
    have hlatestLd : Latest demoVersions ⟨1, ld⟩ :=
      ⟨demoVersions.take 1, [⟨0, gcc⟩], rfl, by simp⟩
    intro version hversion
    simp only [List.mem_cons, List.not_mem_nil, or_false] at hversion
    rcases hversion with rfl | rfl | rfl
    · exact hlatestGcc
    · exact hlatestLd
    · exact hlatestGcc
  · exact hrelist.2 [ninth, tenth] [tenth, ninth] _ (List.Perm.swap _ _ _) happart haccepts hfresh

end EbpfPlayground.CoRe
