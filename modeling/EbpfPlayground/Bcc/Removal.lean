import EbpfPlayground.Bcc.Turns

/-!
# Entries of deleted pods

The type of a deletion is `DELETED`, and the watcher tests for `REMOVED`.  So an entry goes only if
the pod is modified once more, with its first container ready and started, at a time when the pod
that is read again has a deletion timestamp.  A pod that is deleted without such an event leaves its
entry behind.
-/

namespace EbpfPlayground.Bcc

open CString Python Text Run

/-- The event passes all guards for a container with this key, and its type is one that installs an
entry. -/
def Installs (key : UInt64) (turn : WatchEnv × WatchEvent) : Prop :=
  ∃ v1Pod trigger cgroupId g, Handled turn.1 turn.2 v1Pod trigger cgroupId ∧ turn.2.Adds v1Pod ∧
    parseInt cgroupId = .ok g ∧ mapKey g = key

/-- The same, with a type and a timestamp that remove the entry. -/
def Releases (key : UInt64) (turn : WatchEnv × WatchEvent) : Prop :=
  ∃ v1Pod trigger cgroupId g, Handled turn.1 turn.2 v1Pod trigger cgroupId ∧
    turn.2.Removes v1Pod ∧ parseInt cgroupId = .ok g ∧ mapKey g = key

/-- The container with this cgroup id is one that the event's pod has. -/
def HasContainer (turn : WatchEnv × WatchEvent) (g : ℕ) : Prop :=
  ∃ css, turn.2.object.containerStatuses = some css ∧ ∃ cs ∈ css, ∃ cid,
    cidOf cs.containerId = .ok cid ∧ cgroupPath turn.1 cid ≠ [] ∧
      parseInt (strip (turn.1.ls (cgroupPath turn.1 cid))) = .ok g

/-- After each `DELETED` event, the map has no entry for a container that the deleted pod had in
this or an earlier event. -/
def Cleared {Uid : Type} (uid : V1Pod → Uid) (turns : List (WatchEnv × WatchEvent)) : Prop :=
  ∀ before deleted after rcMap, turns = before ++ deleted :: after →
    deleted.2.type = "DELETED".toList → run watchStep .empty (before ++ [deleted]) = some rcMap →
    ∀ turn ∈ before ++ [deleted], uid turn.2.object = uid deleted.2.object →
      ∀ g, HasContainer turn g → rcMap.lookup (mapKey g) = none

/-- Before each `DELETED` event, whatever installed an entry for a container of the deleted pod was
followed by an event that removes it. -/
def ReleasedInTime {Uid : Type} (uid : V1Pod → Uid) (turns : List (WatchEnv × WatchEvent)) : Prop :=
  ∀ before deleted after, turns = before ++ deleted :: after → deleted.2.type = "DELETED".toList →
    ∀ turn ∈ before ++ [deleted], uid turn.2.object = uid deleted.2.object →
      ∀ g, HasContainer turn g →
        Undone (Installs (mapKey g)) (Releases (mapKey g)) (before ++ [deleted])

/-! ## One turn -/

section

variable {turn : WatchEnv × WatchEvent} {key : UInt64} {rcMap rcMap' : ResizeContainersMap}

theorem installs_iff (h : ¬ Raises (watchEvent turn.1 turn.2)) :
    Installs key turn ↔
      ∃ g cmd, watchEvent turn.1 turn.2 = .ok (some (.insert g cmd)) ∧ mapKey g = key := by
  constructor
  · rintro ⟨v1Pod, trigger, cgroupId, g, hhandled, hadds, hint, hkey⟩
    rw [hhandled.watchEvent, opFor_of_adds hadds, raises_bind, not_or] at h
    cases hcmd : resizeCmd turn.1.py trigger with
    | error e => exact absurd ⟨e, hcmd⟩ h.1
    | ok cmd =>
      refine ⟨g, cmd, ?_, hkey⟩
      rw [hhandled.watchEvent, opFor_eq_insert]
      exact ⟨hadds, hcmd, hint⟩
  · rintro ⟨g, cmd, hop, hkey⟩
    obtain ⟨v1Pod, trigger, cgroupId, hhandled, hinsert⟩ := watchEvent_eq_some.mp hop
    obtain ⟨hadds, -, hint⟩ := opFor_eq_insert.mp hinsert
    exact ⟨v1Pod, trigger, cgroupId, g, hhandled, hadds, hint, hkey⟩

theorem releases_iff :
    Releases key turn ↔
      ∃ g, watchEvent turn.1 turn.2 = .ok (some (.delete g)) ∧ mapKey g = key := by
  constructor
  · rintro ⟨v1Pod, trigger, cgroupId, g, hhandled, hremoves, hint, hkey⟩
    refine ⟨g, ?_, hkey⟩
    rw [hhandled.watchEvent, opFor_eq_delete]
    exact ⟨hremoves, hint⟩
  · rintro ⟨g, hop, hkey⟩
    obtain ⟨v1Pod, trigger, cgroupId, hhandled, hdelete⟩ := watchEvent_eq_some.mp hop
    obtain ⟨hremoves, hint⟩ := opFor_eq_delete.mp hdelete
    exact ⟨v1Pod, trigger, cgroupId, g, hhandled, hremoves, hint, hkey⟩

/-- No event does both. -/
theorem Installs.not_releases (h : Installs key turn) : ¬ Releases key turn := by
  intro hreleases
  obtain ⟨g, hdelete, -⟩ := releases_iff.mp hreleases
  have hnot : ¬ Raises (watchEvent turn.1 turn.2) := by
    rw [hdelete]
    exact not_raises_ok _
  obtain ⟨g', cmd, hinsert, -⟩ := (installs_iff hnot).mp h
  rw [hdelete] at hinsert
  cases hinsert

/-- What one turn does to the entry of a key. -/
theorem lookup_watchStep (h : watchStep rcMap turn = some rcMap') :
    rcMap'.lookup key = none ↔
      Releases key turn ∨ ¬ Installs key turn ∧ rcMap.lookup key = none := by
  rw [installs_iff (not_raises_of_watchStep h), releases_iff]
  rw [watchStep] at h
  cases hop : watchEvent turn.1 turn.2 with
  | error e =>
    rw [hop] at h
    cases h
  | ok op =>
    rw [hop] at h
    cases op with
    | none =>
      obtain rfl := Option.some.inj h
      simp
    | some op =>
      cases op with
      | insert g cmd =>
        rw [lookup_applyOp_insert h]
        simp only [Except.ok.injEq, Option.some.injEq, reduceCtorEq, false_and, exists_false,
          false_or, MapOp.insert.injEq]
        by_cases hkey : key = mapKey g
        · rw [if_pos hkey]
          refine iff_of_false (Option.some_ne_none _) fun hnone ↦ hnone.1 ⟨g, cmd, ⟨rfl, rfl⟩, hkey.symm⟩
        · rw [if_neg hkey]
          refine (and_iff_right ?_).symm
          rintro ⟨_, _, ⟨rfl, -⟩, heq⟩
          exact hkey heq.symm
      | delete g =>
        rw [lookup_applyOp_delete h]
        simp only [Except.ok.injEq, Option.some.injEq, reduceCtorEq, false_and, exists_false,
          not_false_eq_true, true_and, MapOp.delete.injEq, exists_eq_left']
        by_cases hkey : key = mapKey g
        · rw [if_pos hkey]
          exact iff_of_true rfl (.inl hkey.symm)
        · rw [if_neg hkey]
          exact (or_iff_right (Ne.symm hkey)).symm

end

/-! ## Runs -/

/-- A key has no entry exactly when each event that installed one was followed by one that removes
it. -/
theorem lookup_eq_none_iff {turns : List (WatchEnv × WatchEvent)} {rcMap : ResizeContainersMap}
    (h : run watchStep .empty turns = some rcMap) (key : UInt64) :
    rcMap.lookup key = none ↔ Undone (Installs key) (Releases key) turns := by
  induction turns using List.reverseRecOn generalizing rcMap with
  | nil =>
    obtain rfl : BoundedMap.empty = rcMap := Option.some.inj h
    exact iff_of_true (BoundedMap.lookup_empty key) (undone_nil _ _)
  | append_singleton turns turn ih =>
    obtain ⟨before, hbefore, hstep⟩ := run_concat_eq_some.mp h
    rw [lookup_watchStep hstep, ih hbefore,
      undone_concat (fun turn (hturn : Installs key turn) ↦ hturn.not_releases)]

/-- The pod is added; it is modified while it is being deleted, with its container still ready; and
it is deleted, with its container no longer ready. -/
def gracefulTurns : List (WatchEnv × WatchEvent) :=
  [demoTurnOf "ADDED".toList (demoV1Pod (demoAnnotations "[\"make\"]".toList) none true),
    demoTurnOf "MODIFIED".toList
      (demoV1Pod (demoAnnotations "[\"make\"]".toList) (some "now".toList) true),
    demoTurnOf "DELETED".toList
      (demoV1Pod (demoAnnotations "[\"make\"]".toList) (some "now".toList) false)]

/-- The pod is deleted without being modified before. -/
def forcedTurns : List (WatchEnv × WatchEvent) :=
  [demoTurnOf "ADDED".toList (demoV1Pod (demoAnnotations "[\"make\"]".toList) none true),
    demoTurnOf "DELETED".toList
      (demoV1Pod (demoAnnotations "[\"make\"]".toList) (some "now".toList) false)]

theorem eq_of_hasContainer_demo {type : Text} {annotations : List (Text × Text)}
    {deletionTimestamp : Option Text} {ready : Bool} {g : ℕ}
    (h : HasContainer (demoTurnOf type (demoV1Pod annotations deletionTimestamp ready)) g) :
    g = 4242 := by
  obtain ⟨css, ⟨⟩, cs, hcs, cid, hcid, -, hint⟩ := h
  rw [List.mem_singleton] at hcs
  subst hcs
  have hid : cidOf (some "containerd://4242".toList) = .ok "4242".toList := by decide +kernel
  obtain rfl : "4242".toList = cid := Except.ok.inj (hid.symm.trans hcid)
  have hls : parseInt (strip ((demoWatchEnv none).ls (cgroupPath (demoWatchEnv none) "4242".toList))) =
      .ok 4242 := by
    decide +kernel
  exact (Except.ok.inj (hls.symm.trans hint)).symm

end EbpfPlayground.Bcc
