import EbpfPlayground.Bcc.Turns

/-!
# What ends the watcher

Only the deletion of an entry stands in a `try` block, so any other exception leaves the loop and
ends the process that watches the node.  The events that do so are listed; the rest of the loop's
turns go through, and every pod whose annotation is in order gets its entry.
-/

namespace EbpfPlayground.Bcc

open CString Python Text Run

/-- The turns that raise. -/
inductive Kills (rcMap : ResizeContainersMap) (turn : WatchEnv × WatchEvent) : Prop
  | stuck (h : Stuck turn.1 turn.2)
  /-- The first command is no string, or has no UTF-8, or does not fit the buffer as a C string. -/
  | command (v1Pod : V1Pod) (trigger : Json) (cgroupId : Text)
      (hhandled : Handled turn.1 turn.2 v1Pod trigger cgroupId) (hadds : turn.2.Adds v1Pod)
      (hcommand : ∀ text, trigger = .str text → (∃ c ∈ text, turn.1.py.isSurrogate c = true) ∨
        bufSize < (cstr (asBytes text)).length)
  /-- `ls` prints no number for the cgroup directory. -/
  | cgroupId (v1Pod : V1Pod) (trigger : Json) (cgroupId : Text)
      (hhandled : Handled turn.1 turn.2 v1Pod trigger cgroupId)
      (hacts : turn.2.Adds v1Pod ∨ turn.2.Removes v1Pod) (hint : Raises (parseInt cgroupId))
  /-- The map is full. -/
  | full (v1Pod : V1Pod) (trigger : Json) (cgroupId : Text) (g : ℕ)
      (hhandled : Handled turn.1 turn.2 v1Pod trigger cgroupId) (hadds : turn.2.Adds v1Pod)
      (hint : parseInt cgroupId = .ok g) (hrefused : ¬ rcMap.Accepts (mapKey g))

/-- The event is `ADDED` or `MODIFIED` and its first container is ready; the pod still exists and is
not being deleted, the container has a cgroup directory, and the first command of the annotation is
a string that fits; the entry has it as a C string. -/
def InOrder (turn : WatchEnv × WatchEvent) (g : ℕ) (cmd : Command) : Prop :=
  ∃ v1Pod text cgroupId, Handled turn.1 turn.2 v1Pod (.str text) cgroupId ∧
    (turn.2.type = "ADDED".toList ∨ turn.2.type = "MODIFIED".toList) ∧
    v1Pod.deletionTimestamp = none ∧ parseInt cgroupId = .ok g ∧
    (∀ c ∈ text, turn.1.py.isSurrogate c = false) ∧
    ofBytes bufSize (cstr (asBytes text)) = some cmd

/-- The probe finds the command for tasks of this cgroup. -/
def HasEntry (rcMap : ResizeContainersMap) (g : ℕ) (cmd : Command) : Prop :=
  ∃ id : UInt64, id.toNat = g ∧ probeLookup rcMap id = some cmd

/-- All events are processed, and every pod that is in order gets its entry. -/
structure Outlives (rcMap : ResizeContainersMap) (turns : List (WatchEnv × WatchEvent)) : Prop where
  processed : ∃ rcMap', run watchStep rcMap turns = some rcMap'
  entry : ∀ before turn after g cmd, turns = before ++ turn :: after → InOrder turn g cmd →
    ∃ rcMap', run watchStep rcMap (before ++ [turn]) = some rcMap' ∧ HasEntry rcMap' g cmd

/-- A pod is in order, but its cgroup id is too long for the watcher's key, and there is no entry under
that id already. -/
def Misses (rcMap : ResizeContainersMap) (turn : WatchEnv × WatchEvent) : Prop :=
  ∃ g cmd, InOrder turn g cmd ∧ 2 ^ 32 ≤ g ∧ ¬ HasEntry rcMap g cmd

/-! ## One turn -/

theorem raises_resizeCmd {py : Interpreter} {trigger : Json} :
    Raises (resizeCmd py trigger) ↔ ∀ text, trigger = .str text →
      (∃ c ∈ text, py.isSurrogate c = true) ∨ bufSize < (cstr (asBytes text)).length := by
  cases trigger with
  | str text =>
    have hok : (∃ cmd, resizeCmd py (.str text) = .ok cmd) ↔
        (∀ c ∈ text, py.isSurrogate c = false) ∧ (cstr (asBytes text)).length ≤ bufSize := by
      simp only [resizeCmd_eq_ok, exists_and_left, ← Option.isSome_iff_exists, isSome_ofBytes]
    rw [raises_iff_not_exists, hok, not_and_or]
    simp
  | _ => exact iff_of_true (raises_error _) fun text h ↦ nomatch h

section

variable {rcMap rcMap' : ResizeContainersMap} {turn : WatchEnv × WatchEvent} {v1Pod : V1Pod}
  {trigger : Json} {cgroupId : Text}

/-- The tests of the type raise for a bad command or a bad number. -/
theorem raises_opFor {py : Interpreter} : Raises (opFor py turn.2 v1Pod trigger cgroupId) ↔
    turn.2.Adds v1Pod ∧ Raises (resizeCmd py trigger) ∨
      (turn.2.Adds v1Pod ∨ turn.2.Removes v1Pod) ∧ Raises (parseInt cgroupId) := by
  by_cases hadds : turn.2.Adds v1Pod
  · rw [opFor_of_adds hadds, raises_bind]
    cases hcmd : resizeCmd py trigger with
    | error e => exact iff_of_true (.inl (raises_error e)) (.inl ⟨hadds, raises_error e⟩)
    | ok cmd =>
      rw [or_iff_right (not_raises_ok cmd)]
      cases hint : parseInt cgroupId with
      | error e => exact iff_of_true ⟨cmd, rfl, raises_error e⟩ (.inr ⟨.inl hadds, raises_error e⟩)
      | ok g =>
        refine iff_of_false ?_ ?_
        · rintro ⟨_, ⟨⟩, h⟩
          exact not_raises_ok _ h
        · rintro (⟨-, h⟩ | ⟨-, h⟩)
          · exact not_raises_ok _ h
          · exact not_raises_ok _ h
  · by_cases hremoves : turn.2.Removes v1Pod
    · rw [opFor_of_removes hremoves, raises_bind]
      cases hint : parseInt cgroupId with
      | error e => exact iff_of_true (.inl (raises_error e)) (.inr ⟨.inr hremoves, raises_error e⟩)
      | ok g =>
        refine iff_of_false ?_ ?_
        · rintro (h | ⟨_, ⟨⟩, h⟩) <;> exact not_raises_ok _ h
        · rintro (⟨h, -⟩ | ⟨-, h⟩)
          · exact hadds h
          · exact not_raises_ok _ h
    · rw [opFor_of_neither hadds hremoves]
      refine iff_of_false (not_raises_ok _) ?_
      rintro (⟨h, -⟩ | ⟨h | h, -⟩)
      · exact hadds h
      · exact hadds h
      · exact hremoves h

/-- A turn gets through exactly when it is none of those that raise. -/
theorem watchStep_eq_none : watchStep rcMap turn = none ↔ Kills rcMap turn := by
  constructor
  · intro h
    rw [watchStep] at h
    cases hop : watchEvent turn.1 turn.2 with
    | error e =>
      rcases raises_watchEvent.mp ⟨e, hop⟩ with hstuck | ⟨v1Pod, trigger, cgroupId, hhandled, hraises⟩
      · exact .stuck hstuck
      · rcases raises_opFor.mp hraises with ⟨hadds, hcmd⟩ | ⟨hacts, hint⟩
        · exact .command v1Pod trigger cgroupId hhandled hadds (raises_resizeCmd.mp hcmd)
        · exact .cgroupId v1Pod trigger cgroupId hhandled hacts hint
    | ok op =>
      rw [hop] at h
      cases op with
      | none => cases h
      | some op =>
        cases op with
        | delete g => cases h
        | insert g cmd =>
          obtain ⟨v1Pod, trigger, cgroupId, hhandled, hinsert⟩ := watchEvent_eq_some.mp hop
          obtain ⟨hadds, -, hint⟩ := opFor_eq_insert.mp hinsert
          exact .full v1Pod trigger cgroupId g hhandled hadds hint (BoundedMap.update_eq_none.mp h)
  · intro h
    have hnone : Raises (watchEvent turn.1 turn.2) → watchStep rcMap turn = none := by
      rintro ⟨e, he⟩
      rw [watchStep, he]
    cases h with
    | stuck h => exact hnone h.raises
    | command v1Pod trigger cgroupId hhandled hadds hcommand =>
      apply hnone
      rw [hhandled.watchEvent, raises_opFor]
      exact .inl ⟨hadds, raises_resizeCmd.mpr hcommand⟩
    | cgroupId v1Pod trigger cgroupId hhandled hacts hint =>
      apply hnone
      rw [hhandled.watchEvent, raises_opFor]
      exact .inr ⟨hacts, hint⟩
    | full v1Pod trigger cgroupId g hhandled hadds hint hrefused =>
      cases hcmd : resizeCmd turn.1.py trigger with
      | error e =>
        apply hnone
        rw [hhandled.watchEvent, raises_opFor]
        exact .inl ⟨hadds, ⟨e, hcmd⟩⟩
      | ok cmd =>
        have hop : watchEvent turn.1 turn.2 = .ok (some (.insert g cmd)) := by
          rw [hhandled.watchEvent, opFor_eq_insert]
          exact ⟨hadds, hcmd, hint⟩
        rw [watchStep, hop]
        exact BoundedMap.update_eq_none.mpr hrefused

/-- The turn of a pod that is in order leaves its command under the low 32 bits of its cgroup id. -/
theorem InOrder.lookup {g : ℕ} {cmd : Command} (h : InOrder turn g cmd)
    (hstep : watchStep rcMap turn = some rcMap') (key : UInt64) :
    probeLookup rcMap' key = if key = mapKey g then some cmd else probeLookup rcMap key := by
  obtain ⟨v1Pod, text, cgroupId, hhandled, htype, htimestamp, hint, hcmd⟩ := h
  have hadds : turn.2.Adds v1Pod := htype.imp id fun hmodified ↦ ⟨hmodified, htimestamp⟩
  have hop : watchEvent turn.1 turn.2 = .ok (some (.insert g cmd)) := by
    rw [hhandled.watchEvent, opFor_eq_insert]
    exact ⟨hadds, resizeCmd_eq_ok.mpr hcmd, hint⟩
  rw [watchStep, hop] at hstep
  exact lookup_applyOp_insert hstep key

/-- Once its event is processed, the pod has its entry exactly if its id fits the key or the entry was
there before. -/
theorem InOrder.hasEntry_iff {g : ℕ} {cmd : Command} (h : InOrder turn g cmd)
    (hstep : watchStep rcMap turn = some rcMap') :
    HasEntry rcMap' g cmd ↔ g < 2 ^ 32 ∨ HasEntry rcMap g cmd := by
  have hlookup := h.lookup hstep
  by_cases hshort : g < 2 ^ 32
  · refine iff_of_true ⟨mapKey g, (eq_mapKey_iff hshort _).mp rfl, ?_⟩ (.inl hshort)
    rw [hlookup, if_pos rfl]
  · rw [or_iff_right hshort]
    refine exists_congr fun id ↦ and_congr_right fun hid ↦ ?_
    rw [hlookup, if_neg]
    rintro rfl
    rw [toNat_mapKey] at hid
    omega

end

/-! ## Sequences of events -/

/-- The watcher outlives a sequence of events exactly when none of them raises in its turn, and none is of
a pod whose cgroup id is too long to get its entry. -/
theorem outlives_iff (rcMap : ResizeContainersMap) (turns : List (WatchEnv × WatchEvent)) :
    Outlives rcMap turns ↔
      Meets watchStep (fun rcMap turn ↦ ¬ Kills rcMap turn ∧ ¬ Misses rcMap turn) rcMap turns := by
  rw [meets_iff_forall]
  constructor
  · rintro ⟨⟨final, hfinal⟩, hentry⟩ before turn after middle hsplit hbefore
    have hfront : turns = (before ++ [turn]) ++ after := by
      rw [hsplit]
      simp
    refine ⟨fun hkills ↦ ?_, ?_⟩
    · rw [hfront, run_append, run_concat, hbefore, Option.bind_some, watchStep_eq_none.mpr hkills] at hfinal
      cases hfinal
    · rintro ⟨g, cmd, horder, hlong, hnone⟩
      obtain ⟨rcMap', hrun', hhas⟩ := hentry before turn after g cmd hsplit horder
      rw [run_concat, hbefore, Option.bind_some] at hrun'
      rcases (horder.hasEntry_iff hrun').mp hhas with hshort | hhas
      · exact absurd hshort (Nat.not_lt.mpr hlong)
      · exact hnone hhas
  · intro h
    have hprocessed : ∃ rcMap', run watchStep rcMap turns = some rcMap' := by
      rw [exists_run_iff fun _ _ ↦ watchStep_eq_none, meets_iff_forall]
      exact fun before turn after middle hsplit hbefore ↦ (h before turn after middle hsplit hbefore).1
    refine ⟨hprocessed, fun before turn after g cmd hsplit horder ↦ ?_⟩
    obtain ⟨final, hrun⟩ := hprocessed
    have hfront : turns = (before ++ [turn]) ++ after := by
      rw [hsplit]
      simp
    rw [hfront, run_append] at hrun
    obtain ⟨rcMap', hrun', -⟩ := Option.bind_eq_some_iff.mp hrun
    obtain ⟨middle, hbefore, hstep⟩ := run_concat_eq_some.mp hrun'
    refine ⟨rcMap', hrun', (horder.hasEntry_iff hstep).mpr ?_⟩
    by_contra hneither
    rw [not_or] at hneither
    exact (h before turn after middle hsplit hbefore).2
      ⟨g, cmd, horder, Nat.le_of_not_lt hneither.1, hneither.2⟩

/-- A pod with some other annotation ends the watcher before it gets to the next pod. -/
theorem outlives_counterexample :
    ¬ Outlives .empty
      [demoTurnOf "ADDED".toList (demoV1Pod [("app".toList, "web".toList)] none true),
        demoTurnOf "ADDED".toList (demoV1Pod (demoAnnotations "[\"make\"]".toList) none true)] := by
  intro h
  obtain ⟨rcMap, hrun⟩ := h.processed
  have hnone : (run watchStep .empty
      [demoTurnOf "ADDED".toList (demoV1Pod [("app".toList, "web".toList)] none true),
        demoTurnOf "ADDED".toList
          (demoV1Pod (demoAnnotations "[\"make\"]".toList) none true)]).isSome = false := by
    decide +kernel
  rw [hrun] at hnone
  cases hnone

end EbpfPlayground.Bcc
