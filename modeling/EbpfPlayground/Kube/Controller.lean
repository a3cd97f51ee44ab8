import EbpfPlayground.Kube.Runner
import EbpfPlayground.Kube.Session

/-!
# The controller of kube-runtime

A controller keeps a cache of the objects that it watches and requests a reconciliation of each object
that its stream of applied objects yields.  When the turn of a request comes, the object is looked up in
the cache.  Over every run it is stated of which objects the reconciler has seen the latest version.
-/

namespace EbpfPlayground.Kube

open ChangeLog
open Debounce (Outstanding)

variable {K Q : Type*} [Resource K] [DelayQueue Q ObjectRef]

/-- A `Controller` that runs; its requests are compared by their references only. -/
structure Controller (K Q : Type*) where
  /-- What the watcher's stream has yielded. -/
  items : List (Item K)
  store : Store K
  /-- The queue of `applied_objects`. -/
  queue : List K
  runner : Runner ObjectRef Q
  /-- The objects that the reconciler was last started with, of which the code keeps no record. -/
  reconciled : ObjectRef → Option K

namespace Controller

def init : Controller K Q := ⟨[], ∅, [], ⟨.new [], []⟩, fun _ ↦ none⟩

/-- A request to the scheduler. -/
def send (c : Controller K Q) (request : ScheduleRequest ObjectRef) : Controller K Q :=
  { c with
    runner := ⟨{ c.runner.scheduler with
      requests := c.runner.scheduler.requests ++ [.ready (some request)] }, c.runner.slots⟩ }

/-- The closure that `applier` runs its messages by: the reconciler is started with the object in the
cache, if there is one. -/
def runMsg (c : Controller K Q) (key : ObjectRef) : ObjectRef → Option K :=
  match c.store.get key with
  | some obj => Function.update c.reconciled key (some obj)
  | none => c.reconciled

/-- A turn of the loop in which the runner takes messages. -/
def takeMessage (now : ℕ) (c : Controller K Q) : Option (Poll ObjectRef × Controller K Q) :=
  match c.runner.takeMessage now with
  | none => none
  | some (.ready (some key), runner) =>
    some (.ready (some key), { c with runner := runner, reconciled := c.runMsg key })
  | some (answer, runner) => some (answer, { c with runner := runner })

/-- What can happen to a controller and its clock. -/
inductive Step : Controller K Q × ℕ → Controller K Q × ℕ → Prop
  /-- The watcher's stream yields an event, which the reflector applies before it passes it on. -/
  | event (c : Controller K Q) (clock : ℕ) (event : Event K) (store : Store K) (hqueue : c.queue = [])
      (hstore : c.store.applyWatcherEvent event = some store) :
      Step (c, clock) ({ c with
        items := c.items ++ [.ok event]
        store := store
        queue := event.intoIterApplied }, clock)
  | error (c : Controller K Q) (clock : ℕ) (err : Error) (hqueue : c.queue = []) :
      Step (c, clock) ({ c with items := c.items ++ [.error err] }, clock)
  /-- `trigger_self` on the next applied object, and `applier` on its request. -/
  | trigger (c : Controller K Q) (clock : ℕ) (obj : K) (queue : List K) (key : ObjectRef)
      (hqueue : c.queue = obj :: queue) (hkey : ObjectRef.fromObj obj = some key) :
      Step (c, clock) (({ c with queue := queue } : Controller K Q).send ⟨key, clock + 1⟩, clock)
  /-- A request of another trigger, or of the reconciler or the error policy to be called again. -/
  | request (c : Controller K Q) (clock : ℕ) (request : ScheduleRequest ObjectRef) :
      Step (c, clock) (c.send request, clock)
  | shuffle (c : Controller K Q) (clock : ℕ) (pending slots : List ObjectRef)
      (hpending : c.runner.scheduler.pending.Perm pending) (hslots : c.runner.slots.Perm slots) :
      Step (c, clock) ({ c with
        runner := ⟨{ c.runner.scheduler with pending := pending }, slots⟩ }, clock)
  /-- A reconciliation is over. -/
  | finish (c : Controller K Q) (clock : ℕ) (key : ObjectRef) :
      Step (c, clock) ({ c with
        runner := ⟨c.runner.scheduler, c.runner.slots.erase key⟩ }, clock)
  | take (c c' : Controller K Q) (clock now : ℕ) (answer : Poll ObjectRef) (hnow : clock ≤ now)
      (htake : c.takeMessage now = some (answer, c')) : Step (c, clock) (c', now)

def Reaches (c : Controller K Q) (clock : ℕ) : Prop := Relation.ReflTransGen Step (init, 0) (c, clock)

/-! ## The invariant -/

/-- A reconciliation is still to come. -/
def Waits (c : Controller K Q) (clock : ℕ) (key : ObjectRef) : Prop :=
  (∃ obj ∈ c.queue, ObjectRef.fromObj obj = some key) ∨ ∃ runAt ≤ clock + 1,
    .ready (some ⟨key, runAt⟩) ∈ c.runner.scheduler.requests ∨
      Outstanding c.runner.scheduler.history key runAt

structure Inv (c : Controller K Q) (clock : ℕ) : Prop where
  runner : c.runner.Inv clock
  requests : ∃ all, c.runner.scheduler.requests = Scheduler.sent all
  store : reflector ∅ c.items = some c.store
  current : ∀ key obj, c.store.lookup key = some obj → c.reconciled key = some obj ∨ c.Waits clock key

variable {c : Controller K Q} {clock now : ℕ}

theorem inv_init : (init : Controller K Q).Inv 0 where
  runner := ⟨Scheduler.tracks_new [], List.nodup_nil⟩
  requests := ⟨[], rfl⟩
  store := rfl
  current key obj h := by
    rw [init, AList.lookup_empty] at h
    cases h

theorem Inv.send (h : c.Inv clock) (request : ScheduleRequest ObjectRef) :
    (c.send request).Inv clock := by
  obtain ⟨all, hall⟩ := h.requests
  refine ⟨⟨h.runner.tracks.withRequests _,
    h.runner.nodup⟩, ⟨all ++ [request], ?_⟩, h.store, fun key obj hlookup ↦ ?_⟩
  · simp [Controller.send, Scheduler.sent, hall]
  · rcases h.current key obj hlookup with hdone | hqueue | ⟨runAt, hle, hrequest | hout⟩
    · exact .inl hdone
    · exact .inr (.inl hqueue)
    · exact .inr (.inr ⟨runAt, hle, .inl (List.mem_append_left _ hrequest)⟩)
    · exact .inr (.inr ⟨runAt, hle, .inr hout⟩)

/-- What is in the cache after an event was there before or is among the applied objects. -/
theorem lookup_collect {store store' : Store K} {objs : List K} {key : ObjectRef} {obj : K}
    (h : store.collect objs = some store') (hlookup : store'.lookup key = some obj) :
    store.lookup key = some obj ∨ obj ∈ objs ∧ ObjectRef.fromObj obj = some key := by
  induction objs generalizing store with
  | nil =>
    obtain rfl := Option.some.inj h
    exact .inl hlookup
  | cons first objs ih =>
    obtain ⟨firstKey, hfirst, hrest⟩ := Option.bind_eq_some_iff.mp h
    rcases ih hrest with hbefore | ⟨hmem, hkey⟩
    · by_cases heq : key = firstKey
      · subst heq
        rw [AList.lookup_insert] at hbefore
        obtain rfl := Option.some.inj hbefore
        exact .inr ⟨List.mem_cons_self, hfirst⟩
      · rw [AList.lookup_insert_ne heq] at hbefore
        exact .inl hbefore
    · exact .inr ⟨List.mem_cons_of_mem _ hmem, hkey⟩

theorem lookup_applyWatcherEvent {store store' : Store K} {event : Event K} {key : ObjectRef} {obj : K}
    (h : store.applyWatcherEvent event = some store') (hlookup : store'.lookup key = some obj) :
    store.lookup key = some obj ∨
      obj ∈ event.intoIterApplied ∧ ObjectRef.fromObj obj = some key := by
  cases event with
  | applied applied =>
    obtain ⟨appliedKey, hkey, rfl⟩ := Option.map_eq_some_iff.mp h
    by_cases heq : key = appliedKey
    · subst heq
      rw [AList.lookup_insert] at hlookup
      obtain rfl := Option.some.inj hlookup
      exact .inr ⟨List.mem_singleton_self _, hkey⟩
    · rw [AList.lookup_insert_ne heq] at hlookup
      exact .inl hlookup
  | deleted deleted =>
    obtain ⟨deletedKey, -, rfl⟩ := Option.map_eq_some_iff.mp h
    by_cases heq : key = deletedKey
    · rw [heq, AList.lookup_erase] at hlookup
      cases hlookup
    · rw [AList.lookup_erase_ne heq] at hlookup
      exact .inl hlookup
  | restarted objs =>
    rcases lookup_collect h hlookup with hempty | hmem
    · rw [AList.lookup_empty] at hempty
      cases hempty
    · exact .inr hmem

theorem Inv.event (h : c.Inv clock) {event : Event K} {store : Store K} (hqueue : c.queue = [])
    (hstore : c.store.applyWatcherEvent event = some store) :
    ({ c with
      items := c.items ++ [.ok event]
      store := store
      queue := event.intoIterApplied } : Controller K Q).Inv clock := by
  refine ⟨h.runner, h.requests, ?_, fun key obj hlookup ↦ ?_⟩
  · simp [reflector_append, h.store, reflector, hstore]
  · rcases lookup_applyWatcherEvent hstore hlookup with hbefore | hmem
    · rcases h.current key obj hbefore with hdone | ⟨other, hother, -⟩ | hrequested
      · exact .inl hdone
      · rw [hqueue] at hother
        cases hother
      · exact .inr (.inr hrequested)
    · exact .inr (.inl ⟨obj, hmem⟩)

/-- The request of an applied object takes its place. -/
theorem Inv.trigger (h : c.Inv clock) {obj : K} {queue : List K} {key : ObjectRef}
    (hqueue : c.queue = obj :: queue) (hkey : ObjectRef.fromObj obj = some key) :
    (({ c with queue := queue } : Controller K Q).send ⟨key, clock + 1⟩).Inv clock := by
  have hsend := h.send ⟨key, clock + 1⟩
  refine ⟨hsend.runner, hsend.requests, h.store, fun other found hlookup ↦ ?_⟩
  rcases hsend.current other found hlookup with hdone | ⟨waiting, hmem, hother⟩ | hrequested
  · exact .inl hdone
  · have hmem' : waiting ∈ obj :: queue := hqueue ▸ hmem
    rcases List.mem_cons.mp hmem' with rfl | hrest
    · obtain rfl := Option.some.inj (hkey.symm.trans hother)
      exact .inr (.inr ⟨clock + 1, le_rfl, .inl (by simp [Controller.send])⟩)
    · exact .inr (.inl ⟨waiting, hrest, hother⟩)
  · exact .inr (.inr hrequested)

omit [Resource K] [DelayQueue Q ObjectRef] in
/-- The reconciler is started with the object that the cache has under the reference. -/
theorem runMsg_self {key : ObjectRef} {obj : K} (h : c.store.lookup key = some obj) :
    c.runMsg key key = some obj := by
  rw [runMsg, Store.get, h]
  exact Function.update_self ..

omit [Resource K] [DelayQueue Q ObjectRef] in
theorem runMsg_of_ne {key other : ObjectRef} (h : other ≠ key) :
    c.runMsg key other = c.reconciled other := by
  unfold runMsg
  cases c.store.get key with
  | some obj => exact Function.update_of_ne h ..
  | none => rfl

omit [DelayQueue Q ObjectRef] in
/-- What waits for the reconciler still does after a turn that takes every request and hands out another
message. -/
theorem Waits.turn {key : ObjectRef} (h : c.Waits clock key) (hnow : clock ≤ now)
    {runner : Runner ObjectRef Q} {taken : List (ScheduleRequest ObjectRef)} {answer : Poll ObjectRef}
    (hrequests : c.runner.scheduler.requests = Scheduler.sent taken)
    (hhistory : runner.scheduler.history =
      c.runner.scheduler.history ++ Scheduler.received taken ++ Scheduler.handedOut now answer)
    (hkept : ∀ time, Debounce.Event.emitted key time ∉ Scheduler.handedOut now answer)
    (reconciled : ObjectRef → Option K) :
    ({ c with runner := runner, reconciled := reconciled } : Controller K Q).Waits now key := by
  have hmore : ∀ time, Debounce.Event.emitted key time ∉
      Scheduler.received taken ++ Scheduler.handedOut now answer := by
    intro time hmem
    rcases List.mem_append.mp hmem with hreceived | hhanded
    · simp [Scheduler.received] at hreceived
    · exact hkept time hhanded
  rw [List.append_assoc] at hhistory
  rcases h with hqueue | ⟨runAt, hle, hrequest | hout⟩
  · exact .inl hqueue
  · refine .inr ⟨runAt, by omega, .inr ?_⟩
    rw [hrequests, Scheduler.sent, List.mem_map] at hrequest
    obtain ⟨request, hmem, heq⟩ := hrequest
    obtain rfl := Option.some.inj (Poll.ready.inj heq)
    simp only [hhistory]
    refine Debounce.outstanding_of_mem _ (List.mem_append_left _ ?_) hmore
    exact List.mem_map.mpr ⟨_, hmem, rfl⟩
  · refine .inr ⟨runAt, by omega, .inr ?_⟩
    simp only [hhistory]
    exact hout.append hmore

/-- A turn starts the reconciler, or finds every reference whose time has come being processed, unless a
request is for a time too far in the future. -/
theorem Inv.takeMessage (h : c.Inv clock) (hnow : clock ≤ now) :
    (c.takeMessage now = none ∧ c.runner.scheduler.Overreaches) ∨
      ∃ answer c', c.takeMessage now = some (answer, c') ∧ c'.Inv now ∧ c'.store = c.store ∧
        c'.queue = c.queue ∧ c'.runner.scheduler.requests = [] ∧
        (answer = .pending → c'.runner.CaughtUp now) := by
  rcases h.runner.takeMessage hnow with ⟨hpanic, hfar⟩ | ⟨answer, runner, hturn, hrunner, htakes, -⟩
  · exact .inl ⟨by simp only [Controller.takeMessage, hpanic], hfar⟩
  right
  obtain ⟨taken, hhistory, hall⟩ := Runner.takeMessage_history hturn
  obtain ⟨all, hrequests⟩ := h.requests
  obtain ⟨rfl, hnone⟩ := hall all hrequests
  have hinv : ∀ reconciled, (∀ key obj, c.store.lookup key = some obj → reconciled key = some obj ∨
      ({ c with runner := runner, reconciled := reconciled } : Controller K Q).Waits now key) →
      ({ c with runner := runner, reconciled := reconciled } : Controller K Q).Inv now :=
    fun reconciled hcurrent ↦ ⟨hrunner, ⟨[], hnone⟩, h.store, hcurrent⟩
  simp only [Controller.takeMessage, hturn]
  cases answer with
  | pending =>
    refine ⟨_, _, rfl, hinv _ fun other obj hlookup ↦ ?_, rfl, rfl, hnone, fun _ ↦ htakes.2⟩
    exact (h.current other obj hlookup).imp_right fun hwait ↦
      hwait.turn hnow hrequests hhistory (fun time hmem ↦ by cases hmem) _
  | ready item =>
    cases item with
    | none =>
      obtain ⟨requests, hended⟩ := htakes.2
      rw [hnone] at hended
      cases hended
    | some key =>
      refine ⟨_, _, rfl, hinv _ fun other obj hlookup ↦ ?_, rfl, rfl, hnone, fun heq ↦ by cases heq⟩
      by_cases heq : other = key
      · subst heq
        exact .inl (runMsg_self hlookup)
      · rw [runMsg_of_ne heq]
        refine (h.current other obj hlookup).imp_right fun hwait ↦
          hwait.turn hnow hrequests hhistory (fun time hmem ↦ ?_) _
        exact heq (Debounce.Event.emitted.inj (List.mem_singleton.mp hmem)).1

/-! ## Runs -/

theorem Inv.step {before after : Controller K Q × ℕ} (h : before.1.Inv before.2)
    (hstep : Step before after) : after.1.Inv after.2 := by
  cases hstep with
  | event c clock event store hqueue hstore => exact h.event hqueue hstore
  | error c clock err hqueue =>
    exact ⟨h.runner, h.requests, by simp [reflector_append, h.store, reflector], h.current⟩
  | trigger c clock obj queue key hqueue hkey => exact h.trigger hqueue hkey
  | request c clock request => exact h.send request
  | shuffle c clock pending slots hpending hslots =>
    exact ⟨⟨h.runner.tracks.shuffle hpending, hslots.nodup h.runner.nodup⟩, h.requests, h.store,
      h.current⟩
  | finish c clock key =>
    exact ⟨⟨h.runner.tracks, h.runner.nodup.erase key⟩, h.requests, h.store, h.current⟩
  | take c c' clock now answer hnow htake =>
    rcases h.takeMessage hnow with ⟨hpanic, -⟩ | ⟨answer', after, hafter, hinv, -⟩
    · cases htake.symm.trans hpanic
    obtain ⟨-, rfl⟩ := Prod.mk.inj (Option.some.inj (htake.symm.trans hafter))
    exact hinv

theorem Reaches.inv (h : c.Reaches clock) : c.Inv clock :=
  Run.invariant_of_reaches (I := fun state : Controller K Q × ℕ ↦ state.1.Inv state.2)
    inv_init (fun _ _ hbefore hstep ↦ hbefore.step hstep) h

/-- The reconciler was last started with this object, or it is still to be started: it is running for an
earlier version now, or the request came less than a tick ago. -/
def Current (c : Controller K Q) (now : ℕ) (key : ObjectRef) (obj : K) : Prop :=
  c.reconciled key = some obj ∨ ∃ runAt ≤ now + 1,
    Outstanding c.runner.scheduler.history key runAt ∧ (runAt ≤ now → key ∈ c.runner.slots)

theorem Inv.current_of_caughtUp (h : c.Inv now) (hqueue : c.queue = [])
    (hrequests : c.runner.scheduler.requests = []) (hcaught : c.runner.CaughtUp now) {key : ObjectRef}
    {obj : K} (hlookup : c.store.lookup key = some obj) : c.Current now key obj := by
  rcases h.current key obj hlookup with hdone | ⟨other, hother, -⟩ | ⟨runAt, hle, hrequest | hout⟩
  · exact .inl hdone
  · rw [hqueue] at hother
    cases hother
  · rw [hrequests] at hrequest
    cases hrequest
  · exact .inr ⟨runAt, hle, hout, hcaught key runAt hout⟩

def podRef : ObjectRef := ⟨"pod".toList, some "default".toList⟩

def otherRef : ObjectRef := ⟨"other".toList, some "default".toList⟩

/-- The first object of the demo session was listed and reconciled, then the second one applied and
reconciled. -/
def demo : Controller ObjectMeta (ListQueue ObjectRef) where
  items := demoSession.items
  store := AList.insert otherRef otherObject (AList.insert podRef demoObject ∅)
  queue := []
  runner := ⟨⟨⟨∅, 2⟩, ∅, [], [], [.requested podRef 1, .emitted podRef 1, .requested otherRef 2,
    .emitted otherRef 2]⟩, []⟩
  reconciled := Function.update (Function.update (fun _ ↦ none) podRef (some demoObject)) otherRef
    (some otherObject)

theorem demo_reaches : demo.Reaches 2 := by
  have hstart : Relation.ReflTransGen Step ((init : Controller ObjectMeta (ListQueue ObjectRef)), 0)
      (init, 0) := .refl
  have hlisted := hstart.tail (.event _ 0 (.restarted [demoObject]) _ rfl rfl)
  have hfirst := hlisted.tail (.trigger _ 0 demoObject [] podRef rfl rfl)
  have hstarted := hfirst.tail (.take _ _ 0 1 (.ready (some podRef)) (Nat.zero_le 1) rfl)
  have hfinished := hstarted.tail (.finish _ 1 podRef)
  have happlied := hfinished.tail (.event _ 1 (.applied otherObject) _ rfl rfl)
  have hsecond := happlied.tail (.trigger _ 1 otherObject [] otherRef rfl rfl)
  have hrestarted := hsecond.tail (.take _ _ 1 2 (.ready (some otherRef)) (Nat.le_succ 1) rfl)
  exact hrestarted.tail (.finish _ 2 otherRef)

/-- Once the controller has gone through what its watcher reported and has nothing to do, the reconciler
was last started with the version that each object of the cluster has at the revision which the watcher
goes on from, or it will be. -/
theorem cluster_reconciled {versions : Versions} {lp : ListParams} {s : Session K}
    (hs : s.Reaches versions lp) (hlisted : sinceList s.items ≠ none)
    (hdecoded : undecodable ∉ s.items) (hc : c.Reaches clock) (hitems : c.items = s.items)
    (hqueue : c.queue = []) (hnow : clock ≤ now) {c' : Controller K Q}
    (hidle : c.takeMessage now = some (.pending, c')) :
    ∃ revision ≤ s.log.length,
      (∀ version ∈ s.state.resourceVersion, version = versions.version revision) ∧
      ∀ key obj, stateAt ObjectRef.fromObj s.log revision (some key) = some obj →
        c'.Current now key obj := by
  rcases hs.inv.progress with hunlisted | ⟨listed, revision, hsynced⟩
  · exact absurd hunlisted.sinceList hlisted
  obtain ⟨store, hstore, hmirrors⟩ := hsynced.store
  rw [hs.missed_eq_nil hdecoded, mask_nil] at hmirrors
  rcases hc.inv.takeMessage hnow with ⟨hpanic, -⟩ |
    ⟨answer, after, hturn, hinv, hsame, hempty, hrequests, hcaught⟩
  · cases hidle.symm.trans hpanic
  obtain ⟨rfl, rfl⟩ := Prod.mk.inj (Option.some.inj (hidle.symm.trans hturn))
  have hcache : c'.store = store := by
    have hold := hc.inv.store
    rw [hitems, hstore] at hold
    exact hsame.trans (Option.some.inj hold).symm
  refine ⟨revision, hsynced.length, hsynced.reads.resourceVersion, fun key obj hobj ↦ ?_⟩
  refine hinv.current_of_caughtUp (hempty.trans hqueue) hrequests (hcaught rfl) ?_
  rw [hcache, hmirrors key, hobj]

theorem cluster_reconciled_demo :
    ∃ (c' : Controller ObjectMeta (ListQueue ObjectRef)), ∃ revision ≤ demoSession.log.length,
      (∀ key obj, stateAt ObjectRef.fromObj demoSession.log revision (some key) = some obj →
        c'.Current 2 key obj) ∧
      c'.reconciled podRef = some demoObject ∧ c'.reconciled otherRef = some otherObject ∧
      (∀ runAt, ¬ Outstanding c'.runner.scheduler.history podRef runAt) ∧
      ∀ runAt, ¬ Outstanding c'.runner.scheduler.history otherRef runAt := by
  have hidle : demo.takeMessage 2 = some (.pending, demo) := rfl
  obtain ⟨revision, hlength, -, hcurrent⟩ := cluster_reconciled demoSession_reaches
    (by simp [demoSession, sessionOf, sinceList]) (by simp [demoSession, sessionOf, undecodable])
    demo_reaches rfl rfl le_rfl hidle
  refine ⟨demo, revision, hlength, hcurrent, rfl, rfl, ?_, ?_⟩
  · exact Debounce.isDue_due demo.runner.scheduler.history podRef
  · exact Debounce.isDue_due demo.runner.scheduler.history otherRef

end Controller

end EbpfPlayground.Kube
