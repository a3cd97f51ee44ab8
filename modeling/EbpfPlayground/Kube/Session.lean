import EbpfPlayground.Kube.Reflector
import Mathlib.Logic.Relation

/-!
# A watcher and its API server

The server commits changes at any time and answers the watcher's requests by its log: a list is a
snapshot with its revision, a watch goes on from a revision and sends every later change in order.
Requests may fail, a connection may end at any time, and a line of it may be one that the watcher
cannot decode.  Over every such run it is stated which changes the watcher's stream has reported and
what a reflector makes of them.
-/

namespace EbpfPlayground.Kube

open ChangeLog

variable {K : Type*} [Resource K]

/-- How the server writes its revisions as resource versions. -/
structure Versions where
  version : ℕ → Text
  injective : Function.Injective version

/-- What the server makes sure of in an object that it commits. -/
structure Committed (versions : Versions) (index : ℕ) (change : Change K) : Prop where
  name : (ObjectRef.fromObj change.object).isSome
  version : (Resource.metadata change.object).resourceVersion = some (versions.version (index + 1))

/-- The next item of a watch connection that has sent everything before the cursor, and the cursor
behind it. -/
inductive Delivers (versions : Versions) (log : Log K) (cursor : ℕ) :
    Option (Except ClientError (WatchEvent K)) → ℕ → Prop
  | added (index : ℕ) (obj : K) (hcursor : cursor ≤ index)
      (hgap : ∀ i, cursor ≤ i → i < index → log[i]?.join = none)
      (hentry : log[index]? = some (some (.put obj))) :
      Delivers versions log cursor (some (.ok (.added obj))) (index + 1)
  | modified (index : ℕ) (obj : K) (hcursor : cursor ≤ index)
      (hgap : ∀ i, cursor ≤ i → i < index → log[i]?.join = none)
      (hentry : log[index]? = some (some (.put obj))) :
      Delivers versions log cursor (some (.ok (.modified obj))) (index + 1)
  | deleted (index : ℕ) (obj : K) (hcursor : cursor ≤ index)
      (hgap : ∀ i, cursor ≤ i → i < index → log[i]?.join = none)
      (hentry : log[index]? = some (some (.delete obj))) :
      Delivers versions log cursor (some (.ok (.deleted obj))) (index + 1)
  | bookmark (revision : ℕ) (hcursor : cursor ≤ revision) (hrevision : revision ≤ log.length)
      (hgap : ∀ i, cursor ≤ i → i < revision → log[i]?.join = none) :
      Delivers versions log cursor (some (.ok (.bookmark (versions.version revision)))) revision
  | error (err : ErrorResponse) : Delivers versions log cursor (some (.ok (.error err))) cursor
  /-- The connection fails, or there is an error response on it. -/
  | failed (err : ClientError) : Delivers versions log cursor (some (.error err)) cursor
  /-- `request_events` reports a line that it cannot decode and goes on with the next line. -/
  | undecodable (index : ℕ) (hcursor : cursor ≤ index) (hindex : index < log.length)
      (hgap : ∀ i, cursor ≤ i → i < index → log[i]?.join = none) :
      Delivers versions log cursor (some (.error .serdeError)) (index + 1)
  | closed (cursor' : ℕ) : Delivers versions log cursor none cursor'

/-- The answer to the request that the state makes is one that the server may give. -/
def Serves (versions : Versions) (log : Log K) (api : ApiServer K ℕ) : State ℕ → Prop
  | .empty => ∀ list, api.list = .ok list → ∃ revision ≤ log.length,
      list.resourceVersion = some (versions.version revision) ∧
        IsSnapshot ObjectRef.fromObj list.items (stateAt ObjectRef.fromObj log revision)
  | .initListed resourceVersion => ∀ cursor, api.watch resourceVersion = .ok cursor →
      cursor ≤ log.length ∧ versions.version cursor = resourceVersion
  | .watching _ cursor => Delivers versions log cursor (api.next cursor).1 (api.next cursor).2

structure Session (K : Type*) where
  log : Log K
  state : State ℕ
  /-- What the watcher's stream has yielded. -/
  items : List (Item K)
  /-- The revisions of this connection that could not be decoded and that no later one has overtaken;
  they are sent again if the connection ends. -/
  skipped : List ℕ
  /-- The revisions since the last list that could not be decoded and were overtaken. -/
  missed : List ℕ

namespace Session

def init (log : Log K) : Session K where
  log := log
  state := .empty
  items := []
  skipped := []
  missed := []

/-- The session after a step of the watcher. -/
def polled (s : Session K) : Option (Item K) → State ℕ → Session K
  | some (.ok (.restarted objs)), state =>
    { s with state := state, items := s.items ++ [.ok (.restarted objs)], skipped := [], missed := [] }
  | item, .watching version cursor' =>
    let s' := { s with state := .watching version cursor', items := s.items ++ item.toList }
    match s.state, item with
    | .watching _ cursor, some (.error _) =>
      { s' with skipped := s.skipped ++ List.range' cursor (cursor' - cursor) }
    | _, _ => { s' with skipped := [], missed := s.missed ++ s.skipped }
  | item, state => { s with state := state, items := s.items ++ item.toList, skipped := [] }

/-- A step of the server or of the watcher. -/
inductive Step (versions : Versions) (lp : ListParams) (s : Session K) : Session K → Prop
  /-- The server commits a change of the collection or, with `none`, of something else. -/
  | commit (entry : Option (Change K))
      (hentry : ∀ change ∈ entry, Committed versions s.log.length change) :
      Step versions lp s { s with log := s.log ++ [entry] }
  | poll (api : ApiServer K ℕ) (item : Option (Item K)) (state : State ℕ)
      (hserves : Serves versions s.log api s.state)
      (hstep : stepTrampolined api lp s.state = some (item, state)) :
      Step versions lp s (s.polled item state)

/-- The sessions of a watcher that starts at any time of the server's history. -/
def Reaches (versions : Versions) (lp : ListParams) (s : Session K) : Prop :=
  ∃ log : Log K, (∀ index change, log[index]? = some (some change) → Committed versions index change) ∧
    Relation.ReflTransGen (Step versions lp) (init log) s

end Session

/-- The objects of the last list and the events after it. -/
def sinceList : List (Item K) → Option (List K × List (Event K)) :=
  List.foldl (fun since item ↦ match item with
    | .ok (.restarted objs) => some (objs, [])
    | .ok event => since.map fun (objs, events) ↦ (objs, events ++ [event])
    | .error _ => since) none

omit [Resource K] in
theorem sinceList_concat (items : List (Item K)) (item : Item K) :
    sinceList (items ++ [item]) = match item with
      | .ok (.restarted objs) => some (objs, [])
      | .ok event => (sinceList items).map fun (objs, events) ↦ (objs, events ++ [event])
      | .error _ => sinceList items := by
  rw [sinceList, List.foldl_append]
  rfl

/-! ## What a session knows of the log -/

/-- The state has read the log up to the revision. -/
inductive Reads (versions : Versions) (log : Log K) (skipped : List ℕ) (revision : ℕ) :
    State ℕ → Prop
  | empty : Reads versions log skipped revision .empty
  | initListed (hskipped : skipped = []) :
      Reads versions log skipped revision (.initListed (versions.version revision))
  | watching (cursor : ℕ) (hcursor : revision ≤ cursor) (hlength : cursor ≤ log.length)
      (hgap : ∀ i, revision ≤ i → i < cursor → i ∉ skipped → log[i]?.join = none)
      (hskipped : ∀ i ∈ skipped, revision ≤ i ∧ i < cursor) :
      Reads versions log skipped revision (.watching (versions.version revision) cursor)

/-- The stream has reported the log from its last list up to the revision, but for what was missed,
and the cache of a reflector is at that revision. -/
structure Synced (versions : Versions) (s : Session K) (listed revision : ℕ) : Prop where
  le : listed ≤ revision
  length : revision ≤ s.log.length
  missed : ∀ i ∈ s.missed, listed ≤ i ∧ i < revision
  reads : Reads versions s.log s.skipped revision s.state
  events : ∃ objs, IsSnapshot ObjectRef.fromObj objs (stateAt ObjectRef.fromObj s.log listed) ∧
    sinceList s.items =
      some (objs, (window (mask s.log s.missed) listed revision).map Event.ofChange)
  store : ∃ store, reflector ∅ s.items = some store ∧
    Mirrors store (stateAt ObjectRef.fromObj (mask s.log s.missed) revision)

/-- Before the first list there is nothing but failures of it. -/
structure Unlisted (s : Session K) : Prop where
  state : s.state = .empty
  sinceList : sinceList s.items = none
  store : reflector ∅ s.items = some ∅

structure Inv (versions : Versions) (s : Session K) : Prop where
  committed : ∀ index change, s.log[index]? = some (some change) → Committed versions index change
  progress : Unlisted s ∨ ∃ listed revision, Synced versions s listed revision

omit [Resource K] in
/-- A line that cannot be decoded is skipped, and with it what the connection passed over before. -/
theorem Reads.skip {versions : Versions} {log : Log K} {skipped : List ℕ} {revision cursor index : ℕ}
    {version : Text} (h : Reads versions log skipped revision (.watching version cursor))
    (hcursor : cursor ≤ index) (hindex : index < log.length) :
    Reads versions log (skipped ++ List.range' cursor (index + 1 - cursor)) revision
      (.watching version (index + 1)) := by
  cases h with
  | watching _ hle hlength hread hskipped =>
    refine .watching (index + 1) (by omega) hindex (fun i hi hlt hnot ↦ ?_) fun i hi ↦ ?_
    · have hold : i ∉ skipped := fun hmem ↦ hnot (List.mem_append_left _ hmem)
      have hnew : i ∉ List.range' cursor (index + 1 - cursor) := fun hmem ↦
        hnot (List.mem_append_right _ hmem)
      rw [List.mem_range'_1] at hnew
      exact hread i hi (by omega) hold
    · rcases List.mem_append.mp hi with hold | hnew
      · have hbetween := hskipped i hold
        exact ⟨hbetween.1, by omega⟩
      · rw [List.mem_range'_1] at hnew
        exact ⟨by omega, by omega⟩

omit [Resource K] in
theorem Reads.commit {versions : Versions} {log : Log K} {skipped : List ℕ} {revision : ℕ}
    {state : State ℕ} (h : Reads versions log skipped revision state) (entry : Option (Change K)) :
    Reads versions (log ++ [entry]) skipped revision state := by
  cases h with
  | empty => exact .empty
  | initListed hskipped => exact .initListed hskipped
  | watching cursor hcursor hlength hgap hskipped =>
    refine .watching cursor hcursor (hlength.trans (by simp)) ?_ hskipped
    intro i hi hlt hnot
    rw [List.getElem?_append_left (Nat.lt_of_lt_of_le hlt hlength)]
    exact hgap i hi hlt hnot

theorem Synced.commit {versions : Versions} {s : Session K} {listed revision : ℕ}
    (h : Synced versions s listed revision) (entry : Option (Change K)) :
    Synced versions { s with log := s.log ++ [entry] } listed revision := by
  have hentry : ∀ i, i < s.log.length → (s.log ++ [entry])[i]? = s.log[i]? := fun i hi ↦
    List.getElem?_append_left hi
  have hwindow : ∀ first, window (mask (s.log ++ [entry]) s.missed) first revision =
      window (mask s.log s.missed) first revision := by
    intro first
    apply window_congr
    intro i _ hi
    rw [mask_getElem?_join, mask_getElem?_join, hentry i (Nat.lt_of_lt_of_le hi h.length)]
  have hlength : s.log.length ≤ (s.log ++ [entry]).length := by simp
  refine ⟨h.le, h.length.trans hlength, h.missed, h.reads.commit entry, ?_, ?_⟩
  · obtain ⟨objs, hsnapshot, hevents⟩ := h.events
    refine ⟨objs, ?_, by rw [hevents, hwindow]⟩
    rw [stateAt_append_left (h.le.trans h.length)]
    exact hsnapshot
  · obtain ⟨store, hstore, hmirrors⟩ := h.store
    refine ⟨store, hstore, ?_⟩
    rw [stateAt, hwindow]
    exact hmirrors

/-- A list starts anew, whatever was known before. -/
theorem synced_of_list {versions : Versions} {s : Session K} {store : Store K} {objs : List K}
    {revision : ℕ}
    (hcommitted : ∀ index change, s.log[index]? = some (some change) →
      Committed versions index change)
    (hstore : reflector ∅ s.items = some store) (hrevision : revision ≤ s.log.length)
    (hsnapshot : IsSnapshot ObjectRef.fromObj objs (stateAt ObjectRef.fromObj s.log revision)) :
    Synced versions (s.polled (some (.ok (.restarted objs))) (.initListed (versions.version revision)))
      revision revision := by
  have hnames : ∀ obj ∈ objs, (ObjectRef.fromObj obj).isSome := by
    intro obj hobj
    obtain ⟨index, -, hentry⟩ := exists_put_of_stateAt ((hsnapshot.mem_iff obj).mp hobj)
    exact (hcommitted index _ hentry).name
  obtain ⟨store', hstore', hmirrors⟩ := mirrors_restarted store hsnapshot
    (fun key obj hobj ↦ key_of_stateAt hobj) hnames
  refine ⟨le_rfl, hrevision, by simp [Session.polled], .initListed rfl, ⟨objs, hsnapshot, ?_⟩,
    ⟨store', ?_, ?_⟩⟩
  · simp [Session.polled, sinceList_concat]
  · simp [Session.polled, reflector_append, hstore, reflector, hstore']
  · simpa [Session.polled] using hmirrors

/-- What reports no event leaves the revision where it is. -/
theorem Synced.move {versions : Versions} {s : Session K} {listed revision : ℕ}
    (h : Synced versions s listed revision) (item : Option (Item K))
    (hitem : ∀ event, item ≠ some (.ok event)) {state : State ℕ} {skipped : List ℕ}
    (hreads : Reads versions s.log skipped revision state) :
    Synced versions { s with state := state, items := s.items ++ item.toList, skipped := skipped }
      listed revision := by
  cases item with
  | none => exact ⟨h.le, h.length, h.missed, hreads, by simpa using h.events, by simpa using h.store⟩
  | some item =>
    cases item with
    | ok event => exact absurd rfl (hitem event)
    | error err =>
      refine ⟨h.le, h.length, h.missed, hreads, by simpa [sinceList_concat] using h.events, ?_⟩
      obtain ⟨store, hstore, hmirrors⟩ := h.store
      exact ⟨store, by simp [reflector_append, hstore, reflector], hmirrors⟩

/-- A connection that sends something behind its cursor overtakes what was skipped before it. -/
theorem Synced.overtake {versions : Versions} {s : Session K} {listed revision cursor last : ℕ}
    {version : Text} (h : Synced versions s listed revision)
    (hstate : s.state = .watching version cursor) (hlast : cursor ≤ last)
    (hlength : last ≤ s.log.length)
    (hgap : ∀ i, cursor ≤ i → i < last → s.log[i]?.join = none) :
    Synced versions { s with
      state := .watching (versions.version last) last
      skipped := []
      missed := s.missed ++ s.skipped } listed last := by
  have hreads := h.reads
  rw [hstate] at hreads
  cases hreads with
  | watching _ hcursor hcursorLength hread hskipped =>
    refine ⟨h.le.trans (hcursor.trans hlast), hlength, ?_, .watching last le_rfl hlength ?_ (by simp),
      ?_, ?_⟩
    · intro i hi
      rcases List.mem_append.mp hi with hmissed | hnew
      · have hbefore := h.missed i hmissed
        exact ⟨hbefore.1, by omega⟩
      · have hbetween := hskipped i hnew
        exact ⟨h.le.trans hbetween.1, by omega⟩
    · intro i hi hlt
      omega
    · obtain ⟨objs, hsnapshot, hevents⟩ := h.events
      refine ⟨objs, hsnapshot, ?_⟩
      rw [hevents, window_overtake h.le hcursor hlast hread hskipped hgap]
    · obtain ⟨store, hstore, hmirrors⟩ := h.store
      refine ⟨store, hstore, ?_⟩
      rw [stateAt_overtake hcursor hlast hread hskipped hgap]
      exact hmirrors

/-- The next change is reported and applied to the cache. -/
theorem Synced.report {versions : Versions} {s : Session K} {listed index : ℕ} {change : Change K}
    (h : Synced versions s listed index) (hcommitted : Committed versions index change)
    (hentry : s.log[index]? = some (some change)) :
    Synced versions { s with
      state := .watching (versions.version (index + 1)) (index + 1)
      items := s.items ++ [.ok (.ofChange change)]
      skipped := [] } listed (index + 1) := by
  have hlength : index < s.log.length := (List.getElem?_eq_some_iff.mp hentry).1
  have hmask : (mask s.log s.missed)[index]?.join = some change := by
    have hmissed : index ∉ s.missed := fun hmem ↦ absurd (h.missed index hmem).2 (lt_irrefl _)
    rw [mask_getElem?_join, if_neg hmissed, hentry]
    rfl
  refine ⟨h.le.trans (Nat.le_succ _), hlength, ?_, .watching _ le_rfl hlength ?_ (by simp), ?_, ?_⟩
  · intro i hi
    have hbefore := h.missed i hi
    exact ⟨hbefore.1, by omega⟩
  · intro i hi hlt
    omega
  · obtain ⟨objs, hsnapshot, hevents⟩ := h.events
    refine ⟨objs, hsnapshot, ?_⟩
    cases change <;>
      simp [sinceList_concat, hevents, window_succ h.le hmask, Event.ofChange]
  · obtain ⟨store, hstore, hmirrors⟩ := h.store
    obtain ⟨store', hstore', hafter⟩ := hmirrors.applyWatcherEvent hcommitted.name
    refine ⟨store', by simp [reflector_append, hstore, reflector, hstore'], ?_⟩
    rw [stateAt_succ hmask]
    exact hafter

omit [Resource K] in
@[simp]
theorem polled_log (s : Session K) (item : Option (Item K)) (state : State ℕ) :
    (s.polled item state).log = s.log := by
  unfold Session.polled
  split
  · rfl
  · split <;> rfl
  · rfl

omit [Resource K] in
@[simp]
theorem polled_items (s : Session K) (item : Option (Item K)) (state : State ℕ) :
    (s.polled item state).items = s.items ++ item.toList := by
  unfold Session.polled
  split
  · rfl
  · split <;> rfl
  · rfl

omit [Resource K] in
@[simp]
theorem polled_state (s : Session K) (item : Option (Item K)) (state : State ℕ) :
    (s.polled item state).state = state := by
  unfold Session.polled
  split
  · rfl
  · split <;> rfl
  · rfl

omit [Resource K] in
theorem polled_error {s : Session K} {version version' : Text} {cursor : ℕ}
    (hstate : s.state = .watching version cursor) (err : Error) (cursor' : ℕ) :
    s.polled (some (.error err)) (.watching version' cursor') =
      { s with
        state := .watching version' cursor'
        items := s.items ++ [.error err]
        skipped := s.skipped ++ List.range' cursor (cursor' - cursor) } := by
  simp [Session.polled, hstate]

omit [Resource K] in
/-- The watch goes on from the resource version that was asked for. -/
theorem watch_of_watchChecked {api : ApiServer K ℕ} {lp : ListParams} {version : Text} {cursor : ℕ}
    (h : api.watchChecked lp version = .ok cursor) : api.watch version = .ok cursor := by
  unfold ApiServer.watchChecked at h
  split at h
  · exact h
  · cases h

theorem Inv.exists_store {versions : Versions} {s : Session K} (h : Inv versions s) :
    ∃ store, reflector ∅ s.items = some store := by
  rcases h.progress with hunlisted | ⟨listed, revision, hsynced⟩
  · exact ⟨∅, hunlisted.store⟩
  · obtain ⟨store, hstore, -⟩ := hsynced.store
    exact ⟨store, hstore⟩

/-- Outside the initial state there has been a list. -/
theorem Inv.synced {versions : Versions} {s : Session K} (h : Inv versions s)
    (hstate : s.state ≠ .empty) : ∃ listed revision, Synced versions s listed revision := by
  rcases h.progress with hunlisted | hsynced
  · exact absurd hunlisted.state hstate
  · exact hsynced

/-- A change that the connection sends. -/
theorem Inv.sent {versions : Versions} {s : Session K} (h : Inv versions s) {version : Text}
    {cursor index : ℕ} (hstate : s.state = .watching version cursor) {change : Change K}
    (hcursor : cursor ≤ index) (hgap : ∀ i, cursor ≤ i → i < index → s.log[i]?.join = none)
    (hentry : s.log[index]? = some (some change)) {objVersion : Text}
    (hversion : (Resource.metadata change.object).resourceVersion = some objVersion) :
    ∃ listed revision, Synced versions
      (s.polled (some (.ok (.ofChange change))) (.watching objVersion (index + 1)))
      listed revision := by
  obtain ⟨listed, revision, hsynced⟩ := h.synced (by simp [hstate])
  have hcommitted := h.committed index change hentry
  obtain rfl : objVersion = versions.version (index + 1) :=
    Option.some.inj (hversion.symm.trans hcommitted.version)
  have hlength : index < s.log.length := (List.getElem?_eq_some_iff.mp hentry).1
  have hreport := (hsynced.overtake hstate hcursor hlength.le hgap).report hcommitted hentry
  refine ⟨listed, index + 1, ?_⟩
  cases change <;> simpa [Session.polled, Event.ofChange, hstate] using hreport

/-- One step of the watcher, one case for each kind of answer. -/
theorem Inv.poll {versions : Versions} {lp : ListParams} {s : Session K} (h : Inv versions s)
    {api : ApiServer K ℕ} {item : Option (Item K)} {state : State ℕ}
    (hserves : Serves versions s.log api s.state)
    (hstep : stepTrampolined api lp s.state = some (item, state)) :
    Inv versions (s.polled item state) := by
  refine ⟨by simpa using h.committed, ?_⟩
  have hsteps := steps_of_stepTrampolined hstep
  generalize hstate : s.state = before at hserves hsteps
  cases hsteps with
  | listed list version hlist hversion =>
    obtain ⟨revision, hrevision, hlistVersion, hsnapshot⟩ := hserves list hlist
    obtain rfl : version = versions.version revision :=
      Option.some.inj (hversion.symm.trans hlistVersion)
    obtain ⟨store, hstore⟩ := h.exists_store
    exact .inr ⟨_, _, synced_of_list h.committed hstore hrevision hsnapshot⟩
  | listFailed err hlist =>
    rcases h.progress with hunlisted | ⟨listed, revision, hsynced⟩
    · refine .inl ⟨rfl, ?_, ?_⟩
      · simp [Session.polled, sinceList_concat, hunlisted.sinceList]
      · simp [Session.polled, reflector_append, hunlisted.store, reflector]
    · exact .inr ⟨_, _, hsynced.move _ (by simp) .empty⟩
  | watchStarted version cursor hwatch =>
    obtain ⟨listed, revision, hsynced⟩ := h.synced (by simp [hstate])
    obtain ⟨hlength, hversion⟩ := hserves cursor (watch_of_watchChecked hwatch)
    have hreads := hsynced.reads
    rw [hstate] at hreads
    cases hreads with
    | initListed hskipped =>
      obtain rfl := versions.injective hversion
      have hreads : Reads versions s.log [] cursor (.watching (versions.version cursor) cursor) :=
        .watching cursor le_rfl hlength (by omega) (by simp)
      have hmove := hsynced.move none (by simp) hreads
      exact .inr ⟨listed, cursor, by simpa [Session.polled, hstate, hskipped] using hmove⟩
  | watchStartFailed version err hwatch =>
    obtain ⟨listed, revision, hsynced⟩ := h.synced (by simp [hstate])
    have hreads := hsynced.reads
    rw [hstate] at hreads
    cases hreads with
    | initListed hskipped => exact .inr ⟨_, _, hsynced.move _ (by simp) (.initListed rfl)⟩
  | applied version cursor cursor' obj objVersion hnext hversion =>
    rcases hnext with hnext | hnext
    · simp only [Serves, hnext] at hserves
      cases hserves with
      | added index _ hcursor hgap hentry =>
        exact .inr (h.sent hstate hcursor hgap hentry hversion)
    · simp only [Serves, hnext] at hserves
      cases hserves with
      | modified index _ hcursor hgap hentry =>
        exact .inr (h.sent hstate hcursor hgap hentry hversion)
  | deleted version cursor cursor' obj objVersion hnext hversion =>
    simp only [Serves, hnext] at hserves
    cases hserves with
    | deleted index _ hcursor hgap hentry =>
      exact .inr (h.sent hstate hcursor hgap hentry hversion)
  | bookmark version cursor cursor' bookmarkVersion hnext =>
    obtain ⟨listed, revision, hsynced⟩ := h.synced (by simp [hstate])
    simp only [Serves, hnext] at hserves
    cases hserves with
    | bookmark _ hcursor hrevision hgap =>
      refine .inr ⟨listed, cursor', ?_⟩
      simpa [Session.polled, hstate] using hsynced.overtake hstate hcursor hrevision hgap
  | gone version cursor cursor' err hnext hcode =>
    obtain ⟨listed, revision, hsynced⟩ := h.synced (by simp [hstate])
    exact .inr ⟨_, _, hsynced.move _ (by simp) .empty⟩
  | watchError version cursor cursor' err hnext hcode =>
    obtain ⟨listed, revision, hsynced⟩ := h.synced (by simp [hstate])
    simp only [Serves, hnext] at hserves
    cases hserves with
    | error _ =>
      rw [polled_error hstate]
      refine .inr ⟨listed, revision, hsynced.move (some (.error _)) (by simp) ?_⟩
      simpa [hstate] using hsynced.reads
  | watchFailed version cursor cursor' err hnext =>
    obtain ⟨listed, revision, hsynced⟩ := h.synced (by simp [hstate])
    have hreads := hsynced.reads
    rw [hstate] at hreads
    rw [polled_error hstate]
    refine .inr ⟨listed, revision, hsynced.move (some (.error _)) (by simp) ?_⟩
    simp only [Serves, hnext] at hserves
    cases hserves with
    | failed _ => simpa using hreads
    | undecodable index hcursor hindex hgap => exact hreads.skip hcursor hindex
  | closed version cursor cursor' hnext =>
    obtain ⟨listed, revision, hsynced⟩ := h.synced (by simp [hstate])
    have hreads := hsynced.reads
    rw [hstate] at hreads
    cases hreads with
    | watching => exact .inr ⟨_, _, hsynced.move _ (by simp) (.initListed rfl)⟩

theorem Inv.step {versions : Versions} {lp : ListParams} {s s' : Session K} (h : Inv versions s)
    (hstep : Session.Step versions lp s s') : Inv versions s' := by
  cases hstep with
  | poll api item state hserves hstep => exact h.poll hserves hstep
  | commit entry hentry =>
    refine ⟨fun index change hchange ↦ ?_, ?_⟩
    · rcases Nat.lt_trichotomy index s.log.length with hlt | rfl | hgt
      · exact h.committed index change (by rwa [List.getElem?_append_left hlt] at hchange)
      · exact hentry change (by simpa using hchange)
      · have hnone : (s.log ++ [entry])[index]? = none := List.getElem?_eq_none (by simp; omega)
        simp [hnone] at hchange
    · rcases h.progress with hunlisted | ⟨listed, revision, hsynced⟩
      · exact .inl ⟨hunlisted.state, hunlisted.sinceList, hunlisted.store⟩
      · exact .inr ⟨listed, revision, hsynced.commit entry⟩

theorem Session.Reaches.inv {versions : Versions} {lp : ListParams} {s : Session K}
    (h : s.Reaches versions lp) : Inv versions s := by
  obtain ⟨log, hlog, hrun⟩ := h
  induction hrun with
  | refl => exact ⟨hlog, .inl ⟨rfl, rfl, rfl⟩⟩
  | tail _ hstep ih => exact ih.step hstep

/-! ## Lines that cannot be decoded -/

/-- The stream reports a line that could not be decoded as this error. -/
def undecodable : Item K := .error (.watchFailed .serdeError)

/-- Nothing is skipped that the stream does not complain about. -/
def Complains (s : Session K) : Prop :=
  undecodable ∈ s.items ∨ s.skipped = [] ∧ s.missed = []

theorem Complains.poll {versions : Versions} {lp : ListParams} {s : Session K} (h : Complains s)
    {api : ApiServer K ℕ} {item : Option (Item K)} {state : State ℕ}
    (hserves : Serves versions s.log api s.state)
    (hstep : stepTrampolined api lp s.state = some (item, state)) :
    Complains (s.polled item state) := by
  rcases h with hmem | ⟨hskipped, hmissed⟩
  · exact .inl (by simp [hmem])
  have hsteps := steps_of_stepTrampolined hstep
  generalize hstate : s.state = before at hserves hsteps
  cases hsteps with
  | watchError version cursor cursor' err hnext hcode =>
    simp only [Serves, hnext] at hserves
    cases hserves with
    | error _ => exact .inr (by simp [polled_error hstate, hskipped, hmissed])
  | watchFailed version cursor cursor' err hnext =>
    simp only [Serves, hnext] at hserves
    cases hserves with
    | failed _ => exact .inr (by simp [polled_error hstate, hskipped, hmissed])
    | undecodable index hcursor hindex hgap => exact .inl (by simp [polled_error hstate, undecodable])
  | _ => exact .inr (by simp [Session.polled, hstate, hskipped, hmissed])

theorem Session.Reaches.complains {versions : Versions} {lp : ListParams} {s : Session K}
    (h : s.Reaches versions lp) : Complains s := by
  obtain ⟨log, -, hrun⟩ := h
  induction hrun with
  | refl => exact .inr ⟨rfl, rfl⟩
  | tail _ hstep ih =>
    cases hstep with
    | commit entry hentry => exact ih
    | poll api item state hserves hstep => exact ih.poll hserves hstep

/-! ## Two runs -/

namespace Session

variable {versions : Versions} {lp : ListParams} {s : Session K}

/-- A server that gives these answers. -/
def serverOf (list : ObjectList K) (cursor : ℕ)
    (next : Option (Except ClientError (WatchEvent K)) × ℕ) : ApiServer K ℕ where
  list := .ok list
  watch := fun _ ↦ .ok cursor
  next := fun _ ↦ next

theorem Step.list (hstate : s.state = .empty) {objs : List K} {revision : ℕ}
    (hrevision : revision ≤ s.log.length)
    (hsnapshot : IsSnapshot ObjectRef.fromObj objs (stateAt ObjectRef.fromObj s.log revision)) :
    Step versions lp s
      (s.polled (some (.ok (.restarted objs))) (.initListed (versions.version revision))) := by
  refine .poll (serverOf ⟨some (versions.version revision), objs⟩ 0 (none, 0)) _ _ ?_ ?_
  · rw [hstate]
    rintro list hlist
    obtain rfl := Except.ok.inj hlist
    exact ⟨revision, hrevision, rfl, hsnapshot⟩
  · simp [hstate, stepTrampolined, serverOf]

theorem Step.watch {revision : ℕ} (hstate : s.state = .initListed (versions.version revision))
    (hvalid : lp.checkWatch = .ok ()) (hrevision : revision ≤ s.log.length) :
    Step versions lp s (s.polled none (.watching (versions.version revision) revision)) := by
  refine .poll (serverOf ⟨none, []⟩ revision (none, 0)) _ _ ?_ ?_
  · rw [hstate]
    rintro cursor hcursor
    obtain rfl := Except.ok.inj hcursor
    exact ⟨hrevision, rfl⟩
  · simp [hstate, stepTrampolined, ApiServer.watchChecked, hvalid, serverOf]

theorem Step.next {version : Text} {cursor cursor' : ℕ} (hstate : s.state = .watching version cursor)
    {answer : Option (Except ClientError (WatchEvent K))}
    (hdelivers : Delivers versions s.log cursor answer cursor') {item : Option (Item K)}
    {state : State ℕ} (hstep : stepTrampolined (serverOf ⟨none, []⟩ 0 (answer, cursor')) lp s.state =
      some (item, state)) : Step versions lp s (s.polled item state) := by
  refine .poll _ _ _ ?_ hstep
  rw [hstate]
  exact hdelivers

theorem Reaches.step {s' : Session K} (h : s.Reaches versions lp) (hstep : Step versions lp s s') :
    s'.Reaches versions lp := by
  obtain ⟨log, hlog, hrun⟩ := h
  exact ⟨log, hlog, hrun.tail hstep⟩

theorem init_reaches : (init (K := K) []).Reaches versions lp := ⟨[], by simp, .refl⟩

end Session

/-- Resource versions written in unary. -/
def unaryVersions : Versions where
  version revision := List.replicate revision '1'
  injective first second h := by simpa using congrArg List.length h

/-- The first object is listed; the connection ends and is opened again before the second one comes
through it. -/
def sessionOf (first second : K) : Session K where
  log := [some (.put first), some (.put second)]
  state := .watching (unaryVersions.version 2) 2
  items := [.ok (.restarted [first]), .ok (.applied second)]
  skipped := []
  missed := []

theorem sessionOf_reaches {first second : K} (hfirst : Committed unaryVersions 0 (.put first))
    (hsecond : Committed unaryVersions 1 (.put second)) :
    (sessionOf first second).Reaches unaryVersions .default := by
  have hsnapshot : IsSnapshot ObjectRef.fromObj [first]
      (stateAt ObjectRef.fromObj [some (.put first)] 1) := by
    refine ⟨List.nodup_singleton first, fun obj ↦ ?_⟩
    by_cases hkey : ObjectRef.fromObj obj = ObjectRef.fromObj first
    · simp [stateAt, window, replay, Change.apply, hkey, eq_comm]
    · have hne : obj ≠ first := fun heq ↦ hkey (congrArg _ heq)
      simp [stateAt, window, replay, Change.apply, hkey, hne]
  have hstart : (Session.init (K := K) []).Reaches unaryVersions .default := Session.init_reaches
  have hcommitted := hstart.step (.commit (some (.put first)) (by rintro _ ⟨⟩; exact hfirst))
  have hlisted := hcommitted.step (.list rfl le_rfl hsnapshot)
  have hwatched := hlisted.step (.watch rfl rfl le_rfl)
  have hclosed := hwatched.step (.next rfl (.closed 0) rfl)
  have hreopened := hclosed.step (.watch rfl rfl le_rfl)
  have hupdated := hreopened.step (.commit (some (.put second)) (by rintro _ ⟨⟩; exact hsecond))
  have hstep : stepTrampolined (Session.serverOf ⟨none, []⟩ 0 (some (.ok (.modified second)), 2))
      .default (.watching (unaryVersions.version 1) 1) =
        some (some (.ok (.applied second)), .watching (unaryVersions.version 2) 2) := by
    have hversion : (Resource.metadata second).resourceVersion = some (unaryVersions.version 2) :=
      hsecond.version
    simp [stepTrampolined, Session.serverOf, hversion]
  have hsent := hupdated.step (.next rfl (.modified 1 second le_rfl (by omega) rfl) hstep)
  exact hsent

/-- The first object's line cannot be decoded, and the second one overtakes it. -/
def tornSessionOf (first second : K) : Session K where
  log := [some (.put first), some (.put second)]
  state := .watching (unaryVersions.version 2) 2
  items := [.ok (.restarted []), undecodable, .ok (.applied second)]
  skipped := []
  missed := [0]

theorem tornSessionOf_reaches {first second : K} (hfirst : Committed unaryVersions 0 (.put first))
    (hsecond : Committed unaryVersions 1 (.put second)) :
    (tornSessionOf first second).Reaches unaryVersions .default := by
  have hsnapshot : IsSnapshot ObjectRef.fromObj ([] : List K) (stateAt ObjectRef.fromObj [] 0) :=
    ⟨List.nodup_nil, by simp [stateAt]⟩
  have hstart : (Session.init (K := K) []).Reaches unaryVersions .default := Session.init_reaches
  have hlisted := hstart.step (.list rfl le_rfl hsnapshot)
  have hwatched := hlisted.step (.watch rfl rfl le_rfl)
  have hcommitted := hwatched.step (.commit (some (.put first)) (by rintro _ ⟨⟩; exact hfirst))
  have hskipped := hcommitted.step (.next rfl (.undecodable 0 le_rfl (by simp) (by omega)) rfl)
  have hupdated := hskipped.step (.commit (some (.put second)) (by rintro _ ⟨⟩; exact hsecond))
  have hstep : stepTrampolined (Session.serverOf ⟨none, []⟩ 0 (some (.ok (.added second)), 2))
      .default (.watching (unaryVersions.version 0) 1) =
        some (some (.ok (.applied second)), .watching (unaryVersions.version 2) 2) := by
    have hversion : (Resource.metadata second).resourceVersion = some (unaryVersions.version 2) :=
      hsecond.version
    simp [stepTrampolined, Session.serverOf, hversion]
  have hsent := hupdated.step (.next rfl (.added 1 second le_rfl (by omega) rfl) hstep)
  exact hsent

/-- Objects of which only the metadata is of interest. -/
instance : Resource ObjectMeta := ⟨id⟩

def demoObject : ObjectMeta where
  name := some "pod".toList
  ns := some "default".toList
  resourceVersion := some ['1']
  uid := none

def otherObject : ObjectMeta := { demoObject with
  name := some "other".toList
  resourceVersion := some ['1', '1'] }

def demoSession : Session ObjectMeta := sessionOf demoObject otherObject

theorem demoSession_reaches : demoSession.Reaches unaryVersions .default :=
  sessionOf_reaches ⟨rfl, rfl⟩ ⟨rfl, rfl⟩

def tornSession : Session ObjectMeta := tornSessionOf demoObject otherObject

theorem tornSession_reaches : tornSession.Reaches unaryVersions .default :=
  tornSessionOf_reaches ⟨rfl, rfl⟩ ⟨rfl, rfl⟩

/-! ## What the stream and the cache say of the collection -/

/-- The resource version that the watcher would go on from. -/
def State.resourceVersion : State ℕ → Option Text
  | .empty => none
  | .initListed resourceVersion => some resourceVersion
  | .watching resourceVersion _ => some resourceVersion

omit [Resource K] in
theorem Reads.resourceVersion {versions : Versions} {log : Log K} {skipped : List ℕ} {revision : ℕ}
    {state : State ℕ} (h : Reads versions log skipped revision state) :
    ∀ version ∈ state.resourceVersion, version = versions.version revision := by
  cases h <;> simp [State.resourceVersion]

theorem Session.Reaches.missed_eq_nil {versions : Versions} {lp : ListParams} {s : Session K}
    (h : s.Reaches versions lp) (hdecoded : undecodable ∉ s.items) : s.missed = [] := by
  rcases h.complains with hmem | ⟨-, hmissed⟩
  · exact absurd hmem hdecoded
  · exact hmissed

/-- In every run, the events since the last list are the changes committed since the revision of that
list, each once and in order, up to the revision that the watcher goes on from.  Reconnects make no
difference; only a change that could not be decoded and was overtaken is left out. -/
theorem events_since_list {versions : Versions} {lp : ListParams} {s : Session K}
    (h : s.Reaches versions lp) {objs : List K} {events : List (Event K)}
    (hsince : sinceList s.items = some (objs, events)) :
    ∃ listed revision, listed ≤ revision ∧ revision ≤ s.log.length ∧
      (∀ version ∈ s.state.resourceVersion, version = versions.version revision) ∧
      IsSnapshot ObjectRef.fromObj objs (stateAt ObjectRef.fromObj s.log listed) ∧
      events = (window (mask s.log s.missed) listed revision).map Event.ofChange ∧
      (undecodable ∉ s.items → s.missed = []) := by
  rcases h.inv.progress with hunlisted | ⟨listed, revision, hsynced⟩
  · rw [hunlisted.sinceList] at hsince
    cases hsince
  obtain ⟨objs', hsnapshot, hevents⟩ := hsynced.events
  rw [hevents, Option.some.injEq, Prod.mk.injEq] at hsince
  obtain ⟨rfl, rfl⟩ := hsince
  exact ⟨listed, revision, hsynced.le, hsynced.length, hsynced.reads.resourceVersion, hsnapshot, rfl,
    h.missed_eq_nil⟩

theorem events_since_list_demo :
    ∃ listed revision, listed ≤ revision ∧ revision ≤ tornSession.log.length ∧
      IsSnapshot ObjectRef.fromObj [] (stateAt ObjectRef.fromObj tornSession.log listed) ∧
      [.applied otherObject] = (window (mask tornSession.log [0]) listed revision).map Event.ofChange := by
  obtain ⟨listed, revision, hle, hlength, -, hsnapshot, hevents, -⟩ :=
    events_since_list tornSession_reaches
      (show sinceList tornSession.items = some ([], [.applied otherObject]) from rfl)
  exact ⟨listed, revision, hle, hlength, hsnapshot, hevents⟩

/-- In every run, the cache of a reflector on the stream is the collection as it was at the revision
that the watcher goes on from: exactly so while every line could be decoded, else without the changes
that were missed.  Before the first list it is empty. -/
theorem reflector_mirrors {versions : Versions} {lp : ListParams} {s : Session K}
    (h : s.Reaches versions lp) :
    ∃ store, reflector ∅ s.items = some store ∧
      (sinceList s.items = none → store = ∅) ∧
      (sinceList s.items ≠ none → ∃ revision ≤ s.log.length,
        (∀ version ∈ s.state.resourceVersion, version = versions.version revision) ∧
        Mirrors store (stateAt ObjectRef.fromObj (mask s.log s.missed) revision) ∧
        (undecodable ∉ s.items → Mirrors store (stateAt ObjectRef.fromObj s.log revision))) := by
  rcases h.inv.progress with hunlisted | ⟨listed, revision, hsynced⟩
  · exact ⟨∅, hunlisted.store, fun _ ↦ rfl, fun hne ↦ absurd hunlisted.sinceList hne⟩
  obtain ⟨objs, -, hevents⟩ := hsynced.events
  obtain ⟨store, hstore, hmirrors⟩ := hsynced.store
  refine ⟨store, hstore, fun hnone ↦ by simp [hevents] at hnone, fun _ ↦ ⟨revision, hsynced.length,
    hsynced.reads.resourceVersion, hmirrors, fun hdecoded ↦ ?_⟩⟩
  rwa [h.missed_eq_nil hdecoded, mask_nil] at hmirrors

theorem reflector_mirrors_demo :
    ∃ store, reflector ∅ tornSession.items = some store ∧ ∃ revision ≤ tornSession.log.length,
      Mirrors store (stateAt ObjectRef.fromObj (mask tornSession.log [0]) revision) := by
  obtain ⟨store, hstore, -, hlisted⟩ := reflector_mirrors tornSession_reaches
  obtain ⟨revision, hlength, -, hmirrors, -⟩ :=
    hlisted (by simp [tornSession, tornSessionOf, undecodable, sinceList])
  exact ⟨store, hstore, revision, hlength, hmirrors⟩

/-! ## Reading the cache -/

/-- Every object that was ever in the collection is in a namespace. -/
def Namespaced (log : Log K) : Prop :=
  ∀ (index : ℕ) (change : Change K), log[index]? = some (some change) →
    (Resource.metadata change.object).ns.isSome

def ClusterScoped (log : Log K) : Prop :=
  ∀ (index : ℕ) (change : Change K), log[index]? = some (some change) →
    (Resource.metadata change.object).ns = none

/-- The reference of an object in the collection is made of its metadata. -/
theorem exists_committed_of_stateAt {log : Log K} {revision : ℕ} {key : ObjectRef} {obj : K}
    (h : stateAt ObjectRef.fromObj log revision (some key) = some obj) :
    ∃ index : ℕ, log[index]? = some (some (.put obj)) ∧ (Resource.metadata obj).ns = key.ns := by
  obtain ⟨index, -, hentry⟩ := exists_put_of_stateAt h
  have hkey := key_of_stateAt h
  rw [ObjectRef.fromObj, Option.map_eq_some_iff] at hkey
  obtain ⟨name, -, rfl⟩ := hkey
  exact ⟨index, hentry, rfl⟩

/-- In every run, once there was a list and while every line could be decoded, `state` lists the
objects of the collection at the revision that the watcher goes on from, each once, and `get` finds
what the collection has under the reference: in its namespace for a kind with namespaces, else
whatever namespace the reference has. -/
theorem store_reads {versions : Versions} {lp : ListParams} {s : Session K}
    (h : s.Reaches versions lp) (hlisted : sinceList s.items ≠ none)
    (hdecoded : undecodable ∉ s.items) :
    ∃ store, reflector ∅ s.items = some store ∧ ∃ revision ≤ s.log.length,
      (∀ version ∈ s.state.resourceVersion, version = versions.version revision) ∧
      IsSnapshot ObjectRef.fromObj store.state (stateAt ObjectRef.fromObj s.log revision) ∧
      (Namespaced s.log → ∀ key,
        store.get key = stateAt ObjectRef.fromObj s.log revision (some key)) ∧
      (ClusterScoped s.log → ∀ key,
        store.get key = stateAt ObjectRef.fromObj s.log revision (some { key with ns := none })) := by
  have hinv := h.inv
  rcases hinv.progress with hunlisted | ⟨listed, revision, hsynced⟩
  · exact absurd hunlisted.sinceList hlisted
  obtain ⟨store, hstore, hmirrors⟩ := hsynced.store
  rw [h.missed_eq_nil hdecoded, mask_nil] at hmirrors
  refine ⟨store, hstore, revision, hsynced.length, hsynced.reads.resourceVersion, ?_, ?_, ?_⟩
  · refine hmirrors.isSnapshot_state (fun key obj hobj ↦ key_of_stateAt hobj) ?_
    rw [Option.eq_none_iff_forall_ne_some]
    intro obj hobj
    obtain ⟨index, -, hentry⟩ := exists_put_of_stateAt hobj
    have hname := (hinv.committed index _ hentry).name
    rw [Change.object, key_of_stateAt hobj] at hname
    cases hname
  · intro hscope key
    refine hmirrors.get_namespaced (fun key obj hobj ↦ ?_) key
    obtain ⟨index, hentry, hns⟩ := exists_committed_of_stateAt hobj
    rw [← hns]
    exact hscope index _ hentry
  · intro hscope key
    refine hmirrors.get_clusterScoped (fun key obj hobj ↦ ?_) key
    obtain ⟨index, hentry, hns⟩ := exists_committed_of_stateAt hobj
    rw [← hns]
    exact hscope index _ hentry

theorem store_reads_demo :
    ∃ store, reflector ∅ demoSession.items = some store ∧ ∃ revision ≤ demoSession.log.length,
      IsSnapshot ObjectRef.fromObj store.state (stateAt ObjectRef.fromObj demoSession.log revision) ∧
      ∀ key, store.get key = stateAt ObjectRef.fromObj demoSession.log revision (some key) := by
  have hscope : Namespaced demoSession.log := by
    intro index change hchange
    rcases index with _ | _ | index
    · obtain rfl := Option.some.inj (Option.some.inj hchange)
      rfl
    · obtain rfl := Option.some.inj (Option.some.inj hchange)
      rfl
    · cases hchange
  obtain ⟨store, hstore, revision, hlength, -, hsnapshot, hget, -⟩ := store_reads demoSession_reaches
    (by simp [demoSession, sessionOf, sinceList]) (by simp [demoSession, sessionOf, undecodable])
  exact ⟨store, hstore, revision, hlength, hsnapshot, hget hscope⟩

end EbpfPlayground.Kube
