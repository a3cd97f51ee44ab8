import EbpfPlayground.Foundation.Text
import EbpfPlayground.Foundation.ChangeLog

/-!
# The watcher of kube-runtime

`watcher` turns the list and watch calls of the Kubernetes API into one stream of events.  Its
machine has three states; a step makes one request, and what comes back is part of the step.  Errors
are passed on, and the machine goes on from the state it fell back to.
-/

namespace EbpfPlayground.Kube

variable {K σ : Type*}

/-- The fields of `ObjectMeta` that the runtime reads. -/
structure ObjectMeta where
  name : Option Text
  ns : Option Text
  resourceVersion : Option Text
  uid : Option Text
  deriving DecidableEq

/-- The trait `Resource`. -/
class Resource (K : Type*) where
  metadata : K → ObjectMeta

/-- A `Status` object of the API server. -/
structure ErrorResponse where
  status : Text
  message : Text
  reason : Text
  code : UInt16
  deriving DecidableEq

/-- `kube_client::Error`, as far as list and watch calls return it. -/
inductive ClientError where
  | api (response : ErrorResponse)
  | serdeError
  | readEvents
  | linesCodecMaxLineLengthExceeded
  /-- The request is refused before it is sent. -/
  | buildRequest
  /-- Sending the request failed. -/
  | service
  deriving DecidableEq

/-- `kube_core::watch::WatchEvent`; of a bookmark only the resource version is kept. -/
inductive WatchEvent (K : Type*) where
  | added (obj : K)
  | modified (obj : K)
  | deleted (obj : K)
  | bookmark (resourceVersion : Text)
  | error (err : ErrorResponse)

structure ObjectList (K : Type*) where
  resourceVersion : Option Text
  items : List K

/-- The parameters of list and watch calls that are checked before a request is sent. -/
structure ListParams where
  timeout : Option UInt32
  limit : Option UInt32
  continueToken : Option Text

/-- `ListParams::default()`. -/
def ListParams.default : ListParams where
  timeout := none
  limit := none
  continueToken := none

/-- `ListParams::validate`. -/
def ListParams.validate (lp : ListParams) : Except ClientError Unit :=
  match lp.timeout with
  | some timeout => if 295 ≤ timeout then .error .buildRequest else .ok ()
  | none => .ok ()

/-- The checks of `Request::watch`. -/
def ListParams.checkWatch (lp : ListParams) : Except ClientError Unit := do
  lp.validate
  if lp.limit.isSome then
    throw .buildRequest
  if lp.continueToken.isSome then
    throw .buildRequest

/-- What the API server answers at the time of a step; `σ` is an open watch connection. -/
structure ApiServer (K σ : Type*) where
  list : Except ClientError (ObjectList K)
  watch : Text → Except ClientError σ
  /-- The next item of the connection and the connection behind it. -/
  next : σ → Option (Except ClientError (WatchEvent K)) × σ

/-- `Api::watch`. -/
def ApiServer.watchChecked (api : ApiServer K σ) (lp : ListParams) (version : Text) :
    Except ClientError σ :=
  match lp.checkWatch with
  | .ok () => api.watch version
  | .error err => .error err

/-- `watcher::Event`. -/
inductive Event (K : Type*) where
  | applied (obj : K)
  | deleted (obj : K)
  | restarted (objs : List K)

/-- `watcher::Error`. -/
inductive Error where
  | initialListFailed (err : ClientError)
  | watchStartFailed (err : ClientError)
  | watchError (err : ErrorResponse)
  | watchFailed (err : ClientError)
  | tooManyObjects

/-- `watcher::State`. -/
inductive State (σ : Type*) where
  | empty
  | initListed (resourceVersion : Text)
  | watching (resourceVersion : Text) (stream : σ)

/-- An item of the watcher's stream. -/
abbrev Item (K : Type*) := Except Error (Event K)

/-- HTTP GONE. -/
def gone : UInt16 := 410

section Step

variable [Resource K]

/-- `step_trampolined`; `none` where an `unwrap` panics. -/
def stepTrampolined (api : ApiServer K σ) (lp : ListParams) :
    State σ → Option (Option (Item K) × State σ)
  | .empty =>
    match api.list with
    | .ok list =>
      list.resourceVersion.map fun resourceVersion ↦
        (some (.ok (.restarted list.items)), .initListed resourceVersion)
    | .error err => some (some (.error (.initialListFailed err)), .empty)
  | .initListed resourceVersion =>
    match api.watchChecked lp resourceVersion with
    | .ok stream => some (none, .watching resourceVersion stream)
    | .error err => some (some (.error (.watchStartFailed err)), .initListed resourceVersion)
  | .watching resourceVersion stream =>
    match api.next stream with
    | (some (.ok (.added obj)), stream) | (some (.ok (.modified obj)), stream) =>
      (Resource.metadata obj).resourceVersion.map fun resourceVersion ↦
        (some (.ok (.applied obj)), .watching resourceVersion stream)
    | (some (.ok (.deleted obj)), stream) =>
      (Resource.metadata obj).resourceVersion.map fun resourceVersion ↦
        (some (.ok (.deleted obj)), .watching resourceVersion stream)
    | (some (.ok (.bookmark bookmarkVersion)), stream) =>
      some (none, .watching bookmarkVersion stream)
    | (some (.ok (.error err)), stream) =>
      let newState := if err.code = gone then .empty else .watching resourceVersion stream
      some (some (.error (.watchError err)), newState)
    | (some (.error err), stream) =>
      some (some (.error (.watchFailed err)), .watching resourceVersion stream)
    | (none, _) => some (none, .initListed resourceVersion)

/-- Everything a step can do, one case for each kind of answer. -/
inductive Steps (api : ApiServer K σ) (lp : ListParams) : State σ → Option (Item K) → State σ → Prop
  | listed (list : ObjectList K) (version : Text) (hlist : api.list = .ok list)
      (hversion : list.resourceVersion = some version) :
      Steps api lp .empty (some (.ok (.restarted list.items))) (.initListed version)
  | listFailed (err : ClientError) (hlist : api.list = .error err) :
      Steps api lp .empty (some (.error (.initialListFailed err))) .empty
  | watchStarted (version : Text) (stream : σ) (hwatch : api.watchChecked lp version = .ok stream) :
      Steps api lp (.initListed version) none (.watching version stream)
  | watchStartFailed (version : Text) (err : ClientError)
      (hwatch : api.watchChecked lp version = .error err) :
      Steps api lp (.initListed version) (some (.error (.watchStartFailed err))) (.initListed version)
  | applied (version : Text) (stream stream' : σ) (obj : K) (objVersion : Text)
      (hnext : api.next stream = (some (.ok (.added obj)), stream') ∨
        api.next stream = (some (.ok (.modified obj)), stream'))
      (hversion : (Resource.metadata obj).resourceVersion = some objVersion) :
      Steps api lp (.watching version stream) (some (.ok (.applied obj)))
        (.watching objVersion stream')
  | deleted (version : Text) (stream stream' : σ) (obj : K) (objVersion : Text)
      (hnext : api.next stream = (some (.ok (.deleted obj)), stream'))
      (hversion : (Resource.metadata obj).resourceVersion = some objVersion) :
      Steps api lp (.watching version stream) (some (.ok (.deleted obj)))
        (.watching objVersion stream')
  | bookmark (version : Text) (stream stream' : σ) (bookmarkVersion : Text)
      (hnext : api.next stream = (some (.ok (.bookmark bookmarkVersion)), stream')) :
      Steps api lp (.watching version stream) none (.watching bookmarkVersion stream')
  | gone (version : Text) (stream stream' : σ) (err : ErrorResponse)
      (hnext : api.next stream = (some (.ok (.error err)), stream')) (hcode : err.code = gone) :
      Steps api lp (.watching version stream) (some (.error (.watchError err))) .empty
  | watchError (version : Text) (stream stream' : σ) (err : ErrorResponse)
      (hnext : api.next stream = (some (.ok (.error err)), stream')) (hcode : err.code ≠ gone) :
      Steps api lp (.watching version stream) (some (.error (.watchError err)))
        (.watching version stream')
  | watchFailed (version : Text) (stream stream' : σ) (err : ClientError)
      (hnext : api.next stream = (some (.error err), stream')) :
      Steps api lp (.watching version stream) (some (.error (.watchFailed err)))
        (.watching version stream')
  | closed (version : Text) (stream stream' : σ) (hnext : api.next stream = (none, stream')) :
      Steps api lp (.watching version stream) none (.initListed version)

theorem steps_of_stepTrampolined {api : ApiServer K σ} {lp : ListParams} {state state' : State σ}
    {item : Option (Item K)} (h : stepTrampolined api lp state = some (item, state')) :
    Steps api lp state item state' := by
  cases state with
  | empty =>
    cases hlist : api.list with
    | error err =>
      simp only [stepTrampolined, hlist, Option.some.injEq, Prod.mk.injEq] at h
      obtain ⟨rfl, rfl⟩ := h
      exact .listFailed err hlist
    | ok list =>
      simp only [stepTrampolined, hlist, Option.map_eq_some_iff, Prod.mk.injEq] at h
      obtain ⟨version, hversion, rfl, rfl⟩ := h
      exact .listed list version hlist hversion
  | initListed version =>
    cases hwatch : api.watchChecked lp version with
    | error err =>
      simp only [stepTrampolined, hwatch, Option.some.injEq, Prod.mk.injEq] at h
      obtain ⟨rfl, rfl⟩ := h
      exact .watchStartFailed version err hwatch
    | ok stream =>
      simp only [stepTrampolined, hwatch, Option.some.injEq, Prod.mk.injEq] at h
      obtain ⟨rfl, rfl⟩ := h
      exact .watchStarted version stream hwatch
  | watching version stream =>
    obtain ⟨next, stream', hnext⟩ : ∃ next stream', api.next stream = (next, stream') := ⟨_, _, rfl⟩
    match next with
    | none =>
      simp only [stepTrampolined, hnext, Option.some.injEq, Prod.mk.injEq] at h
      obtain ⟨rfl, rfl⟩ := h
      exact .closed version stream stream' hnext
    | some (.error err) =>
      simp only [stepTrampolined, hnext, Option.some.injEq, Prod.mk.injEq] at h
      obtain ⟨rfl, rfl⟩ := h
      exact .watchFailed version stream stream' err hnext
    | some (.ok (.added obj)) =>
      simp only [stepTrampolined, hnext, Option.map_eq_some_iff, Prod.mk.injEq] at h
      obtain ⟨objVersion, hversion, rfl, rfl⟩ := h
      exact .applied version stream stream' obj objVersion (.inl hnext) hversion
    | some (.ok (.modified obj)) =>
      simp only [stepTrampolined, hnext, Option.map_eq_some_iff, Prod.mk.injEq] at h
      obtain ⟨objVersion, hversion, rfl, rfl⟩ := h
      exact .applied version stream stream' obj objVersion (.inr hnext) hversion
    | some (.ok (.deleted obj)) =>
      simp only [stepTrampolined, hnext, Option.map_eq_some_iff, Prod.mk.injEq] at h
      obtain ⟨objVersion, hversion, rfl, rfl⟩ := h
      exact .deleted version stream stream' obj objVersion hnext hversion
    | some (.ok (.bookmark bookmarkVersion)) =>
      simp only [stepTrampolined, hnext, Option.some.injEq, Prod.mk.injEq] at h
      obtain ⟨rfl, rfl⟩ := h
      exact .bookmark version stream stream' bookmarkVersion hnext
    | some (.ok (.error err)) =>
      simp only [stepTrampolined, hnext, Option.some.injEq, Prod.mk.injEq] at h
      obtain ⟨rfl, rfl⟩ := h
      by_cases hcode : err.code = Kube.gone
      · rw [if_pos hcode]
        exact .gone version stream stream' err hnext hcode
      · rw [if_neg hcode]
        exact .watchError version stream stream' err hnext hcode

/-- `step`: the machine goes on until there is an item, here through at most as many requests as
there are answers.  `none` where an `unwrap` panics or the answers run out. -/
def step (lp : ListParams) : List (ApiServer K σ) → State σ →
    Option (Item K × State σ × List (ApiServer K σ))
  | [], _ => none
  | api :: rest, state =>
    match stepTrampolined api lp state with
    | some (some item, state') => some (item, state', rest)
    | some (none, state') => step lp rest state'
    | none => none

/-- `watcher` polled a number of times: the items it yields, and the machine after them. -/
def watcher (lp : ListParams) : ℕ → List (ApiServer K σ) → State σ →
    Option (List (Item K) × State σ × List (ApiServer K σ))
  | 0, apis, state => some ([], state, apis)
  | polls + 1, apis, state =>
    (step lp apis state).bind fun (item, state', rest) ↦
      (watcher lp polls rest state').map fun (items, after) ↦ (item :: items, after)

/-- The machine through all the answers, one step for each. -/
def steps (lp : ListParams) : List (ApiServer K σ) → State σ → Option (List (Item K) × State σ)
  | [], state => some ([], state)
  | api :: rest, state =>
    (stepTrampolined api lp state).bind fun (item, state') ↦
      (steps lp rest state').map fun (items, after) ↦ (item.toList ++ items, after)

@[simp]
theorem steps_cons (lp : ListParams) (api : ApiServer K σ) (rest : List (ApiServer K σ))
    (state : State σ) :
    steps lp (api :: rest) state = (stepTrampolined api lp state).bind fun (item, state') ↦
      (steps lp rest state').map fun (items, after) ↦ (item.toList ++ items, after) := rfl

/-- The trampoline only joins steps. -/
theorem steps_of_step {lp : ListParams} {apis rest : List (ApiServer K σ)} {state state' : State σ}
    {item : Item K} (h : step lp apis state = some (item, state', rest)) :
    ∃ taken, apis = taken ++ rest ∧ steps lp taken state = some ([item], state') := by
  induction apis generalizing state with
  | nil => cases h
  | cons api apis ih =>
    simp only [step] at h
    split at h
    · next item' state'' hstep =>
      cases h
      exact ⟨[api], rfl, by simp [hstep, steps]⟩
    · next state'' hstep =>
      obtain ⟨taken, happend, htaken⟩ := ih h
      exact ⟨api :: taken, by rw [happend, List.cons_append], by simp [hstep, htaken]⟩
    · cases h

theorem steps_append {lp : ListParams} {first second : List (ApiServer K σ)} {state : State σ} :
    steps lp (first ++ second) state = (steps lp first state).bind fun (items, state') ↦
      (steps lp second state').map fun (more, after) ↦ (items ++ more, after) := by
  induction first generalizing state with
  | nil => simp [steps]
  | cons api first ih =>
    rw [List.cons_append, steps_cons, steps_cons]
    cases stepTrampolined api lp state with
    | none => rfl
    | some stepped =>
      obtain ⟨item, state'⟩ := stepped
      simp only [Option.bind_some, ih]
      cases steps lp first state' with
      | none => rfl
      | some middle => simp [Function.comp_def]

/-- The items of the stream are those of the steps below it. -/
theorem steps_of_watcher {lp : ListParams} {polls : ℕ} {apis rest : List (ApiServer K σ)}
    {state state' : State σ} {items : List (Item K)}
    (h : watcher lp polls apis state = some (items, state', rest)) :
    ∃ taken, apis = taken ++ rest ∧ steps lp taken state = some (items, state') := by
  induction polls generalizing apis state items with
  | zero =>
    cases h
    exact ⟨[], rfl, rfl⟩
  | succ polls ih =>
    obtain ⟨⟨item, middle, behind⟩, hstep, hrest⟩ := Option.bind_eq_some_iff.mp h
    obtain ⟨⟨more, after⟩, hmore, heq⟩ := Option.map_eq_some_iff.mp hrest
    cases heq
    obtain ⟨first, hfirst, hitem⟩ := steps_of_step hstep
    obtain ⟨second, hsecond, hitems⟩ := ih hmore
    refine ⟨first ++ second, by rw [hfirst, hsecond, List.append_assoc], ?_⟩
    simp [steps_append, hitem, hitems]

/-- The other way round: the machine polled once for each item yields what its steps yield. -/
theorem exists_watcher_of_steps {lp : ListParams} {apis : List (ApiServer K σ)}
    {state state' : State σ} {items : List (Item K)} (h : steps lp apis state = some (items, state')) :
    ∃ after rest, watcher lp items.length apis state = some (items, after, rest) := by
  induction apis generalizing state items with
  | nil =>
    cases h
    exact ⟨_, _, rfl⟩
  | cons api apis ih =>
    obtain ⟨⟨item, middle⟩, hstep, hrest⟩ := Option.bind_eq_some_iff.mp h
    obtain ⟨⟨more, last⟩, hmore, heq⟩ := Option.map_eq_some_iff.mp hrest
    cases heq
    obtain ⟨after, rest, hwatcher⟩ := ih hmore
    cases item with
    | some item => exact ⟨after, rest, by simp [watcher, step, hstep, hwatcher]⟩
    | none =>
      cases more with
      | nil => exact ⟨_, _, rfl⟩
      | cons first more => exact ⟨after, rest, by simpa [watcher, step, hstep] using hwatcher⟩

/-! ## The language of the stream -/

/-- The sequences of items with a list before all changes and again after each HTTP GONE.  The flag
says whether there is a list to go on from. -/
def Recovers : Bool → List (Item K) → Prop
  | _, [] => True
  | false, .error (.initialListFailed _) :: rest => Recovers false rest
  | false, .ok (.restarted _) :: rest => Recovers true rest
  | true, .ok (.applied obj) :: rest =>
    (Resource.metadata obj).resourceVersion.isSome ∧ Recovers true rest
  | true, .ok (.deleted obj) :: rest =>
    (Resource.metadata obj).resourceVersion.isSome ∧ Recovers true rest
  | true, .error (.watchStartFailed _) :: rest => Recovers true rest
  | true, .error (.watchFailed _) :: rest => Recovers true rest
  | true, .error (.watchError err) :: rest => Recovers (err.code ≠ gone) rest
  | _, _ :: _ => False

/-- The state has a list to go on from. -/
def State.listed : State σ → Bool
  | .empty => false
  | _ => true

theorem Steps.recovers {api : ApiServer K σ} {lp : ListParams} {state state' : State σ}
    {item : Option (Item K)} (h : Steps api lp state item state') (rest : List (Item K)) :
    Recovers state.listed (item.toList ++ rest) ↔ Recovers state'.listed rest := by
  cases h <;> simp_all [Recovers, State.listed]

theorem recovers_append {lp : ListParams} {apis : List (ApiServer K σ)} {state state' : State σ}
    {items : List (Item K)} (h : steps lp apis state = some (items, state')) (rest : List (Item K)) :
    Recovers state.listed (items ++ rest) ↔ Recovers state'.listed rest := by
  induction apis generalizing state items with
  | nil =>
    cases h
    rfl
  | cons api apis ih =>
    obtain ⟨⟨item, middle⟩, hstep, hrest⟩ := Option.bind_eq_some_iff.mp h
    obtain ⟨⟨more, after⟩, hmore, heq⟩ := Option.map_eq_some_iff.mp hrest
    cases heq
    calc Recovers state.listed (item.toList ++ more ++ rest)
        ↔ Recovers middle.listed (more ++ rest) := by
          rw [List.append_assoc]
          exact (steps_of_stepTrampolined hstep).recovers (more ++ rest)
      _ ↔ Recovers state'.listed rest := ih hmore

/-- What the stream can still yield where the watch request is refused before it is sent. -/
def Refused (err : ClientError) : Item K → Prop
  | .ok (.restarted _) => True
  | .error (.initialListFailed _) => True
  | .error (.watchStartFailed err') => err' = err
  | _ => False

omit [Resource K] in
theorem watchChecked_eq_error {lp : ListParams} {err : ClientError} (h : lp.checkWatch = .error err)
    (api : ApiServer K σ) (version : Text) : api.watchChecked lp version = .error err := by
  rw [ApiServer.watchChecked, h]

theorem refused_steps {lp : ListParams} {err : ClientError} (h : lp.checkWatch = .error err)
    {apis : List (ApiServer K σ)} {state state' : State σ} {items : List (Item K)}
    (hstate : ∀ version stream, state ≠ .watching version stream)
    (hsteps : steps lp apis state = some (items, state')) : ∀ item ∈ items, Refused err item := by
  induction apis generalizing state items with
  | nil =>
    cases hsteps
    simp
  | cons api apis ih =>
    obtain ⟨⟨item, middle⟩, hstep, hrest⟩ := Option.bind_eq_some_iff.mp hsteps
    obtain ⟨⟨more, after⟩, hmore, heq⟩ := Option.map_eq_some_iff.mp hrest
    cases heq
    cases steps_of_stepTrampolined hstep with
    | listed list version hlist hversion =>
      simpa [Refused] using ih (by simp) hmore
    | listFailed err' hlist =>
      simpa [Refused] using ih (by simp) hmore
    | watchStarted version stream hwatch =>
      rw [watchChecked_eq_error h] at hwatch
      cases hwatch
    | watchStartFailed version err' hwatch =>
      rw [watchChecked_eq_error h] at hwatch
      cases hwatch
      simpa [Refused] using ih (by simp) hmore
    | _ => exact absurd rfl (hstate _ _)

section Answers

variable [Inhabited σ]

/-- A server whose answers to the three requests are given. -/
def answers (list : Except ClientError (ObjectList K)) (watch : Except ClientError σ)
    (next : Option (Except ClientError (WatchEvent K))) : ApiServer K σ where
  list := list
  watch := fun _ ↦ watch
  next := fun stream ↦ (next, stream)

/-- A server that accepts a watch and has nothing on it. -/
def idle : ApiServer K σ := answers (.error .service) (.ok default) none

theorem exists_steps_initListed (lp : ListParams) {state : State σ} (h : state.listed = true) :
    ∃ (apis : List (ApiServer K σ)) (version : Text),
      steps lp apis state = some ([], .initListed version) := by
  cases state with
  | empty => cases h
  | initListed version => exact ⟨[], version, rfl⟩
  | watching version stream =>
    exact ⟨[idle], version, by simp [steps, stepTrampolined, idle, answers]⟩

theorem exists_steps_watching {lp : ListParams} (hlp : lp.checkWatch = .ok ()) {state : State σ}
    (h : state.listed = true) :
    ∃ (apis : List (ApiServer K σ)) (version : Text) (stream : σ),
      steps lp apis state = some ([], .watching version stream) := by
  cases state with
  | empty => cases h
  | initListed version =>
    exact ⟨[idle], version, default, by
      simp [steps, stepTrampolined, ApiServer.watchChecked, hlp, idle, answers]⟩
  | watching version stream => exact ⟨[], version, stream, rfl⟩

omit [Inhabited σ] in
theorem steps_concat {lp : ListParams} {apis : List (ApiServer K σ)} (api : ApiServer K σ)
    {state middle after : State σ} {item : Item K}
    (hmiddle : steps lp apis state = some ([], middle))
    (hstep : stepTrampolined api lp middle = some (some item, after)) :
    steps lp (apis ++ [api]) state = some ([item], after) := by
  simp [steps_append, hmiddle, hstep, steps]

/-- An item that may come first does so for suitable answers. -/
theorem exists_steps_item {lp : ListParams} {state : State σ} {item : Item K} {rest : List (Item K)}
    (h : Recovers state.listed (item :: rest))
    (hrefused : ∀ err, lp.checkWatch = .error err → Refused err item) :
    ∃ (apis : List (ApiServer K σ)) (after : State σ),
      steps lp apis state = some ([item], after) := by
  cases hlisted : state.listed with
  | false =>
    cases state with
    | empty =>
      rw [hlisted] at h
      match item, h with
      | .error (.initialListFailed err), _ =>
        exact ⟨[answers (.error err) (.ok default) none], .empty, by
          simp [steps, stepTrampolined, answers]⟩
      | .ok (.restarted objs), _ =>
        exact ⟨[answers (.ok ⟨some [], objs⟩) (.ok default) none], .initListed [], by
          simp [steps, stepTrampolined, answers]⟩
    | initListed version => cases hlisted
    | watching version stream => cases hlisted
  | true =>
    rw [hlisted] at h
    cases hlp : lp.checkWatch with
    | error err =>
      have hitem := hrefused err hlp
      match item, h, hitem with
      | .error (.watchStartFailed err'), _, hitem =>
        obtain rfl : err' = err := hitem
        obtain ⟨apis, version, hapis⟩ := exists_steps_initListed (K := K) lp hlisted
        exact ⟨apis ++ [idle], .initListed version, steps_concat idle hapis (by
          simp [stepTrampolined, ApiServer.watchChecked, hlp])⟩
    | ok _ =>
      obtain ⟨apis, version, hapis⟩ := exists_steps_initListed (K := K) lp hlisted
      obtain ⟨apis', version', stream, hapis'⟩ := exists_steps_watching (K := K) hlp hlisted
      match item, h with
      | .error (.watchStartFailed err), _ =>
        exact ⟨_, .initListed version, steps_concat (answers (.error err) (.error err) none)
          hapis (by simp [stepTrampolined, ApiServer.watchChecked, hlp, answers])⟩
      | .error (.watchFailed err), _ =>
        exact ⟨_, .watching version' stream, steps_concat
          (answers (.error err) (.ok default) (some (.error err)))
          hapis' (by simp [stepTrampolined, answers])⟩
      | .error (.watchError err), _ =>
        exact ⟨_, _, steps_concat
          (answers (.error .service) (.ok default) (some (.ok (.error err))))
          hapis' (by simp only [stepTrampolined, answers]; rfl)⟩
      | .ok (.applied obj), h =>
        obtain ⟨objVersion, hversion⟩ := Option.isSome_iff_exists.mp h.1
        exact ⟨_, .watching objVersion stream, steps_concat
          (answers (.error .service) (.ok default) (some (.ok (.added obj))))
          hapis' (by simp [stepTrampolined, answers, hversion])⟩
      | .ok (.deleted obj), h =>
        obtain ⟨objVersion, hversion⟩ := Option.isSome_iff_exists.mp h.1
        exact ⟨_, .watching objVersion stream, steps_concat
          (answers (.error .service) (.ok default) (some (.ok (.deleted obj))))
          hapis' (by simp [stepTrampolined, answers, hversion])⟩

theorem exists_steps_items {lp : ListParams} (state : State σ) {items : List (Item K)}
    (h : Recovers state.listed items)
    (hrefused : ∀ err, lp.checkWatch = .error err → ∀ item ∈ items, Refused err item) :
    ∃ (apis : List (ApiServer K σ)) (after : State σ), steps lp apis state = some (items, after) := by
  induction items generalizing state with
  | nil => exact ⟨[], state, rfl⟩
  | cons item items ih =>
    obtain ⟨first, middle, hfirst⟩ :=
      exists_steps_item h fun err herr ↦ hrefused err herr item List.mem_cons_self
    obtain ⟨second, after, hsecond⟩ :=
      ih middle ((recovers_append hfirst items).mp h)
        fun err herr other hother ↦ hrefused err herr other (List.mem_cons_of_mem _ hother)
    exact ⟨first ++ second, after, by simp [steps_append, hfirst, hsecond]⟩

/-- The items that `watcher` can yield, over all answers of the API server: a list comes before all
changes and again after each HTTP GONE and at no other time; and where the parameters do not allow a
watch, nothing but the list and its refusals is ever yielded. -/
theorem exists_watcher_iff (lp : ListParams) (items : List (Item K)) :
    (∃ (apis rest : List (ApiServer K σ)) (state : State σ),
      watcher lp items.length apis .empty = some (items, state, rest)) ↔
      Recovers false items ∧
        ∀ err, lp.checkWatch = .error err → ∀ item ∈ items, Refused err item := by
  constructor
  · rintro ⟨apis, rest, state, hwatcher⟩
    obtain ⟨taken, -, htaken⟩ := steps_of_watcher hwatcher
    have hrecovers := (recovers_append htaken []).mpr (by simp [Recovers])
    refine ⟨by simpa [State.listed] using hrecovers, fun err herr ↦ ?_⟩
    exact refused_steps herr (by simp) htaken
  · rintro ⟨hrecovers, hrefused⟩
    obtain ⟨apis, after, hsteps⟩ := exists_steps_items (σ := σ) .empty hrecovers hrefused
    obtain ⟨state, rest, hwatcher⟩ := exists_watcher_of_steps hsteps
    exact ⟨apis, rest, state, hwatcher⟩

end Answers

end Step

end EbpfPlayground.Kube
