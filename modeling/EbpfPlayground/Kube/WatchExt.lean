import EbpfPlayground.Kube.Watcher

/-!
# Adapters of watcher streams

`applied_objects`, `touched_objects` and `backoff` wrap a stream in another one.  A stream is given
by what it answers to the polls to come; an adapter is a machine that polls it.  Neither adapter
loses, repeats or reorders an item, whenever it is polled.
-/

namespace EbpfPlayground.Kube

/-- `Poll<Option<_>>`, the answer of a stream to a poll. -/
inductive Poll (α : Type*) where
  | pending
  | ready (item : Option α)

/-- The items among the answers. -/
def yielded {α : Type*} (answers : List (Poll α)) : List α :=
  answers.filterMap fun
    | .ready item => item
    | .pending => none

theorem yielded_cons {α : Type*} (answer : Poll α) (answers : List (Poll α)) :
    yielded (answer :: answers) = yielded [answer] ++ yielded answers :=
  List.filterMap_append (l := [answer])

variable {K : Type*}

/-- `Event::into_iter_applied`. -/
def Event.intoIterApplied : Event K → List K
  | .applied obj => [obj]
  | .deleted _ => []
  | .restarted objs => objs

/-- `Event::into_iter_touched`. -/
def Event.intoIterTouched : Event K → List K
  | .applied obj => [obj]
  | .deleted obj => [obj]
  | .restarted objs => objs

/-! ## Flattening -/

namespace EventFlatten

/-- `EventFlatten::poll_next` with its queue and the answers of the inner stream to come; after the
last of them the inner stream is pending. -/
def pollNext (emitDeleted : Bool) :
    List K → List (Poll (Item K)) → Poll (Except Error K) × List K × List (Poll (Item K))
  | obj :: queue, stream => (.ready (some (.ok obj)), queue, stream)
  | [], [] => (.pending, [], [])
  | [], .pending :: stream => (.pending, [], stream)
  | [], .ready (some (.ok (.applied obj))) :: stream => (.ready (some (.ok obj)), [], stream)
  | [], .ready (some (.ok (.deleted obj))) :: stream =>
    if emitDeleted then (.ready (some (.ok obj)), [], stream) else pollNext emitDeleted [] stream
  | [], .ready (some (.ok (.restarted objs))) :: stream => pollNext emitDeleted objs stream
  | [], .ready (some (.error err)) :: stream => (.ready (some (.error err)), [], stream)
  | [], .ready none :: stream => (.ready none, [], stream)

/-- A number of polls in a row. -/
def polls (emitDeleted : Bool) : ℕ → List K → List (Poll (Item K)) →
    List (Poll (Except Error K)) × List K × List (Poll (Item K))
  | 0, queue, stream => ([], queue, stream)
  | n + 1, queue, stream =>
    let (answer, queue', stream') := pollNext emitDeleted queue stream
    let (answers, after) := polls emitDeleted n queue' stream'
    (answer :: answers, after)

/-- The objects of an item, an error in its place. -/
def flattenItem (emitDeleted : Bool) : Item K → List (Except Error K)
  | .ok event =>
    (if emitDeleted then event.intoIterTouched else event.intoIterApplied).map .ok
  | .error err => [.error err]

/-- What is still to come of a queue and the stream behind it. -/
def pendingItems (emitDeleted : Bool) (queue : List K) (stream : List (Poll (Item K))) :
    List (Except Error K) :=
  queue.map .ok ++ (yielded stream).flatMap (flattenItem emitDeleted)

theorem pollNext_pendingItems (emitDeleted : Bool) (queue : List K) (stream : List (Poll (Item K))) :
    yielded [(pollNext emitDeleted queue stream).1] ++
        pendingItems emitDeleted (pollNext emitDeleted queue stream).2.1
          (pollNext emitDeleted queue stream).2.2 =
      pendingItems emitDeleted queue stream := by
  fun_induction pollNext emitDeleted queue stream <;>
    simp_all [pendingItems, yielded, flattenItem, Event.intoIterApplied, Event.intoIterTouched]

theorem polls_pendingItems (emitDeleted : Bool) (n : ℕ) (queue : List K)
    (stream : List (Poll (Item K))) :
    yielded (polls emitDeleted n queue stream).1 ++
        pendingItems emitDeleted (polls emitDeleted n queue stream).2.1
          (polls emitDeleted n queue stream).2.2 =
      pendingItems emitDeleted queue stream := by
  induction n generalizing queue stream with
  | zero => rfl
  | succ n ih =>
    calc yielded (polls emitDeleted (n + 1) queue stream).1 ++ _
        = yielded [(pollNext emitDeleted queue stream).1] ++
            pendingItems emitDeleted (pollNext emitDeleted queue stream).2.1
              (pollNext emitDeleted queue stream).2.2 := by
          rw [← ih (pollNext emitDeleted queue stream).2.1 (pollNext emitDeleted queue stream).2.2,
            ← List.append_assoc, ← yielded_cons]
          rfl
      _ = pendingItems emitDeleted queue stream := pollNext_pendingItems emitDeleted queue stream

/-- The polls that a queue and the stream behind it can take. -/
def work (queue : List K) (stream : List (Poll (Item K))) : ℕ :=
  queue.length + stream.length + ((yielded stream).map fun
    | .ok (.restarted objs) => objs.length
    | _ => 0).sum

theorem work_pollNext (emitDeleted : Bool) (queue : List K) (stream : List (Poll (Item K))) :
    work (pollNext emitDeleted queue stream).2.1 (pollNext emitDeleted queue stream).2.2 ≤
      work queue stream - 1 := by
  fun_induction pollNext emitDeleted queue stream <;> simp_all [work, yielded] <;> omega

theorem polls_eq_nil {emitDeleted : Bool} {n : ℕ} {queue : List K} {stream : List (Poll (Item K))}
    (h : work queue stream ≤ n) : (polls emitDeleted n queue stream).2 = ([], []) := by
  induction n generalizing queue stream with
  | zero =>
    have hqueue : queue = [] := List.length_eq_zero_iff.mp (by simp only [work] at h; omega)
    have hstream : stream = [] := List.length_eq_zero_iff.mp (by simp only [work] at h; omega)
    simp [polls, hqueue, hstream]
  | succ n ih => exact ih ((work_pollNext emitDeleted queue stream).trans (by omega))

theorem polls_begin (emitDeleted : Bool) (n : ℕ) (stream : List (Poll (Item K))) :
    yielded (polls emitDeleted n [] stream).1 <+:
      (yielded stream).flatMap (flattenItem emitDeleted) :=
  ⟨_, polls_pendingItems emitDeleted n [] stream⟩

theorem polls_all {emitDeleted : Bool} {n : ℕ} {stream : List (Poll (Item K))}
    (h : work [] stream ≤ n) :
    yielded (polls emitDeleted n [] stream).1 =
      (yielded stream).flatMap (flattenItem emitDeleted) := by
  have hpending := polls_pendingItems emitDeleted n [] stream
  rw [polls_eq_nil h] at hpending
  simpa [pendingItems, yielded] using hpending

/-- Whenever it is polled, the flattened stream yields the objects of the inner items one by one, in
order and with the errors in their places: first a beginning of them and, polled often enough, all. -/
theorem yielded_flatten (emitDeleted : Bool) (n : ℕ) (stream : List (Poll (Item K))) :
    yielded (polls emitDeleted n [] stream).1 <+:
        (yielded stream).flatMap (flattenItem emitDeleted) ∧
      (work [] stream ≤ n →
        yielded (polls emitDeleted n [] stream).1 =
          (yielded stream).flatMap (flattenItem emitDeleted)) :=
  ⟨polls_begin emitDeleted n stream, polls_all⟩

end EventFlatten

/-! ## Backing off -/

/-- The trait `Backoff`, without what the waiting times are. -/
structure Backoff (B : Type*) where
  /-- `next_backoff`, `none` for giving up. -/
  nextBackoff : B → Option ℕ × B
  reset : B → B

namespace StreamBackoff

/-- `stream_backoff::State`. -/
inductive State where
  | backingOff (duration : ℕ)
  | givenUp
  | awake

variable {α B : Type*}

/-- The state of a `StreamBackoff`, with the answers of the inner stream to come. -/
structure Machine (α B : Type*) where
  stream : List (Poll (Except Error α))
  backoff : B
  state : State

/-- The part of `poll_next` that polls the inner stream. -/
def Machine.pollInner (policy : Backoff B) (m : Machine α B) : Poll (Except Error α) × Machine α B :=
  match m.stream with
  | [] => (.pending, m)
  | .pending :: stream => (.pending, { m with stream := stream })
  | .ready (some (.error err)) :: stream =>
    let state : State := match (policy.nextBackoff m.backoff).1 with
      | some duration => .backingOff duration
      | none => .givenUp
    (.ready (some (.error err)), ⟨stream, (policy.nextBackoff m.backoff).2, state⟩)
  | .ready item :: stream =>
    (.ready item, { m with stream := stream, backoff := policy.reset m.backoff })

/-- `StreamBackoff::poll_next`, told whether a sleep of the given time has ended. -/
def Machine.pollNext (policy : Backoff B) (slept : ℕ → Bool) (m : Machine α B) :
    Poll (Except Error α) × Machine α B :=
  match m.state with
  | .backingOff duration =>
    if slept duration then { m with state := .awake }.pollInner policy else (.pending, m)
  | .givenUp => (.ready none, m)
  | .awake => m.pollInner policy

/-- A poll for each of the clocks. -/
def Machine.polls (policy : Backoff B) : List (ℕ → Bool) → Machine α B →
    List (Poll (Except Error α)) × Machine α B
  | [], m => ([], m)
  | slept :: rest, m =>
    let (answer, m') := m.pollNext policy slept
    let (answers, after) := m'.polls policy rest
    (answer :: answers, after)

/-- What the adapter lets through: everything up to the first error that the policy gives up at. -/
def accepted (policy : Backoff B) : B → List (Poll (Except Error α)) → List (Except Error α)
  | _, [] => []
  | backoff, .pending :: stream => accepted policy backoff stream
  | backoff, .ready (some (.error err)) :: stream =>
    .error err :: match policy.nextBackoff backoff with
      | (some _, backoff') => accepted policy backoff' stream
      | (none, _) => []
  | backoff, .ready (some (.ok value)) :: stream =>
    .ok value :: accepted policy (policy.reset backoff) stream
  | backoff, .ready none :: stream => accepted policy (policy.reset backoff) stream

/-- What a machine will still let through. -/
def Machine.remaining (policy : Backoff B) (m : Machine α B) : List (Except Error α) :=
  match m.state with
  | .givenUp => []
  | _ => accepted policy m.backoff m.stream

theorem pollInner_remaining (policy : Backoff B) (stream : List (Poll (Except Error α))) (backoff : B) :
    yielded [((⟨stream, backoff, .awake⟩ : Machine α B).pollInner policy).1] ++
        ((⟨stream, backoff, .awake⟩ : Machine α B).pollInner policy).2.remaining policy =
      accepted policy backoff stream := by
  match stream with
  | [] => rfl
  | .pending :: stream => rfl
  | .ready none :: stream => rfl
  | .ready (some (.ok value)) :: stream => rfl
  | .ready (some (.error err)) :: stream =>
    cases hnext : policy.nextBackoff backoff with
    | mk duration backoff' =>
      cases duration <;> simp [Machine.pollInner, Machine.remaining, accepted, yielded, hnext]

theorem pollNext_remaining (policy : Backoff B) (slept : ℕ → Bool) (m : Machine α B) :
    yielded [(m.pollNext policy slept).1] ++ (m.pollNext policy slept).2.remaining policy =
      m.remaining policy := by
  obtain ⟨stream, backoff, state⟩ := m
  cases state with
  | awake => exact pollInner_remaining policy stream backoff
  | givenUp => rfl
  | backingOff duration =>
    cases hslept : slept duration with
    | false => simp [Machine.pollNext, hslept, yielded]
    | true =>
      simp only [Machine.pollNext, hslept, if_true]
      exact pollInner_remaining policy stream backoff

theorem polls_remaining (policy : Backoff B) (clocks : List (ℕ → Bool)) (m : Machine α B) :
    yielded (m.polls policy clocks).1 ++ (m.polls policy clocks).2.remaining policy =
      m.remaining policy := by
  induction clocks generalizing m with
  | nil => rfl
  | cons slept clocks ih =>
    calc yielded (m.polls policy (slept :: clocks)).1 ++ _
        = yielded [(m.pollNext policy slept).1] ++ (m.pollNext policy slept).2.remaining policy := by
          rw [← ih (m.pollNext policy slept).2, ← List.append_assoc, ← yielded_cons]
          rfl
      _ = m.remaining policy := pollNext_remaining policy slept m

/-- A poll that finds no sleep under way takes an answer of the inner stream, if there is one. -/
theorem pollInner_stream (policy : Backoff B) (m : Machine α B) :
    (m.pollInner policy).2.stream = m.stream.tail := by
  obtain ⟨stream, backoff, state⟩ := m
  match stream with
  | [] => rfl
  | .pending :: stream => rfl
  | .ready none :: stream => rfl
  | .ready (some (.ok value)) :: stream => rfl
  | .ready (some (.error err)) :: stream => rfl

theorem polls_givenUp (policy : Backoff B) (clocks : List (ℕ → Bool)) {m : Machine α B}
    (h : m.state = .givenUp) : (m.polls policy clocks).2 = m := by
  induction clocks with
  | nil => rfl
  | cons slept clocks ih => simpa [Machine.polls, Machine.pollNext, h] using ih

theorem remaining_polls_eq_nil (policy : Backoff B) {clocks : List (ℕ → Bool)} {m : Machine α B}
    (hclocks : ∀ slept ∈ clocks, ∀ duration, slept duration = true)
    (hlength : m.stream.length ≤ clocks.length) :
    (m.polls policy clocks).2.remaining policy = [] := by
  induction clocks generalizing m with
  | nil =>
    have hstream : m.stream = [] := List.length_eq_zero_iff.mp (Nat.le_zero.mp hlength)
    cases hstate : m.state <;> simp [Machine.polls, Machine.remaining, hstate, hstream, accepted]
  | cons slept clocks ih =>
    obtain ⟨hslept, hrest⟩ := List.forall_mem_cons.mp hclocks
    have htail : m.stream.tail.length ≤ clocks.length := by simpa using hlength
    cases hstate : m.state with
    | givenUp => simp [polls_givenUp policy (slept :: clocks) hstate, Machine.remaining, hstate]
    | awake =>
      refine ih (m := (m.pollNext policy slept).2) hrest ?_
      rw [Machine.pollNext, hstate]
      exact (congrArg List.length (pollInner_stream policy m)).trans_le htail
    | backingOff duration =>
      refine ih (m := (m.pollNext policy slept).2) hrest ?_
      simp only [Machine.pollNext, hstate, hslept duration, if_true]
      exact (congrArg List.length (pollInner_stream policy _)).trans_le htail

theorem accepted_eq_yielded {policy : Backoff B}
    (hpolicy : ∀ backoff, (policy.nextBackoff backoff).1.isSome) (backoff : B)
    (stream : List (Poll (Except Error α))) : accepted policy backoff stream = yielded stream := by
  induction stream generalizing backoff with
  | nil => rfl
  | cons answer stream ih =>
    match answer with
    | .pending => exact ih backoff
    | .ready none => exact ih _
    | .ready (some (.ok value)) => exact congrArg (.ok value :: ·) (ih _)
    | .ready (some (.error err)) =>
      obtain ⟨duration, hduration⟩ := Option.isSome_iff_exists.mp (hpolicy backoff)
      cases hnext : policy.nextBackoff backoff with
      | mk next backoff' =>
        obtain rfl : next = some duration := by simpa [hnext] using hduration
        simp only [accepted, hnext]
        exact congrArg (.error err :: ·) (ih _)

/-- Whenever it is polled, the stream that backs off yields a beginning of what it accepts, in order;
polled as often as there are answers, with every sleep over by then, it yields all of that.  With a
policy that never gives up this is every item. -/
theorem yielded_backoff (policy : Backoff B) (backoff : B) (stream : List (Poll (Except Error α)))
    (clocks : List (ℕ → Bool)) :
    yielded ((⟨stream, backoff, .awake⟩ : Machine α B).polls policy clocks).1 <+:
        accepted policy backoff stream ∧
      ((∀ slept ∈ clocks, ∀ duration, slept duration = true) → stream.length ≤ clocks.length →
        yielded ((⟨stream, backoff, .awake⟩ : Machine α B).polls policy clocks).1 =
          accepted policy backoff stream) ∧
      ((∀ backoff, (policy.nextBackoff backoff).1.isSome) →
        accepted policy backoff stream = yielded stream) := by
  have hremaining := polls_remaining policy clocks (⟨stream, backoff, .awake⟩ : Machine α B)
  have hall : (⟨stream, backoff, .awake⟩ : Machine α B).remaining policy =
      accepted policy backoff stream := rfl
  rw [hall] at hremaining
  refine ⟨⟨_, hremaining⟩, fun hclocks hlength ↦ ?_, fun hpolicy ↦ accepted_eq_yielded hpolicy _ _⟩
  rw [← hremaining, remaining_polls_eq_nil policy hclocks hlength, List.append_nil]

end StreamBackoff

end EbpfPlayground.Kube
