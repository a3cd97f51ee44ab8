import EbpfPlayground.Foundation.Debounce
import EbpfPlayground.Foundation.DelayQueue
import EbpfPlayground.Foundation.Run
import EbpfPlayground.Kube.WatchExt

/-!
# The scheduler of kube-runtime

`Scheduler` delays messages and deduplicates them, and `hold_unless` keeps back those that cannot be
taken yet.  A message is in the delay queue and the hash map, or in the hash set of what is held back;
the code relies on the three to agree.  Over every run it is stated when a message is emitted.
-/

namespace EbpfPlayground.Kube

open Debounce (Outstanding Legal due)

structure ScheduleRequest (T : Type*) where
  message : T
  runAt : ℕ

structure ScheduledEntry where
  runAt : ℕ
  queueKey : ℕ

/-- `Scheduler`, with the time in the ticks of its queue. -/
structure Scheduler (T Q : Type*) where
  queue : Q
  scheduled : AList fun _ : T ↦ ScheduledEntry
  pending : List T
  /-- The answers of the request stream to come; after the last of them it is pending. -/
  requests : List (Poll (ScheduleRequest T))
  /-- What was taken in and handed out so far, of which the code keeps no record. -/
  history : List (Debounce.Event T)

variable {T Q : Type*} [DecidableEq T] [DelayQueue Q T]

namespace Scheduler

/-- `Scheduler::new`. -/
def new (requests : List (Poll (ScheduleRequest T))) : Scheduler T Q :=
  ⟨DelayQueue.new, ∅, [], requests, []⟩

/-- `schedule_message`; `none` where the queue panics. -/
def scheduleMessage (s : Scheduler T Q) (request : ScheduleRequest T) : Option (Scheduler T Q) :=
  if request.message ∈ s.pending then some s
  else match s.scheduled.lookup request.message with
    | some oldEntry =>
      if request.runAt ≤ oldEntry.runAt then
        (DelayQueue.resetAt s.queue oldEntry.queueKey request.runAt).map fun queue ↦
          { s with
            queue := queue
            scheduled := s.scheduled.insert request.message { oldEntry with runAt := request.runAt } }
      else some s
    | none =>
      (DelayQueue.insertAt s.queue request.message request.runAt).map fun (queueKey, queue) ↦
        { s with
          queue := queue
          scheduled := s.scheduled.insert request.message ⟨request.runAt, queueKey⟩ }

/-- The loop of `poll_pop_queue_message`; `none` where a message that expired is not in the map. -/
def popExpired (now : ℕ) (canTake : T → Bool) : ℕ → Scheduler T Q → Option (Option T × Scheduler T Q)
  | 0, _ => none
  | fuel + 1, s =>
    match DelayQueue.pollExpired s.queue now with
    | (some message, queue) =>
      match s.scheduled.lookup message with
      | none => none
      | some _ =>
        let s' := { s with queue := queue, scheduled := s.scheduled.erase message }
        if canTake message then some (some message, s')
        else popExpired now canTake fuel { s' with pending := s'.pending.insert message }
    | (none, queue) => some (none, { s with queue := queue })

/-- `poll_pop_queue_message`. -/
def pollPopQueueMessage (now : ℕ) (canTake : T → Bool) (s : Scheduler T Q) :
    Option (Option T × Scheduler T Q) :=
  match s.pending.find? canTake with
  | some message => some (some message, { s with pending := s.pending.erase message })
  | none => popExpired now canTake (DelayQueue.len s.queue + 1) s

/-- The loop of `poll_next` that takes the requests, told whether there are no more; the stream is
fused. -/
def takeRequests : List (Poll (ScheduleRequest T)) → Scheduler T Q → Option (Bool × Scheduler T Q)
  | [], s => some (false, { s with requests := [] })
  | .pending :: requests, s => some (false, { s with requests := requests })
  | .ready none :: requests, s => some (true, { s with requests := .ready none :: requests })
  | .ready (some request) :: requests, s =>
    (s.scheduleMessage request).bind fun s' ↦ takeRequests requests
      { s' with history := s'.history ++ [.requested request.message request.runAt] }

/-- `HoldUnless::poll_next`. -/
def holdUnless (now : ℕ) (canTake : T → Bool) (s : Scheduler T Q) :
    Option (Poll T × Scheduler T Q) :=
  match takeRequests s.requests s with
  | none => none
  | some (true, s') => some (.ready none, s')
  | some (false, s') =>
    match s'.pollPopQueueMessage now canTake with
    | none => none
    | some (some message, s'') =>
      some (.ready (some message), { s'' with history := s''.history ++ [.emitted message now] })
    | some (none, s'') => some (.pending, s'')

/-! ## The queue, the map and the set -/

/-- The queue and the map hold the same messages, and none of what is held back. -/
structure Linked (s : Scheduler T Q) : Prop where
  entry : ∀ message scheduled, s.scheduled.lookup message = some scheduled →
    DelayQueue.entry s.queue scheduled.queueKey = some (message, scheduled.runAt)
  lookup : ∀ key message deadline, DelayQueue.entry s.queue key = some (message, deadline) →
    s.scheduled.lookup message = some ⟨deadline, key⟩
  nodup : s.pending.Nodup
  apart : ∀ message ∈ s.pending, s.scheduled.lookup message = none

/-- They hold just what is outstanding. -/
structure Tracks (s : Scheduler T Q) (clock : ℕ) : Prop extends s.Linked where
  held : ∀ message ∈ s.pending, ∃ runAt ≤ clock, due s.history message = some runAt
  waiting : ∀ message ∉ s.pending,
    due s.history message = (s.scheduled.lookup message).map ScheduledEntry.runAt
  legal : Legal s.history

/-- One of these requests is for a time too far in the future for the queue. -/
def Overreach (requests : List (Poll (ScheduleRequest T))) (s : Scheduler T Q) : Prop :=
  ∃ request, .ready (some request) ∈ requests ∧ DelayQueue.horizon s.queue < request.runAt

abbrev Overreaches (s : Scheduler T Q) : Prop := Overreach s.requests s

/-- The messages that a scheduler can still emit, at most. -/
def work (s : Scheduler T Q) : ℕ := s.pending.length + DelayQueue.len s.queue + s.requests.length

variable {s : Scheduler T Q} {clock now : ℕ}

theorem tracks_new (requests : List (Poll (ScheduleRequest T))) :
    (new requests : Scheduler T Q).Tracks 0 where
  entry message scheduled h := by
    rw [new, AList.lookup_empty] at h
    cases h
  lookup key message deadline h := by
    rw [new, DelayQueue.entry_new] at h
    cases h
  nodup := List.nodup_nil
  apart _ h := absurd h List.not_mem_nil
  held _ h := absurd h List.not_mem_nil
  waiting message _ := by
    rw [new, AList.lookup_empty]
    rfl
  legal := Debounce.legal_nil

theorem Tracks.mono (h : s.Tracks clock) (hle : clock ≤ now) : s.Tracks now where
  toLinked := h.toLinked
  held message hmem := by
    obtain ⟨runAt, hrunAt, hdue⟩ := h.held message hmem
    exact ⟨runAt, hrunAt.trans hle, hdue⟩
  waiting := h.waiting
  legal := h.legal

theorem Tracks.withRequests (h : s.Tracks clock) (requests : List (Poll (ScheduleRequest T))) :
    ({ s with requests := requests } : Scheduler T Q).Tracks clock :=
  ⟨⟨h.entry, h.lookup, h.nodup, h.apart⟩, h.held, h.waiting, h.legal⟩

/-- A hash set may be gone through in any order. -/
theorem Tracks.shuffle (h : s.Tracks clock) {pending : List T} (hperm : s.pending.Perm pending) :
    ({ s with pending := pending } : Scheduler T Q).Tracks clock where
  entry := h.entry
  lookup := h.lookup
  nodup := hperm.nodup h.nodup
  apart message hmem := h.apart message (hperm.mem_iff.mpr hmem)
  held message hmem := h.held message (hperm.mem_iff.mpr hmem)
  waiting message hmem := h.waiting message fun hold ↦ hmem (hperm.mem_iff.mp hold)
  legal := h.legal

/-- A message comes into the queue under a free key, or its entry is changed. -/
theorem Linked.put (h : s.Linked) {message : T} {queueKey runAt : ℕ} {queue : Q}
    (hqueue : DelayQueue.entry queue =
      Function.update (DelayQueue.entry s.queue) queueKey (some (message, runAt)))
    (hkey : ∀ other old, DelayQueue.entry s.queue queueKey = some (other, old) → other = message)
    (hown : ∀ scheduled, s.scheduled.lookup message = some scheduled → scheduled.queueKey = queueKey)
    (hpending : message ∉ s.pending) :
    ({ s with queue := queue, scheduled := s.scheduled.insert message ⟨runAt, queueKey⟩ } :
      Scheduler T Q).Linked where
  entry other scheduled hlookup := by
    rw [hqueue]
    by_cases hother : other = message
    · subst hother
      rw [AList.lookup_insert] at hlookup
      obtain rfl := Option.some.inj hlookup
      exact Function.update_self ..
    · rw [AList.lookup_insert_ne hother] at hlookup
      have hentry := h.entry other scheduled hlookup
      have hne : scheduled.queueKey ≠ queueKey := by
        intro heq
        rw [heq] at hentry
        exact hother (hkey other _ hentry)
      rw [Function.update_of_ne hne, hentry]
  lookup key other deadline hentry := by
    rw [hqueue] at hentry
    by_cases heq : key = queueKey
    · rw [heq, Function.update_self] at hentry
      obtain ⟨rfl, rfl⟩ := Prod.mk.inj (Option.some.inj hentry)
      rw [heq]
      exact AList.lookup_insert _
    · rw [Function.update_of_ne heq] at hentry
      have hlookup := h.lookup key other deadline hentry
      have hother : other ≠ message := by
        rintro rfl
        exact heq (hown _ hlookup)
      exact (AList.lookup_insert_ne hother).trans hlookup
  nodup := h.nodup
  apart other hmem := by
    have hother : other ≠ message := by
      rintro rfl
      exact hpending hmem
    exact (AList.lookup_insert_ne hother).trans (h.apart other hmem)

/-- A message leaves the queue and the map. -/
theorem Linked.remove (h : s.Linked) {message : T} {key deadline : ℕ} {queue : Q}
    (hentry : DelayQueue.entry s.queue key = some (message, deadline))
    (hqueue : DelayQueue.entry queue = Function.update (DelayQueue.entry s.queue) key none) :
    ({ s with queue := queue, scheduled := s.scheduled.erase message } : Scheduler T Q).Linked where
  entry other scheduled hlookup := by
    have hother : other ≠ message := by
      rintro rfl
      rw [AList.lookup_erase] at hlookup
      cases hlookup
    rw [AList.lookup_erase_ne hother] at hlookup
    have hold := h.entry other scheduled hlookup
    have hne : scheduled.queueKey ≠ key := by
      intro heq
      rw [heq, hentry] at hold
      exact hother (Prod.mk.inj (Option.some.inj hold)).1.symm
    rw [hqueue, Function.update_of_ne hne, hold]
  lookup other message' deadline' hold := by
    rw [hqueue] at hold
    have hne : other ≠ key := by
      rintro rfl
      rw [Function.update_self] at hold
      cases hold
    rw [Function.update_of_ne hne] at hold
    have hlookup := h.lookup other message' deadline' hold
    have hother : message' ≠ message := by
      rintro rfl
      have hsame := hlookup.symm.trans (h.lookup key message' deadline hentry)
      exact hne (ScheduledEntry.mk.inj (Option.some.inj hsame)).2
    exact (AList.lookup_erase_ne hother).trans hlookup
  nodup := h.nodup
  apart other hmem := by
    by_cases hother : other = message
    · subst hother
      exact AList.lookup_erase ..
    · exact (AList.lookup_erase_ne hother).trans (h.apart other hmem)

/-! ## Taking requests -/

/-- What taking a request does, if the queue does not panic: the earlier of two times takes precedence. -/
structure Scheduled (s : Scheduler T Q) (request : ScheduleRequest T) (s' : Scheduler T Q) : Prop
    extends s'.Linked where
  pending_eq : s'.pending = s.pending
  history_eq : s'.history = s.history
  len_le : DelayQueue.len s'.queue ≤ DelayQueue.len s.queue + 1
  horizon_eq : DelayQueue.horizon s'.queue = DelayQueue.horizon s.queue
  other : ∀ other, other ≠ request.message → s'.scheduled.lookup other = s.scheduled.lookup other
  self : request.message ∉ s.pending →
    (s'.scheduled.lookup request.message).map ScheduledEntry.runAt =
      some (((s.scheduled.lookup request.message).map ScheduledEntry.runAt).elim request.runAt
        (min request.runAt))

/-- A request is taken, unless the queue panics on its time. -/
theorem Linked.scheduleMessage (h : s.Linked) (request : ScheduleRequest T) :
    (s.scheduleMessage request = none ∧ DelayQueue.horizon s.queue < request.runAt) ∨
      ∃ s', s.scheduleMessage request = some s' ∧ s.Scheduled request s' := by
  by_cases hpending : request.message ∈ s.pending
  · exact .inr ⟨s, if_pos hpending, h, rfl, rfl, Nat.le_succ _, rfl, fun _ _ ↦ rfl,
      fun hnot ↦ absurd hpending hnot⟩
  rw [Scheduler.scheduleMessage, if_neg hpending]
  cases hlookup : s.scheduled.lookup request.message with
  | none =>
    rcases Nat.lt_or_ge (DelayQueue.horizon s.queue) request.runAt with hfar | hnear
    · exact .inl ⟨by simp only [DelayQueue.insertAt_of_lt _ _ _ hfar, Option.map_none], hfar⟩
    obtain ⟨queueKey, queue, hinsert, hfresh, hlen, hhorizon, hqueue⟩ :=
      DelayQueue.insertAt_of_le s.queue request.message request.runAt hnear
    have hput := h.put hqueue (fun other old hold ↦ by rw [hfresh] at hold; cases hold)
      (fun scheduled hsome ↦ by rw [hlookup] at hsome; cases hsome) hpending
    refine .inr ⟨_, by simp only [hinsert, Option.map_some], hput, rfl, rfl, hlen.le, hhorizon,
      fun other hother ↦ AList.lookup_insert_ne hother, fun _ ↦ ?_⟩
    simp [AList.lookup_insert, hlookup]
  | some old =>
    by_cases hle : request.runAt ≤ old.runAt
    · rcases Nat.lt_or_ge (DelayQueue.horizon s.queue) request.runAt with hfar | hnear
      · exact .inl ⟨by simp only [if_pos hle, DelayQueue.resetAt_of_lt _ _ _ hfar, Option.map_none], hfar⟩
      have hentry := h.entry _ _ hlookup
      obtain ⟨queue, hreset, hlen, hhorizon, hqueue⟩ := DelayQueue.resetAt_of_le s.queue old.queueKey
        request.runAt hnear request.message old.runAt hentry
      have hput := h.put hqueue
        (fun other time hold ↦ (Prod.mk.inj (Option.some.inj (hold.symm.trans hentry))).1)
        (fun scheduled hsome ↦ by rw [hlookup] at hsome; rw [Option.some.inj hsome]) hpending
      refine .inr ⟨_, by simp only [if_pos hle, hreset, Option.map_some], hput, rfl, rfl,
        hlen.le.trans (Nat.le_succ _), hhorizon, fun other hother ↦ AList.lookup_insert_ne hother,
        fun _ ↦ ?_⟩
      simp [AList.lookup_insert, hlookup, hle]
    · refine .inr ⟨s, by simp only [if_neg hle], h, rfl, rfl, Nat.le_succ _, rfl, fun _ _ ↦ rfl,
        fun _ ↦ ?_⟩
      simp [hlookup, (Nat.lt_of_not_le hle).le]

/-- What is outstanding after a request is what the queue, the map and the set hold. -/
theorem Tracks.scheduled (h : s.Tracks clock) {request : ScheduleRequest T} {s' : Scheduler T Q}
    (hs : s.Scheduled request s') :
    ({ s' with history := s'.history ++ [.requested request.message request.runAt] } :
      Scheduler T Q).Tracks clock := by
  obtain ⟨hlinked, hpending, hhistory, -, -, hother, hself⟩ := hs
  refine ⟨⟨hlinked.entry, hlinked.lookup, hlinked.nodup, hlinked.apart⟩,
    fun message hmem ↦ ?_, fun message hmem ↦ ?_, ?_⟩
  · simp only [hpending, hhistory] at hmem ⊢
    obtain ⟨runAt, hle, hdue⟩ := h.held message hmem
    by_cases hmessage : request.message = message
    · subst hmessage
      rw [Debounce.due_requested_self, hdue]
      exact ⟨_, (min_le_right _ _).trans hle, rfl⟩
    · rw [Debounce.due_requested_of_ne hmessage]
      exact ⟨runAt, hle, hdue⟩
  · simp only [hpending, hhistory] at hmem ⊢
    by_cases hmessage : request.message = message
    · subst hmessage
      rw [Debounce.due_requested_self, hself hmem, h.waiting _ hmem]
    · rw [Debounce.due_requested_of_ne hmessage, h.waiting message hmem,
        hother message (Ne.symm hmessage)]
  · rw [hhistory]
    exact Debounce.legal_concat h.legal fun _ _ heq ↦ by cases heq

/-- The requests are taken, unless one of them is for a time too far in the future. -/
theorem Tracks.takeRequests (h : s.Tracks clock) (requests : List (Poll (ScheduleRequest T))) :
    (takeRequests requests s = none ∧ Overreach requests s) ∨
      ∃ ended s', takeRequests requests s = some (ended, s') ∧ s'.Tracks clock ∧
        s'.pending = s.pending ∧ (ended = true → ∃ rest, s'.requests = .ready none :: rest) ∧
        DelayQueue.len s'.queue + s'.requests.length ≤ DelayQueue.len s.queue + requests.length ∧
        s'.requests ⊆ requests ∧ DelayQueue.horizon s'.queue = DelayQueue.horizon s.queue := by
  induction requests generalizing s with
  | nil =>
    exact .inr ⟨false, _, rfl, h.withRequests _, rfl, fun heq ↦ (by cases heq), le_rfl,
      List.Subset.refl _, rfl⟩
  | cons answer requests ih =>
    match answer with
    | .pending =>
      exact .inr ⟨false, _, rfl, h.withRequests _, rfl, fun heq ↦ (by cases heq), by simp,
        List.subset_cons_self _ _, rfl⟩
    | .ready none =>
      exact .inr ⟨true, _, rfl, h.withRequests _, rfl, fun _ ↦ ⟨requests, rfl⟩, le_rfl,
        List.Subset.refl _, rfl⟩
    | .ready (some request) =>
      rw [Scheduler.takeRequests]
      rcases h.toLinked.scheduleMessage request with ⟨hpanic, hfar⟩ | ⟨middle, hmiddle, hs⟩
      · exact .inl ⟨by rw [hpanic, Option.bind_none], request, List.mem_cons_self, hfar⟩
      rw [hmiddle, Option.bind_some]
      rcases ih (h.scheduled hs) with ⟨hpanic, far, hmem, hfar⟩ |
        ⟨ended, s', hs', htracks, hpending, hended, hlen, hsubset, hhorizon⟩
      · exact .inl ⟨hpanic, far, List.mem_cons_of_mem _ hmem, hs.horizon_eq ▸ hfar⟩
      · refine .inr ⟨ended, s', hs', htracks, hpending.trans hs.pending_eq, hended, ?_,
          List.subset_cons_of_subset _ hsubset, hhorizon.trans hs.horizon_eq⟩
        have hmore := hs.len_le
        simp only [List.length_cons] at hlen ⊢
        omega

/-! ## Handing out messages -/

/-- A message that is held back is emitted. -/
theorem Tracks.emitPending (h : s.Tracks now) {message : T} (hmem : message ∈ s.pending) :
    ({ s with
      pending := s.pending.erase message
      history := s.history ++ [.emitted message now] } : Scheduler T Q).Tracks now where
  entry := h.entry
  lookup := h.lookup
  nodup := h.nodup.erase message
  apart other hother := h.apart other (List.mem_of_mem_erase hother)
  held other hother := by
    obtain ⟨hne, hold⟩ := h.nodup.mem_erase_iff.mp hother
    obtain ⟨runAt, hle, hdue⟩ := h.held other hold
    exact ⟨runAt, hle, (Debounce.due_emitted_of_ne hne.symm _ _).trans hdue⟩
  waiting other hother := by
    by_cases heq : message = other
    · subst heq
      exact (Debounce.due_emitted_self ..).trans (by rw [h.apart message hmem]; rfl)
    · have hold : other ∉ s.pending := fun hin ↦
        hother ((List.mem_erase_of_ne (Ne.symm heq)).mpr hin)
      exact (Debounce.due_emitted_of_ne heq _ _).trans (h.waiting other hold)
  legal := by
    refine Debounce.legal_concat h.legal fun other time heq ↦ ?_
    obtain ⟨rfl, rfl⟩ := Debounce.Event.emitted.inj heq
    obtain ⟨runAt, hle, hdue⟩ := h.held message hmem
    exact ⟨runAt, hle, Debounce.outstanding_of_due hdue⟩

/-- What is known of an entry of the queue. -/
theorem Tracks.of_entry (h : s.Tracks clock) {message : T} {key deadline : ℕ}
    (hentry : DelayQueue.entry s.queue key = some (message, deadline)) :
    s.scheduled.lookup message = some ⟨deadline, key⟩ ∧ message ∉ s.pending ∧
      due s.history message = some deadline := by
  have hlookup := h.lookup key message deadline hentry
  have hpending : message ∉ s.pending := by
    intro hmem
    rw [h.apart message hmem] at hlookup
    cases hlookup
  refine ⟨hlookup, hpending, ?_⟩
  rw [h.waiting message hpending, hlookup]
  rfl

/-- A message that has expired is emitted. -/
theorem Tracks.emitExpired (h : s.Tracks now) {message : T} {key deadline : ℕ} {queue : Q}
    (hentry : DelayQueue.entry s.queue key = some (message, deadline)) (hdue : deadline ≤ now)
    (hqueue : DelayQueue.entry queue = Function.update (DelayQueue.entry s.queue) key none) :
    ({ s with
      queue := queue
      scheduled := s.scheduled.erase message
      history := s.history ++ [.emitted message now] } : Scheduler T Q).Tracks now := by
  obtain ⟨-, hpending, hwaiting⟩ := h.of_entry hentry
  have hremove := h.toLinked.remove hentry hqueue
  refine ⟨⟨hremove.entry, hremove.lookup, hremove.nodup, hremove.apart⟩, fun other hother ↦ ?_,
    fun other hother ↦ ?_, ?_⟩
  · obtain ⟨runAt, hle, hdueOther⟩ := h.held other hother
    have hne : message ≠ other := by
      rintro rfl
      exact hpending hother
    exact ⟨runAt, hle, (Debounce.due_emitted_of_ne hne _ _).trans hdueOther⟩
  · by_cases heq : message = other
    · subst heq
      exact (Debounce.due_emitted_self ..).trans (by rw [AList.lookup_erase]; rfl)
    · rw [Debounce.due_emitted_of_ne heq, AList.lookup_erase_ne (Ne.symm heq)]
      exact h.waiting other hother
  · refine Debounce.legal_concat h.legal fun other time heq ↦ ?_
    obtain ⟨rfl, rfl⟩ := Debounce.Event.emitted.inj heq
    exact ⟨deadline, hdue, Debounce.outstanding_of_due hwaiting⟩

/-- A message that has expired is held back. -/
theorem Tracks.holdExpired (h : s.Tracks now) {message : T} {key deadline : ℕ} {queue : Q}
    (hentry : DelayQueue.entry s.queue key = some (message, deadline)) (hdue : deadline ≤ now)
    (hqueue : DelayQueue.entry queue = Function.update (DelayQueue.entry s.queue) key none) :
    ({ s with
      queue := queue
      scheduled := s.scheduled.erase message
      pending := message :: s.pending } : Scheduler T Q).Tracks now := by
  obtain ⟨-, hpending, hwaiting⟩ := h.of_entry hentry
  have hremove := h.toLinked.remove hentry hqueue
  refine ⟨⟨hremove.entry, hremove.lookup, List.nodup_cons.mpr ⟨hpending, h.nodup⟩,
    fun other hother ↦ ?_⟩, fun other hother ↦ ?_, fun other hother ↦ ?_, h.legal⟩
  · rcases List.mem_cons.mp hother with rfl | hold
    · exact AList.lookup_erase ..
    · exact hremove.apart other hold
  · rcases List.mem_cons.mp hother with rfl | hold
    · exact ⟨deadline, hdue, hwaiting⟩
    · exact h.held other hold
  · obtain ⟨hne, hold⟩ := not_or.mp (mt List.mem_cons.mpr hother)
    rw [AList.lookup_erase_ne hne]
    exact h.waiting other hold

/-- What the loop over the expired messages does: it hands out one that may be taken, or leaves none
that has expired in the queue. -/
theorem Tracks.popExpired (h : s.Tracks now) (canTake : T → Bool) {fuel : ℕ}
    (hfuel : DelayQueue.len s.queue < fuel) :
    ∃ popped s', popExpired now canTake fuel s = some (popped, s') ∧ s'.history = s.history ∧
      s'.requests = s.requests ∧ DelayQueue.horizon s.queue ≤ DelayQueue.horizon s'.queue ∧
      (∀ message, popped = some message → canTake message = true ∧
        s'.pending.length + DelayQueue.len s'.queue < s.pending.length + DelayQueue.len s.queue ∧
        ({ s' with history := s'.history ++ [.emitted message now] } : Scheduler T Q).Tracks now) ∧
      (popped = none → s'.Tracks now ∧
        s'.pending.length + DelayQueue.len s'.queue ≤ s.pending.length + DelayQueue.len s.queue ∧
        (∀ key message deadline, DelayQueue.entry s'.queue key = some (message, deadline) →
          now < deadline) ∧
        ∀ message ∈ s'.pending, message ∈ s.pending ∨ canTake message = false) := by
  induction fuel generalizing s with
  | zero => cases hfuel
  | succ fuel ih =>
    rw [Scheduler.popExpired]
    have hhorizon := DelayQueue.le_horizon_pollExpired s.queue now
    cases hpoll : DelayQueue.pollExpired s.queue now with
    | mk popped queue =>
      rw [hpoll] at hhorizon
      cases popped with
      | none =>
        obtain ⟨hqueue, hlen, hlate⟩ := DelayQueue.pollExpired_none s.queue now (by rw [hpoll])
        rw [hpoll] at hqueue hlen
        refine ⟨none, _, rfl, rfl, rfl, hhorizon, fun message heq ↦ (by cases heq),
          fun _ ↦ ⟨?_, ?_, ?_, ?_⟩⟩
        · exact ⟨⟨fun message scheduled hlookup ↦ (congrFun hqueue _).trans
            (h.entry message scheduled hlookup),
            fun key message deadline hentry ↦ h.lookup key message deadline
              ((congrFun hqueue key).symm.trans hentry), h.nodup, h.apart⟩, h.held, h.waiting, h.legal⟩
        · exact (congrArg (s.pending.length + ·) hlen).le
        · exact fun key message deadline hentry ↦ hlate key message deadline
            ((congrFun hqueue key).symm.trans hentry)
        · exact fun message hmem ↦ .inl hmem
      | some message =>
        obtain ⟨key, deadline, hentry, hdue, hqueue, hlen⟩ :=
          DelayQueue.pollExpired_some s.queue now message (by rw [hpoll])
        rw [hpoll] at hqueue hlen
        simp only at hqueue hlen
        obtain ⟨hlookup, hpending, -⟩ := h.of_entry hentry
        simp only [hlookup]
        cases htake : canTake message with
        | true =>
          refine ⟨some message, _, if_pos rfl, rfl, rfl, hhorizon, fun other heq ↦ ?_,
            fun heq ↦ by cases heq⟩
          obtain rfl := Option.some.inj heq
          refine ⟨htake, ?_, h.emitExpired hentry hdue hqueue⟩
          simp only
          omega
        | false =>
          rw [if_neg Bool.false_ne_true, List.insert_of_not_mem hpending]
          obtain ⟨popped, s', hs', hhistory, hrequests, hmore, hsome, hnone⟩ :=
            ih (s := { s with
              queue := queue
              scheduled := s.scheduled.erase message
              pending := message :: s.pending }) (h.holdExpired hentry hdue hqueue)
              (by simp only; omega)
          simp only [List.length_cons] at hsome hnone
          refine ⟨popped, s', hs', hhistory, hrequests, hhorizon.trans hmore, fun other heq ↦ ?_,
            fun heq ↦ ?_⟩
          · obtain ⟨hother, hless, htracks⟩ := hsome other heq
            exact ⟨hother, by omega, htracks⟩
          · obtain ⟨htracks, hless, hlate, hkept⟩ := hnone heq
            refine ⟨htracks, by omega, hlate, fun other hmem ↦ ?_⟩
            rcases hkept other hmem with hold | hnot
            · rcases List.mem_cons.mp hold with rfl | hold
              · exact .inr htake
              · exact .inl hold
            · exact .inr hnot

/-- What an answer of the scheduler tells. -/
def Answers (now : ℕ) (canTake : T → Bool) (s : Scheduler T Q) : Poll T → Prop
  | .ready (some message) => canTake message = true ∧
      ∃ history, s.history = history ++ [.emitted message now]
  | .ready none => ∃ requests, s.requests = .ready none :: requests
  | .pending => ∀ message runAt, Outstanding s.history message runAt → runAt ≤ now →
      canTake message = false

/-- With nothing in the queue that has expired and nothing held back that may be taken, nothing that
may be taken is due. -/
theorem Tracks.answers_pending (h : s.Tracks now) {canTake : T → Bool}
    (hlate : ∀ key message deadline, DelayQueue.entry s.queue key = some (message, deadline) →
      now < deadline) (hheld : ∀ message ∈ s.pending, canTake message = false) :
    s.Answers now canTake .pending := by
  intro message runAt hout hle
  by_cases hmem : message ∈ s.pending
  · exact hheld message hmem
  obtain ⟨earliest, hearliest, hdue⟩ := Debounce.exists_due_of_outstanding hout
  rw [h.waiting message hmem, Option.map_eq_some_iff] at hdue
  obtain ⟨scheduled, hlookup, rfl⟩ := hdue
  have hlt := hlate _ _ _ (h.entry message scheduled hlookup)
  exact absurd (hearliest.trans hle) (Nat.not_le.mpr hlt)

/-- What a poll does, if the queue does not panic. -/
structure Polled (s : Scheduler T Q) (now : ℕ) (canTake : T → Bool) (answer : Poll T)
    (s' : Scheduler T Q) : Prop where
  tracks : s'.Tracks now
  answers : s'.Answers now canTake answer
  work_le : s'.work ≤ s.work
  work_lt : ∀ message, answer = .ready (some message) → s'.work < s.work
  requests_subset : s'.requests ⊆ s.requests
  horizon_le : DelayQueue.horizon s.queue ≤ DelayQueue.horizon s'.queue

omit [DecidableEq T] in
/-- A poll does not bring about that a request is too far in the future. -/
theorem Overreaches.of_polled {s' : Scheduler T Q} (h : s'.Overreaches) (hsubset : s'.requests ⊆ s.requests)
    (hhorizon : DelayQueue.horizon s.queue ≤ DelayQueue.horizon s'.queue) : s.Overreaches := by
  obtain ⟨request, hmem, hfar⟩ := h
  exact ⟨request, hsubset hmem, hhorizon.trans_lt hfar⟩

/-- A poll comes to an answer, unless a request is for a time too far in the future. -/
theorem Tracks.holdUnless (h : s.Tracks clock) (hnow : clock ≤ now) (canTake : T → Bool) :
    (s.holdUnless now canTake = none ∧ s.Overreaches) ∨
      ∃ answer s', s.holdUnless now canTake = some (answer, s') ∧ s.Polled now canTake answer s' := by
  rcases (h.mono hnow).takeRequests s.requests with ⟨hpanic, hfar⟩ |
    ⟨ended, middle, hmiddle, htracks, hpending, hended, hlen, hsubset, hhorizon⟩
  · exact .inl ⟨by simp only [Scheduler.holdUnless, hpanic], hfar⟩
  right
  have hwork : middle.work ≤ s.work := by
    simp only [work, hpending]
    omega
  simp only [Scheduler.holdUnless, hmiddle]
  cases ended with
  | true =>
    exact ⟨_, _, rfl, htracks, hended rfl, hwork, fun message heq ↦ (by cases heq), hsubset, hhorizon.ge⟩
  | false =>
    simp only [pollPopQueueMessage]
    cases hfind : middle.pending.find? canTake with
    | some message =>
      have hmem := List.mem_of_find?_eq_some hfind
      have hlength := List.length_erase_add_one hmem
      refine ⟨_, _, rfl, htracks.emitPending hmem, ⟨List.find?_some hfind, _, rfl⟩, ?_, fun _ _ ↦ ?_,
        hsubset, hhorizon.ge⟩
      all_goals
        simp only [work] at hwork ⊢
        omega
    | none =>
      obtain ⟨popped, s', hs', hhistory, hrequests, hmore, hsome, hnone⟩ :=
        htracks.popExpired canTake (Nat.lt_succ_self _)
      have hsubset' : s'.requests ⊆ s.requests := hrequests ▸ hsubset
      have hhorizon' := hhorizon.symm.le.trans hmore
      simp only [hs']
      cases popped with
      | some message =>
        obtain ⟨htake, hless, hemit⟩ := hsome message rfl
        refine ⟨_, _, rfl, hemit, ⟨htake, _, rfl⟩, ?_, fun _ _ ↦ ?_, hsubset', hhorizon'⟩
        all_goals
          simp only [work, hrequests] at hwork ⊢
          omega
      | none =>
        obtain ⟨htracks', hless, hlate, hkept⟩ := hnone rfl
        refine ⟨_, _, rfl, htracks', htracks'.answers_pending hlate fun message hmem ↦ ?_, ?_,
          fun _ heq ↦ (by cases heq), hsubset', hhorizon'⟩
        · rcases hkept message hmem with hold | hnot
          · exact Bool.eq_false_iff.mpr (List.find?_eq_none.mp hfind message hold)
          · exact hnot
        · simp only [work, hrequests] at hwork ⊢
          omega

/-! ## What a poll adds to the history -/

/-- The answers of a request stream that goes on. -/
def sent (requests : List (ScheduleRequest T)) : List (Poll (ScheduleRequest T)) :=
  requests.map fun request ↦ .ready (some request)

/-- The requests that were taken. -/
def received (requests : List (ScheduleRequest T)) : List (Debounce.Event T) :=
  requests.map fun request ↦ .requested request.message request.runAt

/-- The message that was handed out. -/
def handedOut (now : ℕ) : Poll T → List (Debounce.Event T)
  | .ready (some message) => [.emitted message now]
  | _ => []

theorem scheduleMessage_history {s' : Scheduler T Q} {request : ScheduleRequest T}
    (h : s.scheduleMessage request = some s') : s'.history = s.history := by
  unfold scheduleMessage at h
  split at h
  · obtain rfl := Option.some.inj h
    rfl
  split at h
  · split at h
    · obtain ⟨queue, -, rfl⟩ := Option.map_eq_some_iff.mp h
      rfl
    · obtain rfl := Option.some.inj h
      rfl
  · obtain ⟨inserted, -, rfl⟩ := Option.map_eq_some_iff.mp h
    rfl

/-- The requests are taken in order; while the stream goes on, all of them. -/
theorem takeRequests_history {s' : Scheduler T Q} {requests : List (Poll (ScheduleRequest T))}
    {ended : Bool} (h : takeRequests requests s = some (ended, s')) :
    ∃ taken, s'.history = s.history ++ received taken ∧
      ∀ all, requests = sent all → taken = all ∧ ended = false ∧ s'.requests = [] := by
  induction requests generalizing s with
  | nil =>
    obtain ⟨rfl, rfl⟩ := Prod.mk.inj (Option.some.inj h)
    exact ⟨[], by simp [received], fun all hall ↦ ⟨(List.map_eq_nil_iff.mp hall.symm).symm, rfl, rfl⟩⟩
  | cons answer requests ih =>
    match answer with
    | .pending | .ready none =>
      obtain ⟨rfl, rfl⟩ := Prod.mk.inj (Option.some.inj h)
      exact ⟨[], by simp [received], fun all hall ↦ by cases all <;> simp [sent] at hall⟩
    | .ready (some request) =>
      obtain ⟨middle, hmiddle, hrest⟩ := Option.bind_eq_some_iff.mp h
      obtain ⟨taken, hhistory, hall⟩ := ih hrest
      refine ⟨request :: taken, ?_, fun all heq ↦ ?_⟩
      · rw [hhistory, scheduleMessage_history hmiddle]
        simp [received]
      · cases all with
        | nil => cases heq
        | cons first all =>
          obtain ⟨hfirst, hmore⟩ := List.cons.inj heq
          obtain ⟨rfl, hended, hrequests⟩ := hall all hmore
          have hsame : request = first := Option.some.inj (Poll.ready.inj hfirst)
          exact ⟨by rw [hsame], hended, hrequests⟩

theorem popExpired_history {s' : Scheduler T Q} {canTake : T → Bool} {fuel : ℕ} {popped : Option T}
    (h : popExpired now canTake fuel s = some (popped, s')) :
    s'.history = s.history ∧ s'.requests = s.requests := by
  induction fuel generalizing s with
  | zero => cases h
  | succ fuel ih =>
    rw [popExpired] at h
    split at h
    · split at h
      · cases h
      split at h
      · obtain ⟨-, rfl⟩ := Prod.mk.inj (Option.some.inj h)
        exact ⟨rfl, rfl⟩
      · have hsame := ih h
        exact hsame
    · obtain ⟨-, rfl⟩ := Prod.mk.inj (Option.some.inj h)
      exact ⟨rfl, rfl⟩

theorem pollPopQueueMessage_history {s' : Scheduler T Q} {canTake : T → Bool} {popped : Option T}
    (h : s.pollPopQueueMessage now canTake = some (popped, s')) :
    s'.history = s.history ∧ s'.requests = s.requests := by
  unfold pollPopQueueMessage at h
  split at h
  · obtain ⟨-, rfl⟩ := Prod.mk.inj (Option.some.inj h)
    exact ⟨rfl, rfl⟩
  · exact popExpired_history h

/-- A poll takes requests and then hands out its message. -/
theorem holdUnless_history {s' : Scheduler T Q} {canTake : T → Bool} {answer : Poll T}
    (h : s.holdUnless now canTake = some (answer, s')) :
    ∃ taken, s'.history = s.history ++ received taken ++ handedOut now answer ∧
      ∀ all, s.requests = sent all → taken = all ∧ s'.requests = [] := by
  unfold holdUnless at h
  split at h
  · cases h
  · next middle htake =>
    obtain ⟨rfl, rfl⟩ := Prod.mk.inj (Option.some.inj h)
    obtain ⟨taken, hhistory, hall⟩ := takeRequests_history htake
    exact ⟨taken, by simp [hhistory, handedOut], fun all heq ↦ by cases (hall all heq).2.1⟩
  · next middle htake =>
    obtain ⟨taken, hhistory, hall⟩ := takeRequests_history htake
    refine ⟨taken, ?_⟩
    split at h
    · cases h
    all_goals
      next hpop =>
      obtain ⟨rfl, rfl⟩ := Prod.mk.inj (Option.some.inj h)
      obtain ⟨hsame, hrequests⟩ := pollPopQueueMessage_history hpop
      refine ⟨by simp [hsame, hhistory, handedOut], fun all heq ↦ ?_⟩
      obtain ⟨htaken, -, hnone⟩ := hall all heq
      exact ⟨htaken, hrequests.trans hnone⟩

/-! ## Runs -/

/-- What can happen to a scheduler and its clock. -/
inductive Step : Scheduler T Q × ℕ → Scheduler T Q × ℕ → Prop
  /-- The request stream will answer to one more poll. -/
  | request (s : Scheduler T Q) (clock : ℕ) (answer : Poll (ScheduleRequest T)) :
      Step (s, clock) ({ s with requests := s.requests ++ [answer] }, clock)
  | shuffle (s : Scheduler T Q) (clock : ℕ) (pending : List T) (hperm : s.pending.Perm pending) :
      Step (s, clock) ({ s with pending := pending }, clock)
  | poll (s s' : Scheduler T Q) (clock now : ℕ) (canTake : T → Bool) (answer : Poll T)
      (hnow : clock ≤ now) (hpoll : s.holdUnless now canTake = some (answer, s')) :
      Step (s, clock) (s', now)

def Reaches (s : Scheduler T Q) (clock : ℕ) : Prop := Relation.ReflTransGen Step (new [], 0) (s, clock)

theorem Tracks.step {before after : Scheduler T Q × ℕ} (h : before.1.Tracks before.2)
    (hstep : Step before after) : after.1.Tracks after.2 := by
  cases hstep with
  | request s clock answer => exact h.withRequests _
  | shuffle s clock pending hperm => exact h.shuffle hperm
  | poll s s' clock now canTake answer hnow hpoll =>
    rcases h.holdUnless hnow canTake with ⟨hpanic, -⟩ | ⟨answer', after, hafter, hpolled⟩
    · cases hpoll.symm.trans hpanic
    obtain ⟨-, rfl⟩ := Prod.mk.inj (Option.some.inj (hpoll.symm.trans hafter))
    exact hpolled.tracks

theorem Reaches.tracks (h : s.Reaches clock) : s.Tracks clock :=
  Run.invariant_of_reaches (I := fun state : Scheduler T Q × ℕ ↦ state.1.Tracks state.2)
    (tracks_new []) (fun _ _ hbefore hstep ↦ hbefore.step hstep) h

/-- Whenever it is polled, the scheduler comes to an answer without a panic, unless a request is for a
time too far in the future for the queue.  It emits a message only if it was requested, for that time or
before, since it was last emitted, and is pending only if no message that is due may be taken. -/
theorem holdUnless_answers (h : s.Reaches clock) (hnow : clock ≤ now) (hnear : ¬ s.Overreaches)
    (canTake : T → Bool) :
    ∃ answer s', s.holdUnless now canTake = some (answer, s') ∧ Legal s'.history ∧
      s'.Answers now canTake answer := by
  rcases h.tracks.holdUnless hnow canTake with ⟨-, hfar⟩ | ⟨answer, s', hpoll, hpolled⟩
  · exact absurd hfar hnear
  · exact ⟨answer, s', hpoll, hpolled.tracks.legal, hpolled.answers⟩

theorem holdUnless_answers_demo :
    ∃ answer s', (new [.ready (some ⟨7, 3⟩), .ready (some ⟨7, 2⟩)] :
        Scheduler ℕ (ListQueue ℕ)).holdUnless 2 (fun _ ↦ true) = some (answer, s') ∧
      Legal s'.history ∧ s'.Answers 2 (fun _ ↦ true) answer := by
  refine holdUnless_answers (.tail (.tail .refl (.request _ 0 _)) (.request _ 0 _)) (Nat.zero_le 2) ?_ _
  rintro ⟨request, hmem, hfar⟩
  rcases List.mem_cons.mp hmem with heq | hmem
  · obtain rfl := Option.some.inj (Poll.ready.inj heq)
    exact absurd hfar (by decide)
  · obtain rfl := Option.some.inj (Poll.ready.inj (List.mem_singleton.mp hmem))
    exact absurd hfar (by decide)

/-- A request for a time some years ahead. -/
example : (new [.ready (some ⟨7, 64 ^ 6⟩)] : Scheduler ℕ (ListQueue ℕ)).holdUnless 0 (fun _ ↦ true) =
    none := by
  rfl

end Scheduler

end EbpfPlayground.Kube
