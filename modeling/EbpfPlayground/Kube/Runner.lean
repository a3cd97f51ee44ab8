import EbpfPlayground.Kube.Scheduler

/-!
# The runner of kube-runtime

`Runner` takes messages from a scheduler and runs a future for each of them, several at a time, but
never two for one message.
-/

namespace EbpfPlayground.Kube

open Debounce (Outstanding Legal)

variable {T Q Out : Type*} [DecidableEq T] [DelayQueue Q T]

/-- `FutureHashMap::poll_next` on the keys of the map, with what the future under each key answers if
it is polled. -/
def FutureHashMap.pollNext (result : T → Option Out) (slots : List T) : Poll Out × List T :=
  match slots.findSome? fun key ↦ (result key).map fun out ↦ (key, out) with
  | some (key, out) => (.ready (some out), slots.erase key)
  | none => if slots.isEmpty then (.ready none, slots) else (.pending, slots)

/-- `Runner`, with the messages whose futures are in the slots. -/
structure Runner (T Q : Type*) where
  scheduler : Scheduler T Q
  slots : List T

namespace Runner

/-- A turn of the loop in `poll_next`: a message is taken, if there is one that is not being processed,
and its future put into a slot; `none` where the scheduler panics or the assertion fails that there was
none before. -/
def takeMessage (now : ℕ) (r : Runner T Q) : Option (Poll T × Runner T Q) :=
  match r.scheduler.holdUnless now fun message ↦ !r.slots.contains message with
  | none => none
  | some (.ready (some message), scheduler) =>
    if r.slots.contains message then none
    else some (.ready (some message), ⟨scheduler, message :: r.slots⟩)
  | some (answer, scheduler) => some (answer, ⟨scheduler, r.slots⟩)

/-- The loop of `poll_next`. -/
def takeMessages (now : ℕ) (hasActiveSlots : Bool) :
    ℕ → Runner T Q → Option (Poll Out × Runner T Q)
  | 0, _ => none
  | fuel + 1, r =>
    match r.takeMessage now with
    | none => none
    | some (.ready (some _), r') => takeMessages now hasActiveSlots fuel r'
    | some (.ready none, r') => some (if hasActiveSlots then .pending else .ready none, r')
    | some (.pending, r') => some (.pending, r')

/-- `Runner::poll_next`. -/
def pollNext (now : ℕ) (result : T → Option Out) (r : Runner T Q) : Option (Poll Out × Runner T Q) :=
  match FutureHashMap.pollNext result r.slots with
  | (.ready (some out), slots) => some (.ready (some out), ⟨r.scheduler, slots⟩)
  | (.ready none, slots) => takeMessages now false (r.scheduler.work + 1) ⟨r.scheduler, slots⟩
  | (.pending, slots) => takeMessages now true (r.scheduler.work + 1) ⟨r.scheduler, slots⟩

/-! ## A poll -/

/-- The scheduler tracks its messages, and no message is in two slots. -/
structure Inv (r : Runner T Q) (clock : ℕ) : Prop where
  tracks : r.scheduler.Tracks clock
  nodup : r.slots.Nodup

/-- The request stream has ended. -/
def Ended (r : Runner T Q) : Prop := ∃ requests, r.scheduler.requests = .ready none :: requests

/-- Every message that is due is being processed. -/
def CaughtUp (now : ℕ) (r : Runner T Q) : Prop :=
  ∀ message runAt, Outstanding r.scheduler.history message runAt → runAt ≤ now → message ∈ r.slots

/-- What an answer of the runner tells of the runner before and after the poll. -/
def Answers (now : ℕ) (result : T → Option Out) (before after : Runner T Q) : Poll Out → Prop
  | .ready (some out) => ∃ key ∈ before.slots, result key = some out ∧
      after = ⟨before.scheduler, before.slots.erase key⟩
  | .ready none => before.slots = [] ∧ after.Ended
  | .pending => (∀ key ∈ before.slots, result key = none) ∧ (∀ key ∈ before.slots, key ∈ after.slots) ∧
      (after.Ended ∨ after.CaughtUp now)

variable {r : Runner T Q} {clock now : ℕ}

/-- What a turn of the loop does. -/
def Takes (now : ℕ) (before after : Runner T Q) : Poll T → Prop
  | .ready (some message) => message ∉ before.slots ∧ after.slots = message :: before.slots
  | .ready none => after.slots = before.slots ∧ after.Ended
  | .pending => after.slots = before.slots ∧ after.CaughtUp now

/-- A turn goes through, unless a request is for a time too far in the future: a message that the
scheduler hands out is not being processed, so that the assertion holds. -/
theorem Inv.takeMessage (h : r.Inv clock) (hnow : clock ≤ now) :
    (r.takeMessage now = none ∧ r.scheduler.Overreaches) ∨
      ∃ answer r', r.takeMessage now = some (answer, r') ∧ r'.Inv now ∧ Takes now r r' answer ∧
        (∀ message, answer = .ready (some message) → r'.scheduler.work < r.scheduler.work) ∧
        (r'.scheduler.Overreaches → r.scheduler.Overreaches) := by
  rcases h.tracks.holdUnless hnow fun message ↦ !r.slots.contains message with
    ⟨hpanic, hfar⟩ | ⟨answer, scheduler, hpoll, hpolled⟩
  · exact .inl ⟨by simp only [Runner.takeMessage, hpanic], hfar⟩
  right
  have htracks := hpolled.tracks
  have hanswers := hpolled.answers
  have hover (hfar : scheduler.Overreaches) : r.scheduler.Overreaches :=
    hfar.of_polled hpolled.requests_subset hpolled.horizon_le
  simp only [Runner.takeMessage, hpoll]
  match answer with
  | .ready (some message) =>
    obtain ⟨htake, -⟩ := hanswers
    have hfree : r.slots.contains message = false := by simpa using htake
    have hmem : message ∉ r.slots := by simpa using hfree
    simp only [hfree, Bool.false_eq_true, if_false]
    exact ⟨_, _, rfl, ⟨htracks, List.nodup_cons.mpr ⟨hmem, h.nodup⟩⟩, ⟨hmem, rfl⟩,
      fun _ _ ↦ hpolled.work_lt message rfl, hover⟩
  | .ready none =>
    exact ⟨_, _, rfl, ⟨htracks, h.nodup⟩, ⟨rfl, hanswers⟩, fun message heq ↦ (by cases heq), hover⟩
  | .pending =>
    refine ⟨_, _, rfl, ⟨htracks, h.nodup⟩, ⟨rfl, fun message runAt hout hle ↦ ?_⟩,
      fun message heq ↦ (by cases heq), hover⟩
    simpa using hanswers message runAt hout hle

/-- A turn takes requests and then its message. -/
theorem takeMessage_history {r' : Runner T Q} {answer : Poll T}
    (h : r.takeMessage now = some (answer, r')) :
    ∃ taken, r'.scheduler.history =
        r.scheduler.history ++ Scheduler.received taken ++ Scheduler.handedOut now answer ∧
      ∀ all, r.scheduler.requests = Scheduler.sent all → taken = all ∧ r'.scheduler.requests = [] := by
  unfold Runner.takeMessage at h
  split at h
  · cases h
  · next hpoll =>
    split at h
    · cases h
    obtain ⟨rfl, rfl⟩ := Prod.mk.inj (Option.some.inj h)
    exact Scheduler.holdUnless_history hpoll
  · next hpoll =>
    obtain ⟨rfl, rfl⟩ := Prod.mk.inj (Option.some.inj h)
    exact Scheduler.holdUnless_history hpoll

/-- The loop ends when every message that is due is being processed or there are no more requests. -/
theorem Inv.takeMessages (Out : Type*) (h : r.Inv now) (hasActiveSlots : Bool) {fuel : ℕ}
    (hfuel : r.scheduler.work < fuel) :
    ((takeMessages now hasActiveSlots fuel r : Option (Poll Out × Runner T Q)) = none ∧
        r.scheduler.Overreaches) ∨
      ∃ (answer : Poll Out) (r' : Runner T Q),
        takeMessages now hasActiveSlots fuel r = some (answer, r') ∧ r'.Inv now ∧
          (∀ key ∈ r.slots, key ∈ r'.slots) ∧
          (answer = .pending ∧ (r'.Ended ∨ r'.CaughtUp now) ∨
            answer = .ready none ∧ hasActiveSlots = false ∧ r'.Ended) := by
  induction fuel generalizing r with
  | zero => cases hfuel
  | succ fuel ih =>
    simp only [Runner.takeMessages]
    rcases h.takeMessage le_rfl with ⟨hpanic, hfar⟩ |
      ⟨answer, middle, hturn, hmiddle, htakes, hless, hover⟩
    · exact .inl ⟨by simp only [hpanic], hfar⟩
    simp only [hturn]
    match answer with
    | .ready (some message) =>
      have hwork := hless message rfl
      rcases ih hmiddle (by omega) with ⟨hpanic, hfar⟩ | ⟨answer, r', hr', hinv, hslots, hends⟩
      · exact .inl ⟨hpanic, hover hfar⟩
      refine .inr ⟨answer, r', hr', hinv, fun key hkey ↦ hslots key ?_, hends⟩
      rw [htakes.2]
      exact List.mem_cons_of_mem _ hkey
    | .ready none =>
      obtain ⟨hslots, hended⟩ := htakes
      refine .inr ⟨_, _, rfl, hmiddle, fun key hkey ↦ by rwa [hslots], ?_⟩
      cases hasActiveSlots with
      | true => exact .inl ⟨rfl, .inl hended⟩
      | false => exact .inr ⟨rfl, rfl, hended⟩
    | .pending =>
      obtain ⟨hslots, hcaught⟩ := htakes
      exact .inr ⟨_, _, rfl, hmiddle, fun key hkey ↦ by rwa [hslots], .inl ⟨rfl, .inr hcaught⟩⟩

theorem Inv.pollNext (h : r.Inv clock) (hnow : clock ≤ now) (result : T → Option Out) :
    (r.pollNext now result = none ∧ r.scheduler.Overreaches) ∨
      ∃ answer r', r.pollNext now result = some (answer, r') ∧ r'.Inv now ∧
        Answers now result r r' answer := by
  simp only [Runner.pollNext, FutureHashMap.pollNext]
  have hinv : r.Inv now := ⟨h.tracks.mono hnow, h.nodup⟩
  cases hfind : r.slots.findSome? fun key ↦ (result key).map fun out ↦ (key, out) with
  | some found =>
    obtain ⟨key, out⟩ := found
    obtain ⟨key', hmem, hresult⟩ := List.exists_of_findSome?_eq_some hfind
    obtain ⟨out', hout, heq⟩ := Option.map_eq_some_iff.mp hresult
    obtain ⟨rfl, rfl⟩ := Prod.mk.inj heq
    exact .inr ⟨_, _, rfl, ⟨hinv.tracks, h.nodup.erase key'⟩, key', hmem, hout, rfl⟩
  | none =>
    have hnone : ∀ key ∈ r.slots, result key = none := fun key hkey ↦
      Option.map_eq_none_iff.mp (List.findSome?_eq_none_iff.mp hfind key hkey)
    cases hempty : r.slots.isEmpty with
    | true =>
      refine (hinv.takeMessages Out false (Nat.lt_succ_self _)).imp_right ?_
      rintro ⟨answer, r', hr', hinv', hslots, hends⟩
      refine ⟨answer, r', hr', hinv', ?_⟩
      rcases hends with ⟨rfl, hends⟩ | ⟨rfl, -, hended⟩
      · exact ⟨hnone, hslots, hends⟩
      · exact ⟨List.isEmpty_iff.mp hempty, hended⟩
    | false =>
      refine (hinv.takeMessages Out true (Nat.lt_succ_self _)).imp_right ?_
      rintro ⟨answer, r', hr', hinv', hslots, hends⟩
      refine ⟨answer, r', hr', hinv', ?_⟩
      rcases hends with ⟨rfl, hends⟩ | ⟨-, hactive, -⟩
      · exact ⟨hnone, hslots, hends⟩
      · cases hactive

/-! ## Runs -/

/-- What can happen to a runner and its clock. -/
inductive Step : Runner T Q × ℕ → Runner T Q × ℕ → Prop
  /-- The request stream will answer to one more poll. -/
  | request (r : Runner T Q) (clock : ℕ) (answer : Poll (ScheduleRequest T)) :
      Step (r, clock)
        (⟨{ r.scheduler with requests := r.scheduler.requests ++ [answer] }, r.slots⟩, clock)
  | shuffle (r : Runner T Q) (clock : ℕ) (pending slots : List T)
      (hpending : r.scheduler.pending.Perm pending) (hslots : r.slots.Perm slots) :
      Step (r, clock) (⟨{ r.scheduler with pending := pending }, slots⟩, clock)
  | poll (Out : Type) (r r' : Runner T Q) (clock now : ℕ) (result : T → Option Out) (answer : Poll Out)
      (hnow : clock ≤ now) (hpoll : r.pollNext now result = some (answer, r')) :
      Step (r, clock) (r', now)

def Reaches (r : Runner T Q) (clock : ℕ) : Prop :=
  Relation.ReflTransGen Step (⟨.new [], []⟩, 0) (r, clock)

theorem Inv.step {before after : Runner T Q × ℕ} (h : before.1.Inv before.2)
    (hstep : Step before after) : after.1.Inv after.2 := by
  cases hstep with
  | request r clock answer => exact ⟨h.tracks.withRequests _, h.nodup⟩
  | shuffle r clock pending slots hpending hslots =>
    exact ⟨h.tracks.shuffle hpending, hslots.nodup h.nodup⟩
  | poll Out r r' clock now result answer hnow hpoll =>
    rcases h.pollNext hnow result with ⟨hpanic, -⟩ | ⟨answer', after, hafter, hinv, -⟩
    · cases hpoll.symm.trans hpanic
    obtain ⟨-, rfl⟩ := Prod.mk.inj (Option.some.inj (hpoll.symm.trans hafter))
    exact hinv

theorem Reaches.inv (h : r.Reaches clock) : r.Inv clock :=
  Run.invariant_of_reaches (I := fun state : Runner T Q × ℕ ↦ state.1.Inv state.2)
    ⟨Scheduler.tracks_new [], List.nodup_nil⟩ (fun _ _ hbefore hstep ↦ hbefore.step hstep) h

/-- A poll of the runner comes to an answer without a panic, unless a request is for a time too far in the
future, and no message is processed twice at once.  It hands on one of the results there are, or is
pending with every message that is due being processed; it ends only if the requests have, with nothing
being processed before. -/
theorem pollNext_answers (h : r.Reaches clock) (hnow : clock ≤ now)
    (hnear : ¬ r.scheduler.Overreaches) (result : T → Option Out) :
    ∃ answer r', r.pollNext now result = some (answer, r') ∧ r'.slots.Nodup ∧
      Legal r'.scheduler.history ∧ Answers now result r r' answer := by
  rcases h.inv.pollNext hnow result with ⟨-, hfar⟩ | ⟨answer, r', hpoll, hinv, hanswers⟩
  · exact absurd hfar hnear
  · exact ⟨answer, r', hpoll, hinv.nodup, hinv.tracks.legal, hanswers⟩

theorem pollNext_answers_demo :
    ∃ answer r', (⟨.new [.ready (some ⟨7, 3⟩), .ready none], []⟩ :
        Runner ℕ (ListQueue ℕ)).pollNext 2 (fun _ ↦ (none : Option ℕ)) = some (answer, r') ∧
      r'.slots.Nodup ∧ Legal r'.scheduler.history ∧
      Answers 2 (fun _ ↦ (none : Option ℕ)) ⟨.new [.ready (some ⟨7, 3⟩), .ready none], []⟩ r' answer := by
  refine pollNext_answers (.tail (.tail .refl (.request _ 0 _)) (.request _ 0 _)) (Nat.zero_le 2) ?_ _
  rintro ⟨request, hmem, hfar⟩
  rcases List.mem_cons.mp hmem with heq | hmem
  · obtain rfl := Option.some.inj (Poll.ready.inj heq)
    exact absurd hfar (by decide)
  · cases List.mem_singleton.mp hmem

end Runner

end EbpfPlayground.Kube
