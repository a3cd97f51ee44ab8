import Mathlib.Data.List.Induction
import Mathlib.Order.Lattice.Nat
import Mathlib.Order.Bounds.Basic

/-!
# Debouncing

A debouncer takes requests to emit messages at given times.  It emits a message once for all the
requests since it was last emitted, at the earliest of their times or later.
-/

namespace EbpfPlayground.Debounce

/-- What a debouncer took in and handed out. -/
inductive Event (α : Type*) where
  | requested (message : α) (runAt : ℕ)
  | emitted (message : α) (now : ℕ)

variable {α : Type*}

/-- The message has been requested for that time and not been emitted since. -/
def Outstanding (history : List (Event α)) (message : α) (runAt : ℕ) : Prop :=
  ∃ first rest, history = first ++ .requested message runAt :: rest ∧
    ∀ now, Event.emitted message now ∉ rest

/-- No message is emitted unless it is outstanding for that time or an earlier one. -/
def Legal (history : List (Event α)) : Prop :=
  ∀ first rest message now, history = first ++ .emitted message now :: rest →
    ∃ runAt ≤ now, Outstanding first message runAt

theorem not_outstanding_nil (message : α) (runAt : ℕ) : ¬ Outstanding [] message runAt := by
  rintro ⟨first, rest, hsplit, -⟩
  simp at hsplit

theorem outstanding_concat {history : List (Event α)} {event : Event α} {message : α} {runAt : ℕ} :
    Outstanding (history ++ [event]) message runAt ↔
      event = .requested message runAt ∨
        Outstanding history message runAt ∧ ∀ now, event ≠ .emitted message now := by
  constructor
  · rintro ⟨first, rest, hsplit, hrest⟩
    rcases List.eq_nil_or_concat rest with rfl | ⟨rest, last, rfl⟩
    · obtain ⟨-, hlast⟩ := List.append_inj' hsplit rfl
      exact .inl (List.cons.inj hlast).1
    · rw [List.concat_eq_append, ← List.cons_append, ← List.append_assoc] at hsplit
      obtain ⟨rfl, hlast⟩ := List.append_inj' hsplit rfl
      obtain rfl := (List.cons.inj hlast).1
      refine .inr ⟨⟨first, rest, rfl, fun now hmem ↦ hrest now (by simp [hmem])⟩, ?_⟩
      exact fun now heq ↦ hrest now (by simp [heq])
  · rintro (rfl | ⟨⟨first, rest, rfl, hrest⟩, hevent⟩)
    · exact ⟨history, [], rfl, by simp⟩
    · refine ⟨first, rest ++ [event], by simp, fun now hmem ↦ ?_⟩
      rcases List.mem_append.mp hmem with hold | hnew
      · exact hrest now hold
      · exact hevent now (List.mem_singleton.mp hnew).symm

/-- What does not emit the message leaves it outstanding. -/
theorem Outstanding.append {history more : List (Event α)} {message : α} {runAt : ℕ}
    (h : Outstanding history message runAt) (hmore : ∀ now, Event.emitted message now ∉ more) :
    Outstanding (history ++ more) message runAt := by
  obtain ⟨first, rest, rfl, hrest⟩ := h
  refine ⟨first, rest ++ more, by simp, fun now hmem ↦ ?_⟩
  rcases List.mem_append.mp hmem with hold | hnew
  · exact hrest now hold
  · exact hmore now hnew

theorem outstanding_of_mem (history : List (Event α)) {more : List (Event α)} {message : α} {runAt : ℕ}
    (hmem : .requested message runAt ∈ more) (hmore : ∀ now, Event.emitted message now ∉ more) :
    Outstanding (history ++ more) message runAt := by
  obtain ⟨first, rest, rfl⟩ := List.append_of_mem hmem
  exact ⟨history ++ first, rest, by simp, fun now hemitted ↦ hmore now (by simp [hemitted])⟩

theorem legal_nil : Legal ([] : List (Event α)) := by
  intro first rest message now hsplit
  simp at hsplit

theorem legal_concat {history : List (Event α)} (h : Legal history) {event : Event α}
    (hevent : ∀ message now, event = .emitted message now →
      ∃ runAt ≤ now, Outstanding history message runAt) : Legal (history ++ [event]) := by
  intro first rest message now hsplit
  rcases List.eq_nil_or_concat rest with rfl | ⟨rest, last, rfl⟩
  · obtain ⟨rfl, hlast⟩ := List.append_inj' hsplit rfl
    exact hevent message now (List.cons.inj hlast).1
  · rw [List.concat_eq_append, ← List.cons_append, ← List.append_assoc] at hsplit
    obtain ⟨rfl, -⟩ := List.append_inj' hsplit rfl
    exact h first rest message now rfl

/-! ## When a message is due -/

variable [DecidableEq α]

/-- The earliest time that a message is outstanding for after an event, by the one before it. -/
def Event.due (message : α) (before : Option ℕ) : Event α → Option ℕ
  | .requested other runAt =>
    if other = message then some (before.elim runAt (min runAt)) else before
  | .emitted other _ => if other = message then none else before

/-- The earliest time that a message is outstanding for. -/
def due (history : List (Event α)) (message : α) : Option ℕ :=
  history.foldl (Event.due message) none

theorem due_concat (history : List (Event α)) (event : Event α) (message : α) :
    due (history ++ [event]) message = event.due message (due history message) := by
  rw [due, List.foldl_append]
  rfl

theorem due_requested_self (history : List (Event α)) (message : α) (runAt : ℕ) :
    due (history ++ [.requested message runAt]) message =
      some ((due history message).elim runAt (min runAt)) := by
  rw [due_concat, Event.due, if_pos rfl]

theorem due_requested_of_ne {message other : α} (h : other ≠ message) (history : List (Event α))
    (runAt : ℕ) : due (history ++ [.requested other runAt]) message = due history message := by
  rw [due_concat, Event.due, if_neg h]

theorem due_emitted_self (history : List (Event α)) (message : α) (now : ℕ) :
    due (history ++ [.emitted message now]) message = none := by
  rw [due_concat, Event.due, if_pos rfl]

theorem due_emitted_of_ne {message other : α} (h : other ≠ message) (history : List (Event α))
    (now : ℕ) : due (history ++ [.emitted other now]) message = due history message := by
  rw [due_concat, Event.due, if_neg h]

/-- The earliest time that the message is outstanding for, `none` if it is not. -/
def IsDue (history : List (Event α)) (message : α) : Option ℕ → Prop
  | none => ∀ runAt, ¬ Outstanding history message runAt
  | some earliest => IsLeast {runAt | Outstanding history message runAt} earliest

omit [DecidableEq α] in
theorem IsDue.of_iff {history history' : List (Event α)} {message : α} {time : Option ℕ}
    (h : IsDue history message time)
    (hsame : ∀ runAt, Outstanding history' message runAt ↔ Outstanding history message runAt) :
    IsDue history' message time := by
  cases time with
  | none => exact fun runAt hout ↦ h runAt ((hsame runAt).mp hout)
  | some earliest => exact ⟨(hsame earliest).mpr h.1, fun runAt hout ↦ h.2 ((hsame runAt).mp hout)⟩

omit [DecidableEq α] in
/-- A request brings the time forward, if it is for an earlier one. -/
theorem IsDue.requested {history : List (Event α)} {message : α} {before : Option ℕ}
    (h : IsDue history message before) (runAt : ℕ) :
    IsDue (history ++ [.requested message runAt]) message (some (before.elim runAt (min runAt))) := by
  have hnew : Outstanding (history ++ [.requested message runAt]) message runAt :=
    outstanding_concat.mpr (.inl rfl)
  cases before with
  | none =>
    refine ⟨hnew, fun time htime ↦ ?_⟩
    rcases outstanding_concat.mp htime with heq | ⟨hold, -⟩
    · exact (Event.requested.inj heq).2.le
    · exact absurd hold (h time)
  | some old =>
    refine ⟨?_, fun time htime ↦ ?_⟩
    · rcases min_choice runAt old with hmin | hmin
      · rw [Option.elim_some, hmin]
        exact hnew
      · rw [Option.elim_some, hmin]
        exact h.1.append fun now ↦ by simp
    · rcases outstanding_concat.mp htime with heq | ⟨hold, -⟩
      · exact (min_le_left _ _).trans (Event.requested.inj heq).2.le
      · exact (min_le_right _ _).trans (h.2 hold)

omit [DecidableEq α] in
theorem isDue_emitted (history : List (Event α)) (message : α) (now : ℕ) :
    IsDue (history ++ [.emitted message now]) message none := by
  intro runAt hout
  rcases outstanding_concat.mp hout with heq | ⟨-, hnot⟩
  · cases heq
  · exact hnot now rfl

/-- `due` is the earliest time that the message is outstanding for. -/
theorem isDue_due (history : List (Event α)) (message : α) :
    IsDue history message (due history message) := by
  induction history using List.reverseRecOn with
  | nil => exact not_outstanding_nil message
  | append_singleton history event ih =>
    cases event with
    | requested other runAt =>
      by_cases hother : other = message
      · subst hother
        rw [due_requested_self]
        exact ih.requested runAt
      · rw [due_requested_of_ne hother]
        exact ih.of_iff fun time ↦ by simp [outstanding_concat, hother]
    | emitted other now =>
      by_cases hother : other = message
      · subst hother
        rw [due_emitted_self]
        exact isDue_emitted history other now
      · rw [due_emitted_of_ne hother]
        exact ih.of_iff fun time ↦ by simp [outstanding_concat, hother]

theorem outstanding_of_due {history : List (Event α)} {message : α} {runAt : ℕ}
    (h : due history message = some runAt) : Outstanding history message runAt := by
  have hdue := isDue_due history message
  rw [h] at hdue
  exact hdue.1

/-- A message that is outstanding is due at that time or before. -/
theorem exists_due_of_outstanding {history : List (Event α)} {message : α} {runAt : ℕ}
    (h : Outstanding history message runAt) : ∃ earliest ≤ runAt, due history message = some earliest := by
  have hdue := isDue_due history message
  cases heq : due history message with
  | none =>
    rw [heq] at hdue
    exact absurd h (hdue runAt)
  | some earliest =>
    rw [heq] at hdue
    exact ⟨earliest, hdue.2 h, rfl⟩

end EbpfPlayground.Debounce
