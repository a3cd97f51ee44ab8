import Mathlib.Algebra.Group.Nat.Defs
import Mathlib.Data.List.AList

/-!
# Delay queues

A delay queue hands out its values when their deadlines have passed.  Each entry has a key, by which
its deadline can be changed while it is in the queue.  A queue panics on a deadline that is too far in
the future for it.  How many entries there is room for is left to the memory.
-/

namespace EbpfPlayground

/-- A delay queue, with the entries in it by their keys; `none` is a panic.  Which free key an entry gets,
and which of several expired entries comes first, is left open. -/
class DelayQueue (Q : Type*) (α : outParam (Type*)) where
  new : Q
  insertAt : Q → α → ℕ → Option (ℕ × Q)
  resetAt : Q → ℕ → ℕ → Option Q
  pollExpired : Q → ℕ → Option α × Q
  len : Q → ℕ
  /-- The latest deadline that the queue takes as it is now. -/
  horizon : Q → ℕ
  /-- The value under a key and its deadline. -/
  entry : Q → ℕ → Option (α × ℕ)
  entry_new (key : ℕ) : entry new key = none
  insertAt_of_lt (queue : Q) (value : α) (deadline : ℕ) (h : horizon queue < deadline) :
    insertAt queue value deadline = none
  insertAt_of_le (queue : Q) (value : α) (deadline : ℕ) (h : deadline ≤ horizon queue) :
    ∃ key queue', insertAt queue value deadline = some (key, queue') ∧ entry queue key = none ∧
      len queue' = len queue + 1 ∧ horizon queue' = horizon queue ∧
      entry queue' = Function.update (entry queue) key (some (value, deadline))
  resetAt_of_lt (queue : Q) (key deadline : ℕ) (h : horizon queue < deadline) :
    resetAt queue key deadline = none
  resetAt_of_le (queue : Q) (key deadline : ℕ) (h : deadline ≤ horizon queue) (value : α) (old : ℕ)
    (hentry : entry queue key = some (value, old)) :
    ∃ queue', resetAt queue key deadline = some queue' ∧ len queue' = len queue ∧
      horizon queue' = horizon queue ∧
      entry queue' = Function.update (entry queue) key (some (value, deadline))
  /-- Time goes on. -/
  le_horizon_pollExpired (queue : Q) (now : ℕ) : horizon queue ≤ horizon (pollExpired queue now).2
  pollExpired_none (queue : Q) (now : ℕ) (h : (pollExpired queue now).1 = none) :
    entry (pollExpired queue now).2 = entry queue ∧ len (pollExpired queue now).2 = len queue ∧
      ∀ key value deadline, entry queue key = some (value, deadline) → now < deadline
  pollExpired_some (queue : Q) (now : ℕ) (value : α) (h : (pollExpired queue now).1 = some value) :
    ∃ key deadline, entry queue key = some (value, deadline) ∧ deadline ≤ now ∧
      entry (pollExpired queue now).2 = Function.update (entry queue) key none ∧
      len (pollExpired queue now).2 + 1 = len queue

/-! ## Association lists -/

variable {α : Type*}

/-- A queue in a list: the entry that came last is handed out first. -/
structure ListQueue (α : Type*) where
  entries : AList fun _ : ℕ ↦ α × ℕ
  /-- The latest deadline that has expired. -/
  elapsed : ℕ

namespace ListQueue

/-- The ticks of the six wheels with 64 slots each. -/
def maxDuration : ℕ := 64 ^ 6 - 1

def freshKey (entries : AList fun _ : ℕ ↦ α × ℕ) : ℕ := entries.keys.foldr Nat.max 0 + 1

theorem le_foldr_max {key : ℕ} {keys : List ℕ} (h : key ∈ keys) : key ≤ keys.foldr Nat.max 0 := by
  induction keys with
  | nil => cases h
  | cons first keys ih =>
    rcases List.mem_cons.mp h with rfl | hrest
    · exact Nat.le_max_left ..
    · exact Nat.le_trans (ih hrest) (Nat.le_max_right ..)

theorem freshKey_notMem (entries : AList fun _ : ℕ ↦ α × ℕ) : freshKey entries ∉ entries := fun hmem ↦
  absurd (le_foldr_max (AList.mem_keys.mp hmem)) (Nat.not_succ_le_self _)

def horizon (queue : ListQueue α) : ℕ := queue.elapsed + maxDuration

def insertAt (queue : ListQueue α) (value : α) (deadline : ℕ) : Option (ℕ × ListQueue α) :=
  if deadline ≤ queue.horizon then
    let key := freshKey queue.entries
    some (key, { queue with entries := queue.entries.insert key (value, deadline) })
  else none

def resetAt (queue : ListQueue α) (key deadline : ℕ) : Option (ListQueue α) :=
  if deadline ≤ queue.horizon then
    (queue.entries.lookup key).map fun entry ↦
      { queue with entries := queue.entries.insert key (entry.1, deadline) }
  else none

def pollExpired (queue : ListQueue α) (now : ℕ) : Option α × ListQueue α :=
  match queue.entries.entries.find? fun entry ↦ decide (entry.2.2 ≤ now) with
  | some ⟨key, value, deadline⟩ => (some value, ⟨queue.entries.erase key, max queue.elapsed deadline⟩)
  | none => (none, queue)

theorem lookup_erase_eq (entries : AList fun _ : ℕ ↦ α × ℕ) (key : ℕ) :
    (entries.erase key).lookup = Function.update entries.lookup key none := by
  funext other
  by_cases hother : other = key
  · rw [hother, Function.update_self, AList.lookup_erase]
  · rw [Function.update_of_ne hother, AList.lookup_erase_ne hother]

theorem lookup_insert_eq (entries : AList fun _ : ℕ ↦ α × ℕ) (key : ℕ) (entry : α × ℕ) :
    (entries.insert key entry).lookup = Function.update entries.lookup key (some entry) := by
  funext other
  by_cases hother : other = key
  · subst hother
    rw [Function.update_self, AList.lookup_insert]
  · rw [Function.update_of_ne hother, AList.lookup_insert_ne hother]

theorem length_erase_of_mem {entries : AList fun _ : ℕ ↦ α × ℕ} {key : ℕ} (h : key ∈ entries) :
    (entries.erase key).entries.length + 1 = entries.entries.length := by
  have hkeys := List.length_erase_add_one (AList.mem_keys.mp h)
  rw [← AList.keys_erase] at hkeys
  simpa [AList.keys, List.keys] using hkeys

theorem length_insert_of_mem {entries : AList fun _ : ℕ ↦ α × ℕ} {key : ℕ} (h : key ∈ entries)
    (entry : α × ℕ) : (entries.insert key entry).entries.length = entries.entries.length := by
  rw [AList.entries_insert, List.length_cons]
  exact length_erase_of_mem h

instance : DelayQueue (ListQueue α) α where
  new := ⟨∅, 0⟩
  insertAt := insertAt
  resetAt := resetAt
  pollExpired := pollExpired
  len queue := queue.entries.entries.length
  horizon := horizon
  entry queue key := queue.entries.lookup key
  entry_new _ := rfl
  insertAt_of_lt queue value deadline h := if_neg (Nat.not_le.mpr h)
  insertAt_of_le queue value deadline h := by
    refine ⟨_, _, if_pos h, AList.lookup_eq_none.mpr (freshKey_notMem queue.entries), ?_, rfl,
      lookup_insert_eq queue.entries _ (value, deadline)⟩
    rw [AList.entries_insert_of_notMem (freshKey_notMem queue.entries), List.length_cons]
  resetAt_of_lt queue key deadline h := if_neg (Nat.not_le.mpr h)
  resetAt_of_le queue key deadline h value old hentry := by
    have hmem : key ∈ queue.entries := AList.lookup_isSome.mp (by rw [hentry]; rfl)
    refine ⟨{ queue with entries := queue.entries.insert key (value, deadline) }, ?_,
      length_insert_of_mem hmem _, rfl, lookup_insert_eq queue.entries key (value, deadline)⟩
    rw [resetAt, if_pos h, hentry]
    rfl
  le_horizon_pollExpired queue now := by
    unfold pollExpired
    split
    · exact Nat.add_le_add_right (Nat.le_max_left _ _) _
    · exact le_rfl
  pollExpired_none queue now h := by
    unfold pollExpired at h ⊢
    split at h
    · cases h
    next hfind =>
    refine ⟨rfl, rfl, fun key value deadline hentry ↦ ?_⟩
    have hnone := List.find?_eq_none.mp hfind _ (AList.mem_lookup_iff.mp hentry)
    simpa using hnone
  pollExpired_some queue now value h := by
    unfold pollExpired at h ⊢
    split at h
    next key value' deadline hfind =>
      obtain rfl := Option.some.inj h
      have hmem := List.mem_of_find?_eq_some hfind
      have hentry : queue.entries.lookup key = some (value', deadline) := AList.mem_lookup_iff.mpr hmem
      have hdue := List.find?_some hfind
      refine ⟨key, deadline, hentry, by simpa using hdue, lookup_erase_eq queue.entries key, ?_⟩
      exact length_erase_of_mem (AList.lookup_isSome.mp (by rw [hentry]; rfl))
    · cases h

end ListQueue

end EbpfPlayground
