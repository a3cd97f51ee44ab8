import Mathlib.Data.List.Induction
import Mathlib.Data.List.Nodup
import Mathlib.Logic.Function.Basic

/-!
# Change logs of keyed collections

A server keeps a collection of keyed objects and the log of everything it has committed.  A
revision is a length of the log; an entry that concerns some other collection is `none`.  What a
client needs that starts from a snapshot and reads on from its revision is stated here: the
collection at a later revision is the snapshot with the changes of the window between the two
applied to it.
-/

namespace EbpfPlayground.ChangeLog

variable {κ α : Type*}

/-- What a commit does to the collection. -/
inductive Change (α : Type*) where
  | put (object : α)
  /-- The last state of the object that is gone. -/
  | delete (object : α)

/-- The object that a change is about. -/
def Change.object : Change α → α
  | .put object => object
  | .delete object => object

abbrev Log (α : Type*) := List (Option (Change α))

abbrev Collection (κ α : Type*) := κ → Option α

section Replay

variable [DecidableEq κ] (key : α → κ)

def Change.apply (collection : Collection κ α) : Change α → Collection κ α
  | .put object => Function.update collection (key object) (some object)
  | .delete object => Function.update collection (key object) none

/-- The changes applied one after the other. -/
def replay (collection : Collection κ α) (changes : List (Change α)) : Collection κ α :=
  changes.foldl (Change.apply key) collection

/-- The changes committed after the first revision and up to the second. -/
def window (log : Log α) (first last : ℕ) : List (Change α) :=
  (List.range' first (last - first)).filterMap fun index ↦ log[index]?.join

/-- The log with some of its entries hidden. -/
def mask (log : Log α) (hidden : List ℕ) : Log α :=
  log.mapIdx fun index entry ↦ if index ∈ hidden then none else entry

/-- The collection at a revision. -/
def stateAt (log : Log α) (revision : ℕ) : Collection κ α :=
  replay key (fun _ ↦ none) (window log 0 revision)

/-- A list of exactly the objects of the collection, each once. -/
structure IsSnapshot (objects : List α) (collection : Collection κ α) : Prop where
  nodup : objects.Nodup
  mem_iff : ∀ object, object ∈ objects ↔ collection (key object) = some object

@[simp]
theorem replay_nil (collection : Collection κ α) : replay key collection [] = collection := rfl

theorem replay_append (collection : Collection κ α) (first second : List (Change α)) :
    replay key collection (first ++ second) = replay key (replay key collection first) second :=
  List.foldl_append

theorem replay_concat (collection : Collection κ α) (changes : List (Change α)) (last : Change α) :
    replay key collection (changes ++ [last]) = last.apply key (replay key collection changes) := by
  rw [replay_append]
  rfl

variable {key}

theorem key_of_replay {collection : Collection κ α}
    (hkey : ∀ k object, collection k = some object → key object = k) (changes : List (Change α)) :
    ∀ k object, replay key collection changes k = some object → key object = k := by
  induction changes generalizing collection with
  | nil => exact hkey
  | cons change changes ih =>
    apply ih
    intro k object hobject
    cases change with
    | put new =>
      by_cases hk : k = key new
      · subst hk
        have hnew : new = object := by simpa [Change.apply] using hobject
        rw [hnew]
      · exact hkey k object (by simpa [Change.apply, hk] using hobject)
    | delete old =>
      by_cases hk : k = key old
      · subst hk
        simp [Change.apply] at hobject
      · exact hkey k object (by simpa [Change.apply, hk] using hobject)

/-- Objects are found under their own keys. -/
theorem key_of_stateAt {log : Log α} {revision : ℕ} {k : κ} {object : α}
    (h : stateAt key log revision k = some object) : key object = k :=
  key_of_replay (by simp) _ k object h

/-- An object is in the collection since a change put it there, or always was. -/
theorem put_of_replay {collection : Collection κ α} {changes : List (Change α)} {k : κ} {object : α}
    (h : replay key collection changes k = some object) :
    collection k = some object ∨ .put object ∈ changes := by
  induction changes generalizing collection with
  | nil => exact .inl h
  | cons change changes ih =>
    rcases ih h with hafter | hmem
    · cases change with
      | put new =>
        by_cases hk : k = key new
        · have hnew : new = object := by simpa [Change.apply, hk] using hafter
          exact .inr (by simp [hnew])
        · exact .inl (by simpa [Change.apply, hk] using hafter)
      | delete old =>
        by_cases hk : k = key old
        · simp [Change.apply, hk] at hafter
        · exact .inl (by simpa [Change.apply, hk] using hafter)
    · exact .inr (List.mem_cons_of_mem _ hmem)

end Replay

/-! ## Windows -/

@[simp]
theorem window_self (log : Log α) (revision : ℕ) : window log revision revision = [] := by
  simp [window]

/-- A window depends on the entries in it only. -/
theorem window_congr {log log' : Log α} {first last : ℕ}
    (h : ∀ i, first ≤ i → i < last → log[i]?.join = log'[i]?.join) :
    window log first last = window log' first last := by
  apply List.filterMap_congr
  intro i hi
  obtain ⟨hfirst, hlast⟩ := List.mem_range'_1.mp hi
  exact h i hfirst (by omega)

/-- Later commits do not change a window that lies behind them. -/
theorem window_append_left {log : Log α} {last : ℕ} (h : last ≤ log.length) (first : ℕ)
    (more : Log α) : window (log ++ more) first last = window log first last := by
  apply window_congr
  intro i _ hi
  rw [List.getElem?_append_left (Nat.lt_of_lt_of_le hi h)]

theorem window_trans {log : Log α} {first middle last : ℕ} (hfirst : first ≤ middle)
    (hlast : middle ≤ last) :
    window log first last = window log first middle ++ window log middle last := by
  have hmiddle : first + 1 * (middle - first) = middle := by omega
  have hlength : (middle - first) + (last - middle) = last - first := by omega
  rw [window, window, window, ← List.filterMap_append, ← hlength, ← List.range'_append, hmiddle]

/-- A window without commits to the collection is empty. -/
theorem window_eq_nil {log : Log α} {first last : ℕ}
    (h : ∀ i, first ≤ i → i < last → log[i]?.join = none) : window log first last = [] := by
  rw [window, List.filterMap_eq_nil_iff]
  intro i hi
  obtain ⟨hfirst, hlast⟩ := List.mem_range'_1.mp hi
  exact h i hfirst (by omega)

theorem window_succ {log : Log α} {first index : ℕ} {change : Change α} (hfirst : first ≤ index)
    (h : log[index]?.join = some change) :
    window log first (index + 1) = window log first index ++ [change] := by
  rw [window_trans hfirst (Nat.le_succ index)]
  simp [window, h]

theorem mem_window {log : Log α} {first last : ℕ} {change : Change α} :
    change ∈ window log first last ↔
      ∃ i, first ≤ i ∧ i < last ∧ log[i]? = some (some change) := by
  simp only [window, List.mem_filterMap, List.mem_range'_1, Option.join_eq_some_iff]
  constructor
  · rintro ⟨i, ⟨hfirst, hlast⟩, hi⟩
    exact ⟨i, hfirst, by omega, hi⟩
  · rintro ⟨i, hfirst, hlast, hi⟩
    exact ⟨i, ⟨hfirst, by omega⟩, hi⟩

theorem mask_getElem?_join (log : Log α) (hidden : List ℕ) (i : ℕ) :
    (mask log hidden)[i]?.join = if i ∈ hidden then none else log[i]?.join := by
  rw [mask, List.getElem?_mapIdx]
  cases log[i]? with
  | none => simp
  | some entry => by_cases h : i ∈ hidden <;> simp [h]

@[simp]
theorem mask_nil (log : Log α) : mask log [] = log := by
  apply List.ext_getElem?
  intro i
  rw [mask, List.getElem?_mapIdx]
  cases log[i]? <;> simp

/-- A reader that passes over some entries up to the cursor, and over none but foreign ones behind it,
has read what it had read before. -/
theorem window_overtake {log : Log α} {passed missed : List ℕ} {first revision cursor last : ℕ}
    (hfirst : first ≤ revision) (hrevision : revision ≤ cursor) (hlast : cursor ≤ last)
    (hbetween : ∀ i, revision ≤ i → i < cursor → i ∉ passed → log[i]?.join = none)
    (hpassed : ∀ i ∈ passed, revision ≤ i ∧ i < cursor)
    (hgap : ∀ i, cursor ≤ i → i < last → log[i]?.join = none) :
    window (mask log (missed ++ passed)) first last = window (mask log missed) first revision := by
  have hbefore : window (mask log (missed ++ passed)) first revision =
      window (mask log missed) first revision := by
    apply window_congr
    intro i _ hi
    have hnot : i ∉ passed := fun h ↦ absurd (hpassed i h).1 (by omega)
    simp [mask_getElem?_join, hnot]
  have hafter : window (mask log (missed ++ passed)) revision last = [] := by
    apply window_eq_nil
    intro i hi hlt
    rw [mask_getElem?_join]
    by_cases hmem : i ∈ missed ++ passed
    · rw [if_pos hmem]
    rw [if_neg hmem]
    rcases Nat.lt_or_ge i cursor with hcursor | hcursor
    · exact hbetween i hi hcursor fun h ↦ hmem (List.mem_append_right _ h)
    · exact hgap i hcursor hlt
  rw [window_trans hfirst (Nat.le_trans hrevision hlast), hbefore, hafter, List.append_nil]

section State

variable [DecidableEq κ] {key : α → κ}

theorem stateAt_append_left {log : Log α} {revision : ℕ} (h : revision ≤ log.length)
    (more : Log α) : stateAt key (log ++ more) revision = stateAt key log revision := by
  rw [stateAt, stateAt, window_append_left h]

/-- A client that applies the window to what it knew of the first revision knows the second. -/
theorem stateAt_eq_replay {log : Log α} {first last : ℕ} (h : first ≤ last) :
    stateAt key log last = replay key (stateAt key log first) (window log first last) := by
  rw [stateAt, window_trans (Nat.zero_le first) h, replay_append]
  rfl

theorem stateAt_overtake {log : Log α} {passed missed : List ℕ} {revision cursor last : ℕ}
    (hrevision : revision ≤ cursor) (hlast : cursor ≤ last)
    (hbetween : ∀ i, revision ≤ i → i < cursor → i ∉ passed → log[i]?.join = none)
    (hpassed : ∀ i ∈ passed, revision ≤ i ∧ i < cursor)
    (hgap : ∀ i, cursor ≤ i → i < last → log[i]?.join = none) :
    stateAt key (mask log (missed ++ passed)) last =
      stateAt key (mask log missed) revision := by
  rw [stateAt, window_overtake (Nat.zero_le _) hrevision hlast hbetween hpassed hgap, stateAt]

/-- The objects of the collection were committed. -/
theorem exists_put_of_stateAt {log : Log α} {revision : ℕ} {k : κ} {object : α}
    (h : stateAt key log revision k = some object) :
    ∃ index < revision, log[index]? = some (some (.put object)) := by
  rcases put_of_replay h with hnone | hmem
  · cases hnone
  · obtain ⟨index, -, hlt, hentry⟩ := mem_window.mp hmem
    exact ⟨index, hlt, hentry⟩

theorem stateAt_succ {log : Log α} {index : ℕ} {change : Change α}
    (h : log[index]?.join = some change) :
    stateAt key log (index + 1) = change.apply key (stateAt key log index) := by
  rw [stateAt, window_succ (Nat.zero_le index) h, replay_concat, stateAt]

end State

/-! ## What is put -/

/-- The objects that the changes put into the collection, in order. -/
def puts (changes : List (Change α)) : List α :=
  changes.filterMap fun
    | .put object => some object
    | .delete _ => none

theorem puts_append (first second : List (Change α)) :
    puts (first ++ second) = puts first ++ puts second :=
  List.filterMap_append

theorem mem_puts {changes : List (Change α)} {object : α} :
    object ∈ puts changes ↔ .put object ∈ changes := by
  rw [puts, List.mem_filterMap]
  constructor
  · rintro ⟨change, hmem, hput⟩
    cases change with
    | put found =>
      obtain rfl : found = object := Option.some.inj hput
      exact hmem
    | delete old => cases hput
  · intro hmem
    exact ⟨_, hmem, rfl⟩

/-- The last object with a property and what is around it. -/
theorem exists_split_of_getLast?_filter {objects : List α} {p : α → Bool} {object : α}
    (h : (objects.filter p).getLast? = some object) :
    ∃ before after, objects = before ++ object :: after ∧ ∀ other ∈ after, ¬ p other := by
  obtain ⟨first, hfirst⟩ := List.getLast?_eq_some_iff.mp h
  obtain ⟨front, rest, rfl, -, hrest⟩ := List.filter_eq_append_iff.mp hfirst
  obtain ⟨before, after, rfl, -, -, hafter⟩ := List.filter_eq_cons_iff.mp hrest
  refine ⟨front ++ before, after, by rw [List.append_assoc], ?_⟩
  exact List.filter_eq_nil_iff.mp hafter

section Latest

variable [DecidableEq κ] {key : α → κ}

/-- After a snapshot and the changes behind it, what is in the collection under a key is the last
object with that key. -/
theorem getLast?_of_replay {collection : Collection κ α} {objects : List α}
    (hsnapshot : IsSnapshot key objects collection)
    (hkey : ∀ k object, collection k = some object → key object = k) {changes : List (Change α)}
    {k : κ} {object : α} (h : replay key collection changes k = some object) :
    ((objects ++ puts changes).filter fun other ↦ key other = k).getLast? = some object := by
  induction changes using List.reverseRecOn generalizing object with
  | nil =>
    have hmem : object ∈ objects := by
      rw [hsnapshot.mem_iff, hkey k object h]
      exact h
    have hall : ∀ other ∈ objects.filter (fun other ↦ key other = k), other = object := by
      intro other hother
      obtain ⟨hobjects, hk⟩ := List.mem_filter.mp hother
      have hcollection := (hsnapshot.mem_iff other).mp hobjects
      rw [of_decide_eq_true hk] at hcollection
      exact Option.some.inj (hcollection.symm.trans h)
    have hne : objects.filter (fun other ↦ key other = k) ≠ [] :=
      List.ne_nil_of_mem (List.mem_filter.mpr ⟨hmem, by simp [hkey k object h]⟩)
    rw [show puts ([] : List (Change α)) = [] from rfl, List.append_nil,
      List.getLast?_eq_getLast_of_ne_nil hne, hall _ (List.getLast_mem hne)]
  | append_singleton changes last ih =>
    rw [replay_concat] at h
    cases last with
    | put new =>
      rw [puts_append, ← List.append_assoc, List.filter_append]
      by_cases hk : key new = k
      · obtain rfl : new = object := by simpa [Change.apply, hk] using h
        simp [puts, hk]
      · have hbefore : replay key collection changes k = some object := by
          simpa [Change.apply, Ne.symm hk] using h
        simpa [puts, hk] using ih hbefore
    | delete old =>
      by_cases hk : key old = k
      · simp [Change.apply, hk] at h
      · have hbefore : replay key collection changes k = some object := by
          simpa [Change.apply, Ne.symm hk] using h
        simpa [puts_append, puts] using ih hbefore

/-- Where each commit stamps its object, a reader of a snapshot and of the changes behind it sees no
stamp twice. -/
theorem nodup_map_stamp {τ : Type*} {log : Log α} {stamp : α → τ} {stampOf : ℕ → τ}
    (hinjective : Function.Injective stampOf)
    (hstamp : ∀ index object, log[index]? = some (some (.put object)) → stamp object = stampOf index)
    {objects : List α} {listed : ℕ} (hsnapshot : IsSnapshot key objects (stateAt key log listed))
    (last : ℕ) : ((objects ++ puts (window log listed last)).map stamp).Nodup := by
  have hobjects : ∀ object ∈ objects, ∃ index < listed, log[index]? = some (some (.put object)) :=
    fun object hobject ↦ exists_put_of_stateAt ((hsnapshot.mem_iff object).mp hobject)
  rw [List.map_append, List.nodup_append]
  refine ⟨?_, ?_, ?_⟩
  · apply List.Nodup.map_on ?_ hsnapshot.nodup
    intro first hfirst second hsecond heq
    obtain ⟨i, -, hi⟩ := hobjects first hfirst
    obtain ⟨j, -, hj⟩ := hobjects second hsecond
    rw [hstamp i first hi, hstamp j second hj] at heq
    rw [hinjective heq, hj] at hi
    cases hi
    rfl
  · rw [List.Nodup, List.pairwise_map, puts, List.pairwise_filterMap, window,
      List.pairwise_filterMap]
    apply List.Pairwise.imp ?_ (List.pairwise_lt_range' 1 Nat.one_pos)
    intro i j hlt first hfirst second hsecond object hobject other hother heq
    cases first with
    | delete old => cases hobject
    | put first =>
      cases second with
      | delete old => cases hother
      | put second =>
        cases hobject
        cases hother
        rw [hstamp i _ (Option.join_eq_some_iff.mp hfirst),
          hstamp j _ (Option.join_eq_some_iff.mp hsecond)] at heq
        exact absurd (hinjective heq) (Nat.ne_of_lt hlt)
  · intro first hfirst second hsecond heq
    obtain ⟨object, hobject, rfl⟩ := List.mem_map.mp hfirst
    obtain ⟨other, hother, rfl⟩ := List.mem_map.mp hsecond
    obtain ⟨i, hlt, hi⟩ := hobjects object hobject
    obtain ⟨j, hge, -, hj⟩ := mem_window.mp (mem_puts.mp hother)
    rw [hstamp i object hi, hstamp j other hj] at heq
    have := hinjective heq
    omega

end Latest

end EbpfPlayground.ChangeLog
