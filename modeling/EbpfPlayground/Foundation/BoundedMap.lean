import Mathlib.Data.Finmap
import Mathlib.Data.Finset.Card
import Mathlib.Data.List.Induction

/-!
# Hash maps with a maximal number of entries

The kernel's hash map holds at most `maxEntries` keys.  An update of a key that is present always
succeeds; an update with a new key is refused once the map is full.  The bound is a field of the
map, so that no operation can build a map that holds too many keys.
-/

namespace EbpfPlayground

/-- A finite map with at most `maxEntries` keys. -/
structure BoundedMap (Key Value : Type) (maxEntries : ℕ) where
  entries : Finmap fun _ : Key ↦ Value
  card_le : entries.keys.card ≤ maxEntries

namespace BoundedMap

variable {Key Value : Type} [DecidableEq Key] {maxEntries : ℕ}

instance [DecidableEq Value] : DecidableEq (BoundedMap Key Value maxEntries) := fun m m' ↦
  decidable_of_iff (m.entries = m'.entries)
    ⟨fun h ↦ by cases m; cases m'; cases h; rfl, fun h ↦ by rw [h]⟩

/-- The map without entries. -/
def empty : BoundedMap Key Value maxEntries := ⟨∅, by simp⟩

def lookup (m : BoundedMap Key Value maxEntries) (key : Key) : Option Value :=
  m.entries.lookup key

/-- The keys that have an entry. -/
def keys (m : BoundedMap Key Value maxEntries) : Finset Key := m.entries.keys

/-- The update is accepted: the key has an entry, or there is room for one more. -/
def Accepts (m : BoundedMap Key Value maxEntries) (key : Key) : Prop :=
  key ∈ m.keys ∨ m.keys.card < maxEntries

instance (m : BoundedMap Key Value maxEntries) (key : Key) : Decidable (m.Accepts key) :=
  inferInstanceAs (Decidable (_ ∨ _))

theorem keys_insert (entries : Finmap fun _ : Key ↦ Value) (key : Key) (value : Value) :
    (entries.insert key value).keys = Insert.insert key entries.keys := by
  ext other
  simp [Finmap.mem_keys]

theorem Accepts.card_insert_le {m : BoundedMap Key Value maxEntries} {key : Key}
    (h : m.Accepts key) (value : Value) : (m.entries.insert key value).keys.card ≤ maxEntries := by
  rw [keys_insert]
  rcases h with hmem | hroom
  · exact (congrArg Finset.card (Finset.insert_eq_of_mem hmem)).trans_le m.card_le
  · exact (Finset.card_insert_le _ _).trans hroom

/-- Create the entry or overwrite it; `none` when the update is refused. -/
def update (m : BoundedMap Key Value maxEntries) (key : Key) (value : Value) :
    Option (BoundedMap Key Value maxEntries) :=
  if h : m.Accepts key then some ⟨m.entries.insert key value, h.card_insert_le value⟩ else none

/-- The map after an update whose result the caller drops. -/
def put (m : BoundedMap Key Value maxEntries) (key : Key) (value : Value) :
    BoundedMap Key Value maxEntries := (m.update key value).getD m

/-- Remove the entry; `none` when there is none. -/
def delete (m : BoundedMap Key Value maxEntries) (key : Key) :
    Option (BoundedMap Key Value maxEntries) :=
  if key ∈ m.keys then
    some ⟨m.entries.erase key, by
      rw [Finmap.keys_erase]
      exact (Finset.card_le_card (Finset.erase_subset _ _)).trans m.card_le⟩
  else none

theorem ext_lookup {m m' : BoundedMap Key Value maxEntries}
    (h : ∀ key, m.lookup key = m'.lookup key) : m = m' := by
  obtain ⟨entries, _⟩ := m
  obtain ⟨entries', _⟩ := m'
  obtain rfl : entries = entries' := Finmap.ext_lookup h
  rfl

theorem mem_keys {m : BoundedMap Key Value maxEntries} {key : Key} :
    key ∈ m.keys ↔ ∃ value, m.lookup key = some value := by
  rw [keys, Finmap.mem_keys, ← Finmap.lookup_isSome, Option.isSome_iff_exists]
  rfl

omit [DecidableEq Key] in
@[simp]
theorem keys_empty : (empty : BoundedMap Key Value maxEntries).keys = ∅ := by
  simp [keys, empty]

@[simp]
theorem lookup_empty (key : Key) : (empty : BoundedMap Key Value maxEntries).lookup key = none := by
  simp [lookup, empty]

theorem update_eq_none {m : BoundedMap Key Value maxEntries} {key : Key} {value : Value} :
    m.update key value = none ↔ ¬ m.Accepts key := by
  simp [update]

theorem update_of_accepts {m : BoundedMap Key Value maxEntries} {key : Key} (value : Value)
    (h : m.Accepts key) : m.update key value = some (m.put key value) := by
  simp [put, update, h]

theorem put_of_accepts {m : BoundedMap Key Value maxEntries} {key : Key} (value : Value)
    (h : m.Accepts key) : m.put key value = ⟨m.entries.insert key value, h.card_insert_le value⟩ := by
  simp [put, update, h]

theorem put_of_not_accepts {m : BoundedMap Key Value maxEntries} {key : Key} (value : Value)
    (h : ¬ m.Accepts key) : m.put key value = m := by
  simp [put, update, h]

theorem lookup_put_self {m : BoundedMap Key Value maxEntries} {key : Key} (value : Value)
    (h : m.Accepts key) : (m.put key value).lookup key = some value := by
  rw [put_of_accepts value h]
  exact Finmap.lookup_insert _

theorem lookup_put_of_ne (m : BoundedMap Key Value maxEntries) {key other : Key} (value : Value)
    (hne : other ≠ key) : (m.put key value).lookup other = m.lookup other := by
  by_cases h : m.Accepts key
  · rw [put_of_accepts value h]
    exact Finmap.lookup_insert_of_ne _ hne
  · rw [put_of_not_accepts value h]

/-- What a lookup finds after a dropped-result update was there before or has just been put. -/
theorem lookup_put_cases {m : BoundedMap Key Value maxEntries} {key other : Key}
    {value found : Value} (h : (m.put key value).lookup other = some found) :
    m.lookup other = some found ∨ (other = key ∧ found = value) := by
  by_cases hkey : other = key
  · subst hkey
    by_cases haccepts : m.Accepts other
    · rw [lookup_put_self value haccepts] at h
      exact .inr ⟨rfl, (Option.some.inj h).symm⟩
    · rw [put_of_not_accepts value haccepts] at h
      exact .inl h
  · rw [lookup_put_of_ne m value hkey] at h
    exact .inl h

theorem update_eq_some {m m' : BoundedMap Key Value maxEntries} {key : Key} {value : Value} :
    m.update key value = some m' ↔ m.Accepts key ∧ m.put key value = m' := by
  by_cases h : m.Accepts key
  · rw [update_of_accepts value h, Option.some.injEq, and_iff_right h]
  · rw [update_eq_none.mpr h]
    exact iff_of_false (Option.some_ne_none _).symm fun haccepts ↦ h haccepts.1

/-- The first update of a map is read off the map. -/
theorem update_empty_inj {m : BoundedMap Key Value maxEntries} {key key' : Key} {value value' : Value}
    (h : (empty : BoundedMap Key Value maxEntries).update key value = some m)
    (h' : (empty : BoundedMap Key Value maxEntries).update key' value' = some m) :
    key = key' ∧ value = value' := by
  obtain ⟨haccepts, hput⟩ := update_eq_some.mp h
  obtain ⟨haccepts', hput'⟩ := update_eq_some.mp h'
  have hlookup : m.lookup key = some value := hput ▸ lookup_put_self value haccepts
  have hlookup' : m.lookup key' = some value' := hput' ▸ lookup_put_self value' haccepts'
  rw [← hput'] at hlookup
  rcases lookup_put_cases hlookup with hempty | heq
  · rw [lookup_empty] at hempty
    cases hempty
  · exact heq

theorem keys_put_of_accepts {m : BoundedMap Key Value maxEntries} {key : Key} (value : Value)
    (h : m.Accepts key) : (m.put key value).keys = insert key m.keys := by
  rw [put_of_accepts value h]
  exact keys_insert _ _ _

theorem keys_subset_put (m : BoundedMap Key Value maxEntries) (key : Key) (value : Value) :
    m.keys ⊆ (m.put key value).keys := by
  by_cases h : m.Accepts key
  · rw [keys_put_of_accepts value h]
    exact Finset.subset_insert _ _
  · rw [put_of_not_accepts value h]

theorem keys_put_subset (m : BoundedMap Key Value maxEntries) (key : Key) (value : Value) :
    (m.put key value).keys ⊆ insert key m.keys := by
  by_cases h : m.Accepts key
  · rw [keys_put_of_accepts value h]
  · rw [put_of_not_accepts value h]
    exact Finset.subset_insert _ _

/-- The map after a deletion whose result the caller drops. -/
def remove (m : BoundedMap Key Value maxEntries) (key : Key) : BoundedMap Key Value maxEntries :=
  (m.delete key).getD m

theorem lookup_remove (m : BoundedMap Key Value maxEntries) (key other : Key) :
    (m.remove key).lookup other = if other = key then none else m.lookup other := by
  rw [remove, delete]
  by_cases hmem : key ∈ m.keys
  · rw [if_pos hmem, Option.getD_some]
    by_cases hother : other = key
    · rw [if_pos hother, hother]
      exact Finmap.lookup_erase _ _
    · rw [if_neg hother]
      exact Finmap.lookup_erase_ne hother
  · rw [if_neg hmem, Option.getD_none]
    by_cases hother : other = key
    · rw [if_pos hother, hother, ← Option.not_isSome_iff_eq_none, Option.isSome_iff_exists, ← mem_keys]
      exact hmem
    · rw [if_neg hother]

/-- Dropped-result updates, one after the other. -/
def putAll (m : BoundedMap Key Value maxEntries) (updates : List (Key × Value)) :
    BoundedMap Key Value maxEntries := updates.foldl (fun m' entry ↦ m'.put entry.1 entry.2) m

@[simp]
theorem putAll_nil (m : BoundedMap Key Value maxEntries) : m.putAll [] = m := rfl

@[simp]
theorem putAll_cons (m : BoundedMap Key Value maxEntries) (entry : Key × Value)
    (updates : List (Key × Value)) :
    m.putAll (entry :: updates) = (m.put entry.1 entry.2).putAll updates := rfl

theorem putAll_append (m : BoundedMap Key Value maxEntries) (first second : List (Key × Value)) :
    m.putAll (first ++ second) = (m.putAll first).putAll second := List.foldl_append

/-- Provenance of an entry: it was there before the updates or is one of them. -/
theorem lookup_putAll_cases {m : BoundedMap Key Value maxEntries} {updates : List (Key × Value)}
    {key : Key} {value : Value} (h : (m.putAll updates).lookup key = some value) :
    m.lookup key = some value ∨ (key, value) ∈ updates := by
  induction updates generalizing m with
  | nil => exact .inl h
  | cons entry updates ih =>
    rcases ih h with hput | hmem
    · rcases lookup_put_cases hput with hold | ⟨rfl, rfl⟩
      · exact .inl hold
      · exact .inr List.mem_cons_self
    · exact .inr (List.mem_cons_of_mem _ hmem)

/-- A key that the updates do not name keeps its entry. -/
theorem lookup_putAll_of_notMem {m : BoundedMap Key Value maxEntries}
    {updates : List (Key × Value)} {key : Key} (h : key ∉ updates.map Prod.fst) :
    (m.putAll updates).lookup key = m.lookup key := by
  induction updates generalizing m with
  | nil => rfl
  | cons entry updates ih =>
    simp only [List.map_cons, List.mem_cons, not_or] at h
    rw [putAll_cons, ih h.2, lookup_put_of_ne m entry.2 h.1]

theorem keys_subset_putAll (m : BoundedMap Key Value maxEntries) (updates : List (Key × Value)) :
    m.keys ⊆ (m.putAll updates).keys := by
  induction updates generalizing m with
  | nil => exact Finset.Subset.refl _
  | cons entry updates ih => exact (keys_subset_put m entry.1 entry.2).trans (ih _)

theorem keys_putAll_subset (m : BoundedMap Key Value maxEntries) (updates : List (Key × Value)) :
    (m.putAll updates).keys ⊆ m.keys ∪ (updates.map Prod.fst).toFinset := by
  induction updates generalizing m with
  | nil => simp
  | cons entry updates ih =>
    refine (ih (m.put entry.1 entry.2)).trans ?_
    have hput := keys_put_subset m entry.1 entry.2
    intro key hkey
    simp only [Finset.mem_union, List.map_cons, List.toFinset_cons, Finset.mem_insert] at hkey ⊢
    rcases hkey with hkey | hkey
    · rcases Finset.mem_insert.mp (hput hkey) with rfl | hold
      · exact .inr (.inl rfl)
      · exact .inl hold
    · exact .inr (.inr hkey)

/-! ## Sequences of updates of which none is refused -/

/-- Every one of the updates is accepted when its turn comes. -/
def AcceptsAll (m : BoundedMap Key Value maxEntries) (updates : List (Key × Value)) : Prop :=
  ∀ first entry rest, updates = first ++ entry :: rest → (m.putAll first).Accepts entry.1

/-- A key that has an entry keeps accepting updates. -/
theorem accepts_putAll_of_mem_keys {m : BoundedMap Key Value maxEntries} {key : Key}
    (h : key ∈ m.keys) (updates : List (Key × Value)) : (m.putAll updates).Accepts key :=
  .inl (keys_subset_putAll m updates h)

/-- There is room for all of them. -/
theorem acceptsAll_of_length_le {m : BoundedMap Key Value maxEntries}
    {updates : List (Key × Value)} (h : m.keys.card + updates.length ≤ maxEntries) :
    m.AcceptsAll updates := by
  intro first entry rest hsplit
  right
  have hlength : first.length + 1 ≤ updates.length := by
    rw [hsplit, List.length_append, List.length_cons]
    omega
  calc
    (m.putAll first).keys.card ≤ (m.keys ∪ (first.map Prod.fst).toFinset).card :=
      Finset.card_le_card (keys_putAll_subset m first)
    _ ≤ m.keys.card + (first.map Prod.fst).toFinset.card := Finset.card_union_le _ _
    _ ≤ m.keys.card + first.length := by
      have hcard := List.toFinset_card_le (first.map Prod.fst)
      rw [List.length_map] at hcard
      exact Nat.add_le_add_left hcard _
    _ < maxEntries := by omega

/-- The last accepted update of a key decides its entry. -/
theorem lookup_putAll_of_last {m : BoundedMap Key Value maxEntries} {key : Key}
    {first rest : List (Key × Value)} (value : Value) (haccepts : (m.putAll first).Accepts key)
    (hrest : key ∉ rest.map Prod.fst) :
    (m.putAll (first ++ (key, value) :: rest)).lookup key = some value := by
  calc
    (m.putAll (first ++ (key, value) :: rest)).lookup key
        = (((m.putAll first).put key value).putAll rest).lookup key := by
      rw [putAll_append, putAll_cons]
    _ = ((m.putAll first).put key value).lookup key := lookup_putAll_of_notMem hrest
    _ = some value := lookup_put_self value haccepts

/-- A key that is updated, with none of its updates refused, has one of the new values. -/
theorem lookup_putAll_of_mem {m : BoundedMap Key Value maxEntries} {key : Key}
    {updates : List (Key × Value)}
    (haccepts : ∀ first value rest, updates = first ++ (key, value) :: rest →
      (m.putAll first).Accepts key)
    (hmem : key ∈ updates.map Prod.fst) :
    ∃ value, (key, value) ∈ updates ∧ (m.putAll updates).lookup key = some value := by
  induction updates using List.reverseRecOn with
  | nil => cases hmem
  | append_singleton updates entry ih =>
    obtain ⟨key', value'⟩ := entry
    by_cases hkey : key' = key
    · subst hkey
      refine ⟨value', by simp, ?_⟩
      exact lookup_putAll_of_last value' (haccepts updates value' [] rfl) (by simp)
    · have hbefore : key ∈ updates.map Prod.fst := by
        rw [List.map_append, List.mem_append] at hmem
        exact hmem.resolve_right fun h ↦ hkey (List.mem_singleton.mp h).symm
      obtain ⟨value, hvalue, hlookup⟩ := ih (fun first value rest hsplit ↦
        haccepts first value (rest ++ [(key', value')]) (by rw [hsplit]; simp)) hbefore
      refine ⟨value, List.mem_append_left _ hvalue, ?_⟩
      rw [putAll_append, putAll_cons, putAll_nil, lookup_put_of_ne _ _ (Ne.symm hkey)]
      exact hlookup

/-! ## The keys of a map that only grows -/

theorem eraseDups_concat (keys : List Key) (key : Key) :
    (keys ++ [key]).eraseDups = if key ∈ keys then keys.eraseDups else keys.eraseDups ++ [key] := by
  rw [List.eraseDups_append]
  split <;> simp_all [List.removeAll, List.eraseDups_cons]

theorem nodup_eraseDups (keys : List Key) : keys.eraseDups.Nodup := by
  induction keys using List.reverseRecOn with
  | nil => exact List.nodup_nil
  | append_singleton keys key ih =>
    rw [eraseDups_concat]
    split
    · exact ih
    · next h =>
      refine List.Nodup.append ih (List.nodup_singleton key) ?_
      rw [List.disjoint_singleton]
      exact fun hmem ↦ h (List.mem_eraseDups.mp hmem)

theorem eraseDups_eq_self {keys : List Key} (h : keys.Nodup) : keys.eraseDups = keys := by
  induction keys using List.reverseRecOn with
  | nil => rfl
  | append_singleton keys key ih =>
    rw [List.nodup_append] at h
    have hnew : key ∉ keys := fun hmem ↦ h.2.2 key hmem key List.mem_cons_self rfl
    rw [eraseDups_concat, if_neg hnew, ih h.1]

/-- After any updates of an empty map, its keys are the first distinct ones that were updated, as
many as fit. -/
theorem keys_putAll_empty (updates : List (Key × Value)) :
    ((empty : BoundedMap Key Value maxEntries).putAll updates).keys =
      ((updates.map Prod.fst).eraseDups.take maxEntries).toFinset := by
  induction updates using List.reverseRecOn with
  | nil => simp
  | append_singleton updates entry ih =>
    obtain ⟨key, value⟩ := entry
    set keys := updates.map Prod.fst with hkeys
    have hcard : ((empty : BoundedMap Key Value maxEntries).putAll updates).keys.card =
        min maxEntries keys.eraseDups.length := by
      rw [ih, List.toFinset_card_of_nodup ((nodup_eraseDups keys).sublist (List.take_sublist _ _)),
        List.length_take]
    rw [putAll_append, putAll_cons, putAll_nil, List.map_append, ← hkeys, List.map_cons,
      List.map_nil, eraseDups_concat]
    by_cases hfull : maxEntries ≤ keys.eraseDups.length
    · -- The map is full: the update adds no key, and the first keys are already complete.
      have hsame : ((if key ∈ keys then keys.eraseDups else keys.eraseDups ++ [key]).take
          maxEntries) = keys.eraseDups.take maxEntries := by
        split
        · rfl
        · exact List.take_append_of_le_length hfull
      rw [hsame, ← ih]
      by_cases hmem : key ∈ ((empty : BoundedMap Key Value maxEntries).putAll updates).keys
      · rw [keys_put_of_accepts value (.inl hmem), Finset.insert_eq_of_mem hmem]
      · rw [put_of_not_accepts value]
        rintro (hin | hroom)
        · exact hmem hin
        · rw [hcard, Nat.min_eq_left hfull] at hroom
          exact absurd hroom (lt_irrefl _)
    · have hroom : ((empty : BoundedMap Key Value maxEntries).putAll updates).Accepts key := by
        right
        rw [hcard]
        omega
      rw [keys_put_of_accepts value hroom, ih, List.take_of_length_le (by omega)]
      split
      · next hmem =>
        rw [List.take_of_length_le (by omega), Finset.insert_eq_of_mem]
        exact List.mem_toFinset.mpr (List.mem_eraseDups.mpr hmem)
      · rw [List.take_of_length_le (by rw [List.length_append, List.length_singleton]; omega)]
        ext other
        simp

/-! ## Updates that are already in the map -/

/-- Performing these updates once more changes nothing: the last one of each key is its entry, or the
map is full and the key has none. -/
def Settled (m : BoundedMap Key Value maxEntries) (updates : List (Key × Value)) : Prop :=
  ∀ first key value rest, updates = first ++ (key, value) :: rest → key ∉ rest.map Prod.fst →
    m.lookup key = some value ∨ ¬ m.Accepts key

/-- A key that has been refused is refused for ever. -/
theorem not_accepts_putAll {m : BoundedMap Key Value maxEntries} {key : Key} (h : ¬ m.Accepts key)
    (updates : List (Key × Value)) : ¬ (m.putAll updates).Accepts key := by
  induction updates generalizing m with
  | nil => exact h
  | cons entry updates ih =>
    rw [putAll_cons]
    apply ih
    by_cases hentry : m.Accepts entry.1
    · -- The map is full, so the accepted key has an entry already.
      have hfull : ¬ m.keys.card < maxEntries := fun hroom ↦ h (.inr hroom)
      have hmem : entry.1 ∈ m.keys := hentry.resolve_right hfull
      have hkeys : (m.put entry.1 entry.2).keys = m.keys := by
        rw [keys_put_of_accepts entry.2 hentry, Finset.insert_eq_of_mem hmem]
      rw [Accepts, hkeys]
      exact h
    · rw [put_of_not_accepts entry.2 hentry]
      exact h

theorem settled_putAll (m : BoundedMap Key Value maxEntries) (updates : List (Key × Value)) :
    (m.putAll updates).Settled updates := by
  intro first key value rest hsplit hrest
  by_cases haccepts : (m.putAll first).Accepts key
  · left
    rw [hsplit]
    exact lookup_putAll_of_last value haccepts hrest
  · right
    rw [hsplit, putAll_append]
    exact not_accepts_putAll haccepts _

/-- Updates of other keys leave settled updates settled. -/
theorem Settled.putAll {m : BoundedMap Key Value maxEntries} {updates : List (Key × Value)}
    (h : m.Settled updates) {others : List (Key × Value)}
    (hdisjoint : ∀ key ∈ updates.map Prod.fst, key ∉ others.map Prod.fst) :
    (m.putAll others).Settled updates := by
  intro first key value rest hsplit hrest
  have hkey : key ∈ updates.map Prod.fst := by simp [hsplit]
  rcases h first key value rest hsplit hrest with hlookup | hrefused
  · left
    rw [lookup_putAll_of_notMem (hdisjoint key hkey)]
    exact hlookup
  · exact .inr (not_accepts_putAll hrefused others)

/-- The last update of a key, with what comes before and after it. -/
theorem exists_last_update {updates : List (Key × Value)} {key : Key}
    (h : key ∈ updates.map Prod.fst) :
    ∃ first value rest, updates = first ++ (key, value) :: rest ∧ key ∉ rest.map Prod.fst := by
  induction updates with
  | nil => cases h
  | cons entry updates ih =>
    by_cases hlater : key ∈ updates.map Prod.fst
    · obtain ⟨first, value, rest, hsplit, hrest⟩ := ih hlater
      exact ⟨entry :: first, value, rest, by rw [hsplit]; rfl, hrest⟩
    · rw [List.map_cons, List.mem_cons, or_iff_left hlater] at h
      exact ⟨[], entry.2, updates, by rw [h]; rfl, hlater⟩

theorem putAll_of_settled {m : BoundedMap Key Value maxEntries} {updates : List (Key × Value)}
    (h : m.Settled updates) : m.putAll updates = m := by
  apply ext_lookup
  intro key
  by_cases hkey : key ∈ updates.map Prod.fst
  · obtain ⟨first, value, rest, hsplit, hrest⟩ := exists_last_update hkey
    rcases h first key value rest hsplit hrest with hlookup | hrefused
    · have hmem : key ∈ m.keys := mem_keys.mpr ⟨value, hlookup⟩
      rw [hlookup, hsplit]
      exact lookup_putAll_of_last value (accepts_putAll_of_mem_keys hmem first) hrest
    · have hnone : ∀ other, (m.putAll other).lookup key = none := by
        intro other
        by_contra hsome
        rw [← ne_eq, Option.ne_none_iff_exists'] at hsome
        exact not_accepts_putAll hrefused other (.inl (mem_keys.mpr hsome))
      rw [hnone updates]
      exact (hnone []).symm
  · exact lookup_putAll_of_notMem hkey

/-! ## Updates in another order -/

theorem acceptsAll_nil (m : BoundedMap Key Value maxEntries) : m.AcceptsAll [] := by
  intro first entry rest hsplit
  simp at hsplit

theorem acceptsAll_append {m : BoundedMap Key Value maxEntries} {first second : List (Key × Value)} :
    m.AcceptsAll (first ++ second) ↔ m.AcceptsAll first ∧ (m.putAll first).AcceptsAll second := by
  constructor
  · intro h
    refine ⟨fun before entry after hsplit ↦ ?_, fun before entry after hsplit ↦ ?_⟩
    · exact h before entry (after ++ second) (by rw [hsplit]; simp)
    · have haccepts := h (first ++ before) entry after (by rw [hsplit]; simp)
      rwa [putAll_append] at haccepts
  · rintro ⟨hfirst, hsecond⟩ before entry after hsplit
    rcases List.append_eq_append_iff.mp hsplit with ⟨middle, hbefore, hrest⟩ | ⟨middle, hwhole, hrest⟩
    · rw [hbefore, putAll_append]
      exact hsecond middle entry after hrest
    · cases middle with
      | nil =>
        rw [List.append_nil] at hwhole
        rw [← hwhole]
        exact hsecond [] entry after hrest.symm
      | cons head middle =>
        rw [List.cons_append, List.cons.injEq] at hrest
        rw [← hrest.1] at hwhole
        exact hfirst before entry middle hwhole

theorem acceptsAll_cons {m : BoundedMap Key Value maxEntries} {entry : Key × Value}
    {updates : List (Key × Value)} :
    m.AcceptsAll (entry :: updates) ↔
      m.Accepts entry.1 ∧ (m.put entry.1 entry.2).AcceptsAll updates := by
  have hsingle : m.AcceptsAll [entry] ↔ m.Accepts entry.1 := by
    constructor
    · exact fun h ↦ h [] entry [] rfl
    · intro h first entry' rest hsplit
      rcases List.append_eq_cons_iff.mp hsplit.symm with ⟨rfl, hrest⟩ | ⟨tail, rfl, htail⟩
      · rw [List.cons.injEq] at hrest
        rw [hrest.1]
        exact h
      · simp at htail
  calc
    m.AcceptsAll (entry :: updates)
        ↔ m.AcceptsAll [entry] ∧ (m.putAll [entry]).AcceptsAll updates := by
      rw [← acceptsAll_append, List.singleton_append]
    _ ↔ m.Accepts entry.1 ∧ (m.put entry.1 entry.2).AcceptsAll updates := by
      rw [hsingle, putAll_cons, putAll_nil]

/-- No update is refused exactly when the old and the new keys fit together. -/
theorem acceptsAll_iff_card_le {m : BoundedMap Key Value maxEntries}
    {updates : List (Key × Value)} :
    m.AcceptsAll updates ↔ (m.keys ∪ (updates.map Prod.fst).toFinset).card ≤ maxEntries := by
  induction updates generalizing m with
  | nil =>
    rw [List.map_nil, List.toFinset_nil, Finset.union_empty]
    exact iff_of_true (acceptsAll_nil m) m.card_le
  | cons entry updates ih =>
    have hunion : m.keys ∪ ((entry :: updates).map Prod.fst).toFinset =
        insert entry.1 m.keys ∪ (updates.map Prod.fst).toFinset := by
      rw [List.map_cons, List.toFinset_cons, Finset.union_insert, Finset.insert_union]
    rw [acceptsAll_cons, hunion]
    by_cases haccepts : m.Accepts entry.1
    · rw [and_iff_right haccepts, ih, keys_put_of_accepts entry.2 haccepts]
    · refine iff_of_false (fun h ↦ haccepts h.1) fun hcard ↦ haccepts ?_
      by_cases hmem : entry.1 ∈ m.keys
      · exact .inl hmem
      · right
        calc
          m.keys.card < (insert entry.1 m.keys).card := by
            rw [Finset.card_insert_of_notMem hmem]
            exact Nat.lt_succ_self _
          _ ≤ _ := Finset.card_le_card Finset.subset_union_left
          _ ≤ maxEntries := hcard

theorem acceptsAll_append_comm {m : BoundedMap Key Value maxEntries}
    {first second : List (Key × Value)} :
    m.AcceptsAll (first ++ second) ↔ m.AcceptsAll (second ++ first) := by
  rw [acceptsAll_iff_card_le, acceptsAll_iff_card_le, List.map_append, List.map_append,
    List.toFinset_append, List.toFinset_append, Finset.union_comm (first.map Prod.fst).toFinset]

/-- Updates of different keys commute where none is refused. -/
theorem putAll_append_comm {m : BoundedMap Key Value maxEntries}
    {first second : List (Key × Value)}
    (hdisjoint : ∀ key ∈ first.map Prod.fst, key ∉ second.map Prod.fst)
    (haccepts : m.AcceptsAll (first ++ second)) :
    m.putAll (first ++ second) = m.putAll (second ++ first) := by
  have haccepts' := acceptsAll_append_comm.mp haccepts
  -- Each key is updated on one side only, and there its last update decides in both orders.
  have hside : ∀ {own other : List (Key × Value)} {key : Key}, key ∈ own.map Prod.fst →
      key ∉ other.map Prod.fst → m.AcceptsAll (own ++ other) → m.AcceptsAll (other ++ own) →
      (m.putAll (own ++ other)).lookup key = (m.putAll (other ++ own)).lookup key := by
    intro own other key hown hother hfirst hsecond
    obtain ⟨before, value, after, hsplit, hafter⟩ := exists_last_update hown
    have hlast : (m.putAll own).lookup key = some value := by
      rw [hsplit]
      exact lookup_putAll_of_last value
        ((acceptsAll_append.mp hfirst).1 before (key, value) after hsplit) hafter
    have hlast' : ((m.putAll other).putAll own).lookup key = some value := by
      rw [hsplit]
      exact lookup_putAll_of_last value
        ((acceptsAll_append.mp hsecond).2 before (key, value) after hsplit) hafter
    rw [putAll_append, putAll_append, lookup_putAll_of_notMem hother, hlast, hlast']
  apply ext_lookup
  intro key
  by_cases hfirst : key ∈ first.map Prod.fst
  · exact hside hfirst (hdisjoint key hfirst) haccepts haccepts'
  · by_cases hsecond : key ∈ second.map Prod.fst
    · exact (hside hsecond hfirst haccepts' haccepts).symm
    · rw [putAll_append, putAll_append, lookup_putAll_of_notMem hsecond,
        lookup_putAll_of_notMem hfirst, lookup_putAll_of_notMem hfirst,
        lookup_putAll_of_notMem hsecond]

/-- Blocks of updates of different keys may be performed in any order, where none is refused. -/
theorem putAll_flatten_perm {blocks blocks' : List (List (Key × Value))} (hperm : blocks.Perm blocks')
    (hdisjoint : blocks.Pairwise fun block block' ↦
      ∀ key ∈ block.map Prod.fst, key ∉ block'.map Prod.fst)
    {m : BoundedMap Key Value maxEntries} (haccepts : m.AcceptsAll blocks.flatten) :
    m.putAll blocks'.flatten = m.putAll blocks.flatten ∧ m.AcceptsAll blocks'.flatten := by
  induction hperm generalizing m with
  | nil => exact ⟨rfl, haccepts⟩
  | cons block _ ih =>
    rw [List.flatten_cons] at haccepts
    obtain ⟨hblock, hrest⟩ := acceptsAll_append.mp haccepts
    obtain ⟨heq, haccepts'⟩ := ih (List.pairwise_cons.mp hdisjoint).2 hrest
    rw [List.flatten_cons, List.flatten_cons, putAll_append, putAll_append, heq, acceptsAll_append]
    exact ⟨rfl, hblock, haccepts'⟩
  | swap block block' rest =>
    have hkeys := (List.pairwise_cons.mp hdisjoint).1 block List.mem_cons_self
    simp only [List.flatten_cons, ← List.append_assoc] at haccepts ⊢
    obtain ⟨hboth, hrest⟩ := acceptsAll_append.mp haccepts
    have hcomm := putAll_append_comm hkeys hboth
    refine ⟨?_, acceptsAll_append.mpr ⟨acceptsAll_append_comm.mp hboth, hcomm ▸ hrest⟩⟩
    rw [putAll_append _ (block ++ block'), putAll_append _ (block' ++ block), hcomm]
  | trans hperm _ ih ih' =>
    obtain ⟨heq, haccepts'⟩ := ih hdisjoint haccepts
    have hsymm : ∀ {block block' : List (Key × Value)},
        (∀ key ∈ block.map Prod.fst, key ∉ block'.map Prod.fst) →
        ∀ key ∈ block'.map Prod.fst, key ∉ block.map Prod.fst :=
      fun h key hkey hmem ↦ h key hmem hkey
    obtain ⟨heq', haccepts''⟩ := ih' ((hperm.pairwise_iff hsymm).mp hdisjoint) haccepts'
    exact ⟨heq'.trans heq, haccepts''⟩

end BoundedMap

end EbpfPlayground
