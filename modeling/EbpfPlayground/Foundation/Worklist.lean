import EbpfPlayground.Foundation.Fallible
import Mathlib.Algebra.Order.BigOperators.Group.Finset
import Mathlib.Data.Set.Finite.Basic
import Mathlib.Logic.Relation

/-!
# Work lists

A queue of items is worked off.  The visit of an item gives a result and further items, which go to
the end of the queue; an item that has been visited is passed over.
-/

namespace EbpfPlayground.Worklist

open Fallible

variable {α β ε : Type}

/-- The visit of an item asks for another one. -/
def Asks (visit : α → Except ε (β × List α)) (item next : α) : Prop :=
  ∃ result further, visit item = .ok (result, further) ∧ next ∈ further

/-- An item that is in the queue or asked for, directly or not, by one that is. -/
def Reached (visit : α → Except ε (β × List α)) (queue : List α) (item : α) : Prop :=
  ∃ root ∈ queue, Relation.ReflTransGen (Asks visit) root item

section

variable {visit : α → Except ε (β × List α)}

theorem Reached.of_mem {queue : List α} {item : α} (h : item ∈ queue) : Reached visit queue item :=
  ⟨item, h, .refl⟩

theorem Reached.tail {queue : List α} {item next : α} (h : Reached visit queue item)
    (hnext : Asks visit item next) : Reached visit queue next := by
  obtain ⟨root, hroot, hpath⟩ := h
  exact ⟨root, hroot, hpath.tail hnext⟩

/-- What the queue behind an item asks for and what the item asks for is what both ask for. -/
theorem Reached.of_append {queue further : List α} {item reached : α} {result : β}
    (hvisit : visit item = .ok (result, further)) (h : Reached visit (queue ++ further) reached) :
    Reached visit (item :: queue) reached := by
  obtain ⟨root, hroot, hpath⟩ := h
  rcases List.mem_append.mp hroot with hqueue | hfurther
  · exact ⟨root, List.mem_cons_of_mem item hqueue, hpath⟩
  · exact ⟨item, List.mem_cons_self, .head ⟨result, further, hvisit, hfurther⟩ hpath⟩

/-- What a loop that came to its end has done. -/
structure Complete (visit : α → Except ε (β × List α)) (queue done : List α)
    (results : List (α × β)) : Prop where
  nodup : (results.map Prod.fst).Nodup
  fresh : ∀ item ∈ results.map Prod.fst, item ∉ done
  covers : ∀ item ∈ queue, item ∈ done ∨ item ∈ results.map Prod.fst
  visited : ∀ item result, (item, result) ∈ results →
    ∃ further, visit item = .ok (result, further) ∧
      ∀ next ∈ further, next ∈ done ∨ next ∈ results.map Prod.fst
  reached : ∀ item ∈ results.map Prod.fst, Reached visit queue item

theorem Complete.nil (done : List α) : Complete visit [] done [] where
  nodup := List.nodup_nil
  fresh _ h := absurd h List.not_mem_nil
  covers _ h := absurd h List.not_mem_nil
  visited _ _ h := absurd h List.not_mem_nil
  reached _ h := absurd h List.not_mem_nil

/-- A turn on an item that has been visited. -/
theorem Complete.skip {queue done : List α} {results : List (α × β)} {item : α}
    (h : Complete visit queue done results) (hdone : item ∈ done) :
    Complete visit (item :: queue) done results where
  nodup := h.nodup
  fresh := h.fresh
  covers := List.forall_mem_cons.mpr ⟨.inl hdone, h.covers⟩
  visited := h.visited
  reached other hother := by
    obtain ⟨root, hroot, hpath⟩ := h.reached other hother
    exact ⟨root, List.mem_cons_of_mem item hroot, hpath⟩

/-- A turn on an item that has not been visited. -/
theorem Complete.turn {queue done further : List α} {results : List (α × β)} {item : α} {result : β}
    (h : Complete visit (queue ++ further) (item :: done) results) (hdone : item ∉ done)
    (hvisit : visit item = .ok (result, further)) :
    Complete visit (item :: queue) done ((item, result) :: results) := by
  have hcover : ∀ other, other ∈ item :: done ∨ other ∈ results.map Prod.fst →
      other ∈ done ∨ other ∈ ((item, result) :: results).map Prod.fst := by
    intro other hother
    rw [List.map_cons, List.mem_cons]
    rcases hother with hother | hother
    · exact (List.mem_cons.mp hother).elim (fun heq ↦ .inr (.inl heq)) .inl
    · exact .inr (.inr hother)
  refine ⟨?_, ?_, ?_, ?_, ?_⟩
  · rw [List.map_cons, List.nodup_cons]
    exact ⟨fun hmem ↦ h.fresh item hmem List.mem_cons_self, h.nodup⟩
  · rw [List.map_cons, List.forall_mem_cons]
    exact ⟨hdone, fun other hother hmem ↦ h.fresh other hother (List.mem_cons_of_mem item hmem)⟩
  · intro other hother
    rcases List.mem_cons.mp hother with rfl | hqueue
    · exact .inr List.mem_cons_self
    · exact hcover other (h.covers other (List.mem_append_left _ hqueue))
  · intro other found hfound
    rcases List.mem_cons.mp hfound with heq | hfound
    · obtain ⟨rfl, rfl⟩ := Prod.mk.inj heq
      exact ⟨further, hvisit, fun next hnext ↦
        hcover next (h.covers next (List.mem_append_right _ hnext))⟩
    · obtain ⟨next, hnext, hclosed⟩ := h.visited other found hfound
      exact ⟨next, hnext, fun n hn ↦ hcover n (hclosed n hn)⟩
  · rw [List.map_cons, List.forall_mem_cons]
    exact ⟨.of_mem List.mem_cons_self, fun other hother ↦ (h.reached other hother).of_append hvisit⟩

/-- The items that have been visited are those that are reached. -/
theorem Complete.mem_iff {queue : List α} {results : List (α × β)}
    (h : Complete visit queue [] results) (item : α) :
    item ∈ results.map Prod.fst ↔ Reached visit queue item := by
  constructor
  · exact h.reached item
  · rintro ⟨root, hroot, hpath⟩
    induction hpath with
    | refl => exact (h.covers root hroot).resolve_left List.not_mem_nil
    | tail _ hasks ih =>
      obtain ⟨result, further, hvisit, hnext⟩ := hasks
      obtain ⟨⟨_, found⟩, hfound, rfl⟩ := List.mem_map.mp ih
      obtain ⟨further', hvisit', hclosed⟩ := h.visited _ _ hfound
      obtain ⟨-, rfl⟩ := Prod.mk.inj (Except.ok.inj (hvisit.symm.trans hvisit'))
      exact (hclosed _ hnext).resolve_left List.not_mem_nil

/-- How many items a visit asks for. -/
def demand (visit : α → Except ε (β × List α)) (item : α) : ℕ :=
  match visit item with
  | .ok visited => visited.2.length
  | .error _ => 0

end

variable [DecidableEq α]

/-- The results in the order of the visits; the loop is cut off after as many turns as given. -/
def run (visit : α → Except ε (β × List α)) (cutOff : ε) :
    ℕ → List α → List α → Except ε (List (α × β))
  | _, [], _ => .ok []
  | 0, _ :: _, _ => .error cutOff
  | turns + 1, item :: queue, done =>
    if item ∈ done then run visit cutOff turns queue done
    else do
      let visited ← visit item
      let results ← run visit cutOff turns (queue ++ visited.2) (item :: done)
      .ok ((item, visited.1) :: results)

/-- The result of an item that has been visited once. -/
theorem lookup_of_mem {results : List (α × β)} (hnodup : (results.map Prod.fst).Nodup) {item : α}
    {result : β} (h : (item, result) ∈ results) : results.lookup item = some result := by
  obtain ⟨before, behind, rfl⟩ := List.append_of_mem h
  refine List.lookup_eq_some_iff.mpr ⟨before, behind, rfl, fun other hother ↦ ?_⟩
  rw [List.map_append, List.map_cons] at hnodup
  have hne := (List.nodup_append.mp hnodup).2.2 other.1 (List.mem_map_of_mem hother) item
    List.mem_cons_self
  simpa using hne.symm

section

variable {visit : α → Except ε (β × List α)} {cutOff : ε}

theorem complete_of_run {turns : ℕ} {queue done : List α} {results : List (α × β)}
    (h : run visit cutOff turns queue done = .ok results) : Complete visit queue done results := by
  induction turns generalizing queue done results with
  | zero =>
    cases queue with
    | nil =>
      obtain rfl := Except.ok.inj h
      exact .nil done
    | cons item queue => cases h
  | succ turns ih =>
    cases queue with
    | nil =>
      obtain rfl := Except.ok.inj h
      exact .nil done
    | cons item queue =>
      rw [run] at h
      split at h
      · next hdone => exact (ih h).skip hdone
      · next hdone =>
        obtain ⟨⟨result, further⟩, hvisit, h⟩ := bind_eq_ok.mp h
        obtain ⟨rest, hrest, h⟩ := bind_eq_ok.mp h
        obtain rfl := Except.ok.inj h
        exact (ih hrest).turn hdone hvisit

/-! ## The loop comes to its end -/

theorem sum_sdiff_cons (items : Finset α) {done : List α} {item : α} (hitem : item ∈ items)
    (hdone : item ∉ done) (f : α → ℕ) :
    ∑ other ∈ items \ done.toFinset, f other =
      f item + ∑ other ∈ items \ (item :: done).toFinset, f other := by
  have hmem : item ∈ items \ done.toFinset := by simp [hitem, hdone]
  rw [← Finset.add_sum_erase _ f hmem]
  congr 2
  ext other
  simp only [Finset.mem_erase, Finset.mem_sdiff, List.mem_toFinset, List.mem_cons, not_or]
  tauto

/-- Where finitely many items can be visited and ask for none but one another, the loop ends. -/
theorem exists_run {items : Finset α}
    (hclosed : ∀ item ∈ items, ∃ result further, visit item = .ok (result, further) ∧
      ∀ next ∈ further, next ∈ items) (turns : ℕ) {queue done : List α}
    (hqueue : ∀ item ∈ queue, item ∈ items)
    (hturns : queue.length + ∑ item ∈ items \ done.toFinset, demand visit item ≤ turns) :
    ∃ results, run visit cutOff turns queue done = .ok results := by
  induction turns generalizing queue done with
  | zero =>
    obtain rfl : queue = [] := List.eq_nil_of_length_eq_zero (by omega)
    exact ⟨[], rfl⟩
  | succ turns ih =>
    cases queue with
    | nil => exact ⟨[], rfl⟩
    | cons item queue =>
      rw [List.forall_mem_cons] at hqueue
      rw [List.length_cons] at hturns
      rw [run]
      split
      · exact ih hqueue.2 (by omega)
      · next hdone =>
        obtain ⟨result, further, hvisit, hnext⟩ := hclosed item hqueue.1
        have hdemand : demand visit item = further.length := by rw [demand, hvisit]
        rw [sum_sdiff_cons items hqueue.1 hdone, hdemand] at hturns
        have hbound : (queue ++ further).length +
            ∑ item ∈ items \ (item :: done).toFinset, demand visit item ≤ turns := by
          rw [List.length_append]
          omega
        obtain ⟨results, hresults⟩ := ih (List.forall_mem_append.mpr ⟨hqueue.2, hnext⟩) hbound
        exact ⟨(item, result) :: results, bind_eq_ok.mpr ⟨_, hvisit, bind_eq_ok.mpr ⟨_, hresults, rfl⟩⟩⟩

/-- The loop ends after enough turns exactly if every item that is reached can be visited, where
these are finitely many. -/
theorem exists_run_iff {queue : List α} (hfinite : {item | Reached visit queue item}.Finite) :
    (∃ turns results, run visit cutOff turns queue [] = .ok results) ↔
      ∀ item, Reached visit queue item → ∃ visited, visit item = .ok visited := by
  constructor
  · rintro ⟨turns, results, hrun⟩ item hreached
    have hcomplete := complete_of_run hrun
    obtain ⟨⟨_, result⟩, hmem, rfl⟩ := List.mem_map.mp ((hcomplete.mem_iff item).mpr hreached)
    obtain ⟨further, hvisit, -⟩ := hcomplete.visited _ _ hmem
    exact ⟨_, hvisit⟩
  · intro hvisits
    have hclosed : ∀ item ∈ hfinite.toFinset, ∃ result further, visit item = .ok (result, further) ∧
        ∀ next ∈ further, next ∈ hfinite.toFinset := by
      intro item hitem
      have hreached : Reached visit queue item := hfinite.mem_toFinset.mp hitem
      obtain ⟨⟨result, further⟩, hvisit⟩ := hvisits item hreached
      exact ⟨result, further, hvisit, fun next hnext ↦
        hfinite.mem_toFinset.mpr (hreached.tail ⟨result, further, hvisit, hnext⟩)⟩
    obtain ⟨results, hresults⟩ := exists_run hclosed _
      (fun item hitem ↦ hfinite.mem_toFinset.mpr (Reached.of_mem hitem)) (le_refl _)
    exact ⟨_, results, hresults⟩

end

end EbpfPlayground.Worklist
