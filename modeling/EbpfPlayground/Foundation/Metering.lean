import Mathlib.Algebra.BigOperators.Group.List.Basic
import Mathlib.Algebra.GroupWithZero.Nat
import Mathlib.Algebra.Order.BigOperators.Group.List
import Mathlib.Data.List.Basic

/-!
# Meters that charge items to accounts

A meter charges an item to one account, or to none.  A bill is the list of the amounts charged to
one account; two meters agree on a sequence when every account has as many charges and the same
total under both.  A meter that never charges more than another one agrees with it only if it
charges every item of the sequence alike.
-/

namespace EbpfPlayground.Metering

variable {Item Account : Type} [DecidableEq Account]

/-- The amounts charged to an account, in order. -/
def bill (meter : Item → Option (Account × ℕ)) (account : Account) (items : List Item) : List ℕ :=
  ((items.filterMap meter).filter (·.1 = account)).map Prod.snd

/-- Every account has as many charges and the same total. -/
def Agree (meter meter' : Item → Option (Account × ℕ)) (items : List Item) : Prop :=
  ∀ account, (bill meter account items).length = (bill meter' account items).length ∧
    (bill meter account items).sum = (bill meter' account items).sum

/-- A charge of the first meter is one of the second to the same account, of no smaller amount. -/
def Within (meter meter' : Item → Option (Account × ℕ)) (item : Item) : Prop :=
  ∀ account amount, meter item = some (account, amount) →
    ∃ amount', amount ≤ amount' ∧ meter' item = some (account, amount')

variable {meter meter' : Item → Option (Account × ℕ)}

theorem bill_cons_of_none {item : Item} (h : meter item = none) (account : Account)
    (items : List Item) : bill meter account (item :: items) = bill meter account items := by
  simp only [bill, List.filterMap_cons, h]

theorem bill_cons_of_some {item : Item} {charged : Account} {amount : ℕ}
    (h : meter item = some (charged, amount)) (account : Account) (items : List Item) :
    bill meter account (item :: items) =
      if charged = account then amount :: bill meter account items
      else bill meter account items := by
  simp only [bill, List.filterMap_cons, h, List.filter_cons, decide_eq_true_eq]
  split <;> rfl

/-- A meter within another one has no more charges and no larger total. -/
theorem bill_le_of_within {items : List Item} (h : ∀ item ∈ items, Within meter meter' item)
    (account : Account) :
    (bill meter account items).length ≤ (bill meter' account items).length ∧
      (bill meter account items).sum ≤ (bill meter' account items).sum := by
  induction items with
  | nil => exact ⟨le_refl _, le_refl _⟩
  | cons item items ih =>
    rw [List.forall_mem_cons] at h
    have hrest := ih h.2
    cases hmeter : meter item with
    | none =>
      rw [bill_cons_of_none hmeter]
      cases hmeter' : meter' item with
      | none =>
        rw [bill_cons_of_none hmeter']
        exact hrest
      | some charge' =>
        rw [bill_cons_of_some hmeter']
        split
        · exact ⟨hrest.1.trans (Nat.le_succ _), hrest.2.trans (Nat.le_add_left _ _)⟩
        · exact hrest
    | some charge =>
      obtain ⟨amount', hle, hmeter'⟩ := h.1 charge.1 charge.2 hmeter
      rw [bill_cons_of_some hmeter, bill_cons_of_some hmeter']
      split
      · exact ⟨Nat.succ_le_succ hrest.1, Nat.add_le_add hle hrest.2⟩
      · exact hrest

/-- A charge that one meter makes and the other misses, or makes for less, is never made up for. -/
theorem eq_of_agree {items : List Item} (hwithin : ∀ item ∈ items, Within meter meter' item)
    (hagree : Agree meter meter' items) : ∀ item ∈ items, meter item = meter' item := by
  induction items with
  | nil =>
    intro item hitem
    cases hitem
  | cons item items ih =>
    rw [List.forall_mem_cons] at hwithin
    have hle := bill_le_of_within hwithin.2
    have hhead : meter item = meter' item := by
      cases hmeter' : meter' item with
      | none =>
        cases hmeter : meter item with
        | none => rfl
        | some charge =>
          obtain ⟨amount', -, hsome⟩ := hwithin.1 charge.1 charge.2 hmeter
          rw [hmeter'] at hsome
          cases hsome
      | some charge' =>
        have haccount := hagree charge'.1
        have hrest := hle charge'.1
        rw [bill_cons_of_some hmeter', if_pos rfl, List.length_cons, List.sum_cons] at haccount
        cases hmeter : meter item with
        | none =>
          rw [bill_cons_of_none hmeter] at haccount
          omega
        | some charge =>
          obtain ⟨amount', hamount, hsome⟩ := hwithin.1 charge.1 charge.2 hmeter
          rw [hmeter'] at hsome
          have hcharge : charge' = (charge.1, amount') := Option.some.inj hsome
          rw [hcharge] at haccount hrest ⊢
          rw [bill_cons_of_some hmeter, if_pos rfl, List.length_cons, List.sum_cons] at haccount
          have heq : charge.2 = amount' := by
            dsimp only at haccount hrest
            omega
          rw [← heq]
    have htail : Agree meter meter' items := by
      intro account
      have haccount := hagree account
      cases hmeter : meter item with
      | none =>
        rw [bill_cons_of_none hmeter, bill_cons_of_none (hhead.symm.trans hmeter)] at haccount
        exact haccount
      | some charge =>
        rw [bill_cons_of_some hmeter, bill_cons_of_some (hhead.symm.trans hmeter)] at haccount
        split at haccount
        · simpa using haccount
        · exact haccount
    rw [List.forall_mem_cons]
    exact ⟨hhead, ih hwithin.2 htail⟩

/-- A meter within another one agrees with it exactly when it charges every item alike. -/
theorem agree_iff {items : List Item} (hwithin : ∀ item ∈ items, Within meter meter' item) :
    Agree meter meter' items ↔ ∀ item ∈ items, meter item = meter' item := by
  constructor
  · exact eq_of_agree hwithin
  · intro heq account
    have hbill : bill meter account items = bill meter' account items := by
      rw [bill, bill, List.filterMap_congr heq]
    rw [hbill]
    exact ⟨rfl, rfl⟩

end EbpfPlayground.Metering
