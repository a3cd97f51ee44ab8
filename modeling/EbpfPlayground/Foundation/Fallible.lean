import Mathlib.Data.List.Basic

/-!
# Computations that fail or run out of fuel

A recursive function may be cut off after as many calls as its fuel says.  With more fuel it does the
same, unless it was cut off.
-/

namespace EbpfPlayground.Fallible

variable {ε α β : Type}

/-- `ensure!`. -/
def ensure (condition : Prop) [Decidable condition] (error : ε) : Except ε Unit :=
  if condition then .ok () else .error error

@[simp]
theorem ensure_eq_ok {condition : Prop} [Decidable condition] {error : ε} {u : Unit} :
    ensure condition error = .ok u ↔ condition := by
  unfold ensure
  split <;> simp_all

theorem bind_eq_ok {x : Except ε α} {f : α → Except ε β} {b : β} :
    x >>= f = .ok b ↔ ∃ a, x = .ok a ∧ f a = .ok b := by
  cases x with
  | error e => simp [bind, Except.bind]
  | ok a => simp [bind, Except.bind]

@[simp]
theorem ok_bind (a : α) (f : α → Except ε β) : Except.ok a >>= f = f a := rfl

@[simp]
theorem error_bind (e : ε) (f : α → Except ε β) : Except.error e >>= f = .error e := rfl

theorem foldlM_concat_eq_ok {f : β → α → Except ε β} {items : List α} {item : α} {init b : β} :
    (items ++ [item]).foldlM f init = .ok b ↔
      ∃ mid, items.foldlM f init = .ok mid ∧ f mid item = .ok b := by
  rw [List.foldlM_append, bind_eq_ok]
  simp

/-- What every turn of a loop that goes through keeps holds after it, of all items. -/
theorem foldlM_induction {f : β → α → Except ε β} (P : List α → β → Prop) {items : List α} {init b : β}
    (h : items.foldlM f init = .ok b) (hinit : P [] init)
    (hstep : ∀ done item mid next, item ∈ items → P done mid → f mid item = .ok next →
      P (done ++ [item]) next) : P items b := by
  suffices hgen : ∀ rest done mid, (∀ item ∈ rest, item ∈ items) → P done mid →
      rest.foldlM f mid = .ok b → P (done ++ rest) b from hgen items [] init (fun _ ↦ id) hinit h
  intro rest
  induction rest with
  | nil =>
    intro done mid _ hP hrest
    obtain rfl := Except.ok.inj hrest
    rwa [List.append_nil]
  | cons item rest ih =>
    intro done mid hmem hP hrest
    rw [List.foldlM_cons] at hrest
    obtain ⟨next, hitem, hrest⟩ := bind_eq_ok.mp hrest
    rw [List.forall_mem_cons] at hmem
    rw [List.append_cons]
    exact ih _ _ hmem.2 (hstep done item mid next hmem.1 hP hitem) hrest

/-- The second computation does what the first one does, unless the first one is cut off. -/
def Extends (cutOff : ε) (x y : Except ε α) : Prop := x = .error cutOff ∨ x = y

namespace Extends

variable {cutOff : ε}

theorem refl (x : Except ε α) : Extends cutOff x x := .inr rfl

theorem ofCutOff (y : Except ε α) : Extends cutOff (.error cutOff) y := .inl rfl

theorem eq_ok {x y : Except ε α} (h : Extends cutOff x y) {a : α} (hx : x = .ok a) : y = .ok a := by
  rcases h with h | rfl
  · cases hx.symm.trans h
  · exact hx

theorem trans {x y z : Except ε α} (hxy : Extends cutOff x y) (hyz : Extends cutOff y z) :
    Extends cutOff x z := by
  rcases hxy with hxy | rfl
  exacts [.inl hxy, hyz]

theorem bind {x y : Except ε α} {f g : α → Except ε β} (hxy : Extends cutOff x y)
    (hfg : ∀ a, Extends cutOff (f a) (g a)) : Extends cutOff (x >>= f) (y >>= g) := by
  rcases hxy with rfl | rfl
  · exact ofCutOff _
  · cases x with
    | error e => exact refl _
    | ok a => exact hfg a

/-- The computations begin alike. -/
theorem bind_right (x : Except ε α) {f g : α → Except ε β} (hfg : ∀ a, Extends cutOff (f a) (g a)) :
    Extends cutOff (x >>= f) (x >>= g) := (refl x).bind hfg

theorem foldlM {f g : β → α → Except ε β} (hfg : ∀ b a, Extends cutOff (f b a) (g b a))
    (items : List α) (init : β) : Extends cutOff (items.foldlM f init) (items.foldlM g init) := by
  induction items generalizing init with
  | nil => exact refl _
  | cons a items ih =>
    rw [List.foldlM_cons, List.foldlM_cons]
    exact (hfg init a).bind ih

section

variable {x : ℕ → Except ε α} (hstep : ∀ fuel, Extends cutOff (x fuel) (x (fuel + 1)))
include hstep

/-- Where each step extends the one before, every later member does. -/
theorem of_le {fuel more : ℕ} (h : fuel ≤ more) : Extends cutOff (x fuel) (x more) := by
  induction h with
  | refl => exact refl _
  | step _ ih => exact ih.trans (hstep _)

/-- Once a member returns, every other one returns the same or is cut off. -/
theorem cutOff_or_eq {fuel : ℕ} {a : α} (h : x fuel = .ok a) (other : ℕ) :
    x other = .error cutOff ∨ x other = .ok a := by
  rcases Nat.le_total fuel other with hle | hle
  · exact .inr ((of_le hstep hle).eq_ok h)
  · rcases of_le hstep hle with hcut | heq
    exacts [.inl hcut, .inr (heq.trans h)]

theorem unique {fuel other : ℕ} {a b : α} (ha : x fuel = .ok a) (hb : x other = .ok b) : a = b := by
  rcases cutOff_or_eq hstep ha other with hcut | heq
  · cases hb.symm.trans hcut
  · exact Except.ok.inj (heq.symm.trans hb)

end

end Extends

end EbpfPlayground.Fallible
