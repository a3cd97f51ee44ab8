import EbpfPlayground.Foundation.JsonText
import EbpfPlayground.Foundation.Shell

/-!
# Names of letters, digits, dashes and dots

Namespaces, pods, containers and most hostnames have such names.  A shell takes one as one field, and
JSON writes it between quotes as it is.
-/

namespace EbpfPlayground

structure IsName (text : Text) : Prop where
  ne_nil : text ≠ []
  chars : ∀ c ∈ text, c.isAlphanum ∨ c = '-' ∨ c = '.'

instance (text : Text) : Decidable (IsName text) :=
  decidable_of_iff (text ≠ [] ∧ ∀ c ∈ text, c.isAlphanum ∨ c = '-' ∨ c = '.')
    ⟨fun h ↦ ⟨h.1, h.2⟩, fun h ↦ ⟨h.ne_nil, h.chars⟩⟩

namespace IsName

variable {text : Text} (h : IsName text)
include h

/-- A character that stands in no name. -/
theorem notMem {c : Char} (hc : ¬ (c.isAlphanum ∨ c = '-' ∨ c = '.')) : c ∉ text :=
  fun hmem ↦ hc (h.chars c hmem)

theorem plain : Shell.Plain text := by
  refine ⟨h.ne_nil, fun c hc ↦ ?_⟩
  rw [← Bool.not_eq_true]
  intro hblank
  simp only [Shell.isBlank, Bool.or_eq_true, beq_iff_eq] at hblank
  rcases hblank with (rfl | rfl) | rfl <;> exact h.notMem (by decide) hc

theorem printable : Json.Printable text := by
  intro c hc
  by_contra hsmall
  have hcontrol : ∀ n < 0x20, ¬ ((Char.ofNat n).isAlphanum ∨ Char.ofNat n = '-' ∨
      Char.ofNat n = '.') := by
    decide
  apply h.notMem (hcontrol c.toNat (Nat.lt_of_not_le hsmall))
  rwa [Char.ofNat_toNat]

theorem escaped_eq : Json.escaped text = text :=
  Json.escaped_eq_self (h.notMem (by decide)) (h.notMem (by decide))

theorem unexpanded : Shell.Unexpanded text where
  toPlain := h.plain
  no_pattern := by
    intro c hc
    refine ⟨?_, ?_, ?_, ?_⟩
    all_goals
      rintro rfl
      exact h.notMem (by decide) hc

/-- A name between quotes is not expanded either. -/
theorem unexpanded_quote : Shell.Unexpanded (Json.quote text) := by
  have hmem : ∀ c ∈ Json.quote text, c = '"' ∨ c ∈ text := by
    intro c hc
    rw [Json.quote, h.escaped_eq] at hc
    simpa [or_comm, or_left_comm] using hc
  refine ⟨⟨List.cons_ne_nil _ _, fun c hc ↦ ?_⟩, fun c hc ↦ ?_⟩
  · rcases hmem c hc with rfl | htext
    · decide
    · exact h.plain.no_blank c htext
  · rcases hmem c hc with rfl | htext
    · decide
    · exact h.unexpanded.no_pattern c htext

end IsName

theorem isName_decimal (n : ℕ) : IsName (Text.decimal n) where
  ne_nil := Text.decimal_ne_nil n
  chars := fun c hc ↦ .inl (by simp [Char.isAlphanum, Text.isDigit_of_mem_decimal hc])

end EbpfPlayground
