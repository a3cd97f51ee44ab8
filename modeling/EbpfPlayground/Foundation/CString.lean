import EbpfPlayground.Foundation.Text

/-!
# C strings in fixed-size byte buffers

A `char` array of fixed size holds a C string: what stands before its first NUL, or the whole
array where there is none.  Writers pad with NUL bytes.
-/

namespace EbpfPlayground.CString

/-- The bytes before the first NUL. -/
def cstr (bytes : List UInt8) : List UInt8 := bytes.takeWhile (· != 0)

@[simp]
theorem cstr_nil : cstr [] = [] := rfl

theorem cstr_cons_zero (bytes : List UInt8) : cstr (0 :: bytes) = [] := rfl

theorem cstr_cons_of_ne {byte : UInt8} (h : byte ≠ 0) (bytes : List UInt8) :
    cstr (byte :: bytes) = byte :: cstr bytes := by
  simp [cstr, h]

theorem cstr_eq_self {bytes : List UInt8} (h : 0 ∉ bytes) : cstr bytes = bytes := by
  induction bytes with
  | nil => rfl
  | cons byte bytes ih =>
    simp only [List.mem_cons, not_or] at h
    rw [cstr_cons_of_ne (Ne.symm h.1), ih h.2]

theorem cstr_append_zero {bytes : List UInt8} (h : 0 ∉ bytes) (behind : List UInt8) :
    cstr (bytes ++ 0 :: behind) = bytes := by
  induction bytes with
  | nil => rfl
  | cons byte bytes ih =>
    simp only [List.mem_cons, not_or] at h
    rw [List.cons_append, cstr_cons_of_ne (Ne.symm h.1), ih h.2]

/-- NUL padding does not change the C string. -/
theorem cstr_append_zeros (bytes : List UInt8) (count : ℕ) :
    cstr (bytes ++ List.replicate count 0) = cstr bytes := by
  induction bytes with
  | nil => cases count <;> rfl
  | cons byte bytes ih =>
    by_cases h : byte = 0
    · subst h
      rfl
    · rw [List.cons_append, cstr_cons_of_ne h, cstr_cons_of_ne h, ih]

/-- Compare byte by byte up to the first NUL of either side, with a test for bytes that differ. -/
def compareBytes (differ : UInt8 → UInt8 → Bool) : List UInt8 → List UInt8 → Bool
  | b :: first, c :: second =>
    if differ b c then false
    else if b = 0 ∨ c = 0 then true
    else compareBytes differ first second
  | _, _ => true

/-- With a test that tells different bytes apart, and zero from no zero, the comparison finds equal C
strings without a byte that differs from itself. -/
theorem compareBytes_eq_true {differ : UInt8 → UInt8 → Bool} (hzero : differ 0 0 = false)
    (hsound : ∀ b c, differ b c = false → b = c) {first second : List UInt8}
    (hlength : first.length = second.length) :
    compareBytes differ first second = true ↔
      cstr first = cstr second ∧ ∀ byte ∈ cstr first, differ byte byte = false := by
  induction first generalizing second with
  | nil =>
    obtain rfl : second = [] := List.length_eq_zero_iff.mp hlength.symm
    simp [compareBytes]
  | cons b first ih =>
    obtain ⟨c, second, rfl⟩ := List.exists_cons_of_length_eq_add_one hlength.symm
    by_cases hne : b = c
    · subst hne
      by_cases hb : b = 0
      · subst hb
        simp [compareBytes, hzero, cstr_cons_zero]
      · have hrest := ih (Nat.succ.inj hlength)
        rw [compareBytes, cstr_cons_of_ne hb, cstr_cons_of_ne hb, List.forall_mem_cons]
        cases hself : differ b b with
        | true => simp
        | false => simpa [hb] using hrest
    · have hdiffer : differ b c = true := by
        rw [← Bool.not_eq_false]
        exact fun h ↦ hne (hsound b c h)
      rw [compareBytes, if_pos hdiffer]
      refine iff_of_false Bool.false_ne_true ?_
      rintro ⟨heq, -⟩
      by_cases hb : b = 0
      · subst hb
        rw [cstr_cons_zero, cstr_cons_of_ne (Ne.symm hne)] at heq
        cases heq
      · by_cases hc : c = 0
        · subst hc
          rw [cstr_cons_zero, cstr_cons_of_ne hb] at heq
          cases heq
        · rw [cstr_cons_of_ne hb, cstr_cons_of_ne hc] at heq
          exact hne (List.cons.inj heq).1

/-- A byte array of fixed size. -/
abbrev Buffer (size : ℕ) := Vector UInt8 size

/-- Copy the bytes to the front of a zeroed buffer; `none` where they do not fit. -/
def ofBytes (size : ℕ) (bytes : List UInt8) : Option (Buffer size) :=
  if h : bytes.length ≤ size then
    some ⟨(bytes ++ List.replicate (size - bytes.length) 0).toArray, by simp [h]⟩
  else none

theorem ofBytes_eq_some {size : ℕ} {bytes : List UInt8} {buffer : Buffer size} :
    ofBytes size bytes = some buffer ↔
      bytes.length ≤ size ∧
        buffer.toList = bytes ++ List.replicate (size - bytes.length) 0 := by
  unfold ofBytes
  split
  · next h =>
    constructor
    · intro hsome
      obtain rfl := Option.some.inj hsome
      exact ⟨h, by simp⟩
    · rintro ⟨-, hlist⟩
      refine congrArg some (Vector.toList_inj.mp ?_)
      rw [hlist]
      simp
  · next h => simp [h]

theorem isSome_ofBytes {size : ℕ} {bytes : List UInt8} :
    (ofBytes size bytes).isSome ↔ bytes.length ≤ size := by
  unfold ofBytes
  split <;> simp_all

theorem cstr_ofBytes {size : ℕ} {bytes : List UInt8} {buffer : Buffer size}
    (h : ofBytes size bytes = some buffer) : cstr buffer.toList = cstr bytes := by
  rw [(ofBytes_eq_some.mp h).2, cstr_append_zeros]

end EbpfPlayground.CString
