import EbpfPlayground.Foundation.CString
import Mathlib.Data.Nat.Digits.Defs

/-!
# Numbers as hexadecimal digits and as bytes

A number is written with a fixed number of hexadecimal digits, two to a byte, or stored as a fixed
number of bytes with the least significant first.
-/

namespace EbpfPlayground.Hex

/-- The value of a hexadecimal digit. -/
def digitValue (c : Char) : Option ℕ :=
  if c.isDigit then some (c.toNat - 48)
  else if 'a' ≤ c ∧ c ≤ 'f' then some (c.toNat - 87)
  else if 'A' ≤ c ∧ c ≤ 'F' then some (c.toNat - 55) else none

/-- The number that a list of hexadecimal digits writes after the digits of `acc`. -/
def valueFrom (acc : ℕ) : Text → Option ℕ
  | [] => some acc
  | c :: digits => (digitValue c).bind fun digit ↦ valueFrom (16 * acc + digit) digits

def isDigit (c : Char) : Bool := (digitValue c).isSome

/-- The number that a list of hexadecimal digits writes, zero without digits. -/
def valueOf (digits : Text) : ℕ := (valueFrom 0 digits).getD 0

/-- `strtoul(.., 16)` on a text that is all digits; `none` where something is left over. -/
def strtoul16 (text : Text) : Option ℕ := if text = [] then none else valueFrom 0 text

/-- Exactly `width` digits. -/
def digits : ℕ → ℕ → Text
  | 0, _ => []
  | width + 1, n => digits width (n / 16) ++ [Nat.digitChar (n % 16)]

/-- `printf "%0<width>x"`: at least `width` digits. -/
def printfHex (width n : ℕ) : Text :=
  List.replicate (width - (Nat.toDigits 16 n).length) '0' ++ Nat.toDigits 16 n

/-- The two digits of a byte. -/
def byteDigits (n : ℕ) : Text := [Nat.digitChar (n / 16 % 16), Nat.digitChar (n % 16)]

/-- The digits of each of `size` bytes, least significant first. -/
def leDigits : ℕ → ℕ → List Text
  | 0, _ => []
  | size + 1, n => byteDigits n :: leDigits size (n / 256)

/-- The lowest `size` bytes, least significant first. -/
def leBytes : ℕ → ℕ → List UInt8
  | 0, _ => []
  | size + 1, n => UInt8.ofNat n :: leBytes size (n / 256)

/-- The number that these bytes hold, least significant first. -/
def ofLeBytes (bytes : List UInt8) : ℕ := Nat.ofDigits 256 (bytes.map UInt8.toNat)

theorem digitValue_digitChar : ∀ n < 16, digitValue (Nat.digitChar n) = some n := by decide

theorem digits_zero (width : ℕ) : digits width 0 = List.replicate width '0' := by
  induction width with
  | zero => rfl
  | succ width ih =>
    calc
      digits (width + 1) 0 = digits width 0 ++ ['0'] := rfl
      _ = List.replicate width '0' ++ ['0'] := by rw [ih]
      _ = List.replicate (width + 1) '0' := List.replicate_succ'.symm

/-- A number that fits is written with exactly `width` digits. -/
theorem printfHex_eq {width n : ℕ} (hwidth : 0 < width) (hn : n < 16 ^ width) :
    printfHex width n = digits width n := by
  induction width generalizing n with
  | zero => exact absurd hwidth (lt_irrefl 0)
  | succ width ih =>
    by_cases hsmall : n < 16
    · have hzero : n / 16 = 0 := Nat.div_eq_of_lt hsmall
      rw [printfHex, Nat.toDigits_of_lt_base hsmall, digits, hzero, digits_zero,
        Nat.mod_eq_of_lt hsmall]
      rfl
    · have hlarge : 16 ≤ n := Nat.le_of_not_lt hsmall
      have hpos : 0 < width := by
        apply Nat.pos_of_ne_zero
        rintro rfl
        omega
      have hdiv : n / 16 < 16 ^ width := by
        apply Nat.div_lt_of_lt_mul
        rwa [← pow_succ']
      have hshort := ih hpos hdiv
      rw [printfHex] at hshort
      rw [printfHex, Nat.toDigits_of_base_le (by decide) hlarge, digits, ← hshort,
        List.length_append, List.length_singleton, Nat.add_sub_add_right, List.append_assoc]

theorem printfHex_ne_nil (width n : ℕ) : printfHex width n ≠ [] :=
  List.append_ne_nil_of_right_ne_nil _ Nat.toDigits_ne_nil

/-- A number that does not fit is written with more than `width` digits. -/
theorem lt_length_printfHex {width n : ℕ} (hwidth : 0 < width) (hn : 16 ^ width ≤ n) :
    width < (printfHex width n).length := by
  have hdigits : width < (Nat.toDigits 16 n).length := by
    rw [← Nat.not_le, Nat.length_toDigits_le_iff (by decide) hwidth]
    exact Nat.not_lt.mpr hn
  rw [printfHex, List.length_append]
  exact Nat.lt_add_left _ hdigits

theorem isSome_digitValue_of_mem_toDigits (n : ℕ) :
    ∀ c ∈ Nat.toDigits 16 n, (digitValue c).isSome := by
  have hdigit : ∀ m < 16, (digitValue (Nat.digitChar m)).isSome := by decide
  induction n using Nat.strongRecOn with
  | ind n ih =>
    intro c hc
    by_cases hsmall : n < 16
    · rw [Nat.toDigits_of_lt_base hsmall, List.mem_singleton] at hc
      rw [hc]
      exact hdigit n hsmall
    · have hlarge : 16 ≤ n := Nat.le_of_not_lt hsmall
      rw [Nat.toDigits_of_base_le (by decide) hlarge, List.mem_append, List.mem_singleton] at hc
      rcases hc with hfront | rfl
      · exact ih (n / 16) (Nat.div_lt_self (by omega) (by decide)) c hfront
      · exact hdigit _ (Nat.mod_lt _ (by decide))

theorem isSome_digitValue_of_mem_printfHex {width n : ℕ} :
    ∀ c ∈ printfHex width n, (digitValue c).isSome := by
  intro c hc
  rcases List.mem_append.mp hc with hzero | hdigit
  · rw [List.eq_of_mem_replicate hzero]
    decide
  · exact isSome_digitValue_of_mem_toDigits n c hdigit

/-- Two digits more are one byte more. -/
theorem digits_add_two (width n : ℕ) :
    digits (width + 2) n = digits width (n / 256) ++ byteDigits n := by
  rw [digits, digits, byteDigits, Nat.div_div_eq_div_mul, List.append_assoc]
  rfl

theorem length_leDigits (size n : ℕ) : (leDigits size n).length = size := by
  induction size generalizing n with
  | zero => rfl
  | succ size ih => rw [leDigits, List.length_cons, ih]

/-- The digits, two by two and reversed, are those of the bytes. -/
theorem digits_two_mul (size n : ℕ) : digits (2 * size) n = (leDigits size n).reverse.flatten := by
  induction size generalizing n with
  | zero => rfl
  | succ size ih =>
    calc
      digits (2 * (size + 1)) n = digits (2 * size) (n / 256) ++ byteDigits n := digits_add_two _ n
      _ = (leDigits size (n / 256)).reverse.flatten ++ byteDigits n := by rw [ih]
      _ = (leDigits (size + 1) n).reverse.flatten := by simp [leDigits]

theorem strtoul16_byteDigits (n : ℕ) : strtoul16 (byteDigits n) = some (n % 256) := by
  have hhigh := digitValue_digitChar (n / 16 % 16) (Nat.mod_lt _ (by decide))
  have hlow := digitValue_digitChar (n % 16) (Nat.mod_lt _ (by decide))
  simp only [strtoul16, byteDigits, valueFrom, hhigh, hlow, Option.bind_some, reduceCtorEq,
    if_false, Option.some.injEq]
  omega

/-- The digits of the bytes hold the number, each byte at its place. -/
theorem ofDigits_leDigits {size n : ℕ} (h : n < 256 ^ size) :
    Nat.ofDigits 256 ((leDigits size n).map fun word ↦ (strtoul16 word).getD 0) = n := by
  induction size generalizing n with
  | zero =>
    rw [pow_zero] at h
    rw [Nat.lt_one_iff.mp h]
    rfl
  | succ size ih =>
    have hdiv : n / 256 < 256 ^ size := by
      apply Nat.div_lt_of_lt_mul
      rwa [← pow_succ']
    rw [leDigits, List.map_cons, Nat.ofDigits_cons, ih hdiv, strtoul16_byteDigits]
    exact Nat.mod_add_div n 256

/-- Reading the digits of each byte gives the bytes. -/
theorem mapM_strtoul16_leDigits (size n : ℕ) :
    (leDigits size n).mapM (fun word ↦ (strtoul16 word).map UInt8.ofNat) = some (leBytes size n) := by
  induction size generalizing n with
  | zero => rfl
  | succ size ih =>
    have hbyte : UInt8.ofNat (n % 256) = UInt8.ofNat n := by
      rw [← UInt8.toNat_inj, UInt8.toNat_ofNat', UInt8.toNat_ofNat', Nat.mod_mod]
    simp [leDigits, leBytes, strtoul16_byteDigits, ih, hbyte]

theorem length_leBytes (size n : ℕ) : (leBytes size n).length = size := by
  induction size generalizing n with
  | zero => rfl
  | succ size ih => rw [leBytes, List.length_cons, ih]

/-- Storing and loading a number that fits gives the number. -/
theorem ofLeBytes_leBytes {size n : ℕ} (h : n < 256 ^ size) : ofLeBytes (leBytes size n) = n := by
  induction size generalizing n with
  | zero =>
    rw [pow_zero] at h
    rw [leBytes, Nat.lt_one_iff.mp h]
    rfl
  | succ size ih =>
    have hdiv : n / 256 < 256 ^ size := by
      apply Nat.div_lt_of_lt_mul
      rwa [← pow_succ']
    have hrest := ih hdiv
    rw [ofLeBytes] at hrest
    rw [leBytes, ofLeBytes, List.map_cons, Nat.ofDigits_cons, hrest, UInt8.toNat_ofNat']
    exact Nat.mod_add_div n 256

/-- Loading bytes and storing the number again gives the bytes. -/
theorem leBytes_ofLeBytes (bytes : List UInt8) : leBytes bytes.length (ofLeBytes bytes) = bytes := by
  induction bytes with
  | nil => rfl
  | cons byte bytes ih =>
    have hcons : ofLeBytes (byte :: bytes) = byte.toNat + 256 * ofLeBytes bytes := by
      rw [ofLeBytes, List.map_cons, Nat.ofDigits_cons]
      rfl
    have hbyte : byte.toNat < 256 := byte.toNat_lt
    have hdiv : (byte.toNat + 256 * ofLeBytes bytes) / 256 = ofLeBytes bytes := by omega
    have hhead : UInt8.ofNat (byte.toNat + 256 * ofLeBytes bytes) = byte := by
      rw [← UInt8.toNat_inj, UInt8.toNat_ofNat']
      omega
    rw [hcons, List.length_cons, leBytes, hdiv, hhead, ih]

/-- Numbers that fit have the same bytes only if they are equal. -/
theorem leBytes_inj (size : ℕ) {m n : ℕ} (hm : m < 256 ^ size) (hn : n < 256 ^ size)
    (h : leBytes size m = leBytes size n) : m = n := by
  rw [← ofLeBytes_leBytes hm, h, ofLeBytes_leBytes hn]

/-- The bytes of a number in a buffer. -/
def leBuffer (size n : ℕ) : CString.Buffer size := ⟨(leBytes size n).toArray, by simp [length_leBytes]⟩

theorem toList_leBuffer (size n : ℕ) : (leBuffer size n).toList = leBytes size n := by
  simp [leBuffer]

theorem leBuffer_inj (size : ℕ) {m n : ℕ} (hm : m < 256 ^ size) (hn : n < 256 ^ size)
    (h : leBuffer size m = leBuffer size n) : m = n := by
  apply leBytes_inj size hm hn
  rw [← toList_leBuffer, h, toList_leBuffer]

/-! ## Byte orders -/

/-- The order in which a host keeps the bytes of a word. -/
inductive ByteOrder
  | little
  | big
  deriving DecidableEq

/-- The word that a load of these bytes gives. -/
def ByteOrder.load (order : ByteOrder) (bytes : List UInt8) : ℕ :=
  match order with
  | .little => ofLeBytes bytes
  | .big => ofLeBytes bytes.reverse

/-- `__builtin_bswap32`. -/
def bswap32 (word : ℕ) : ℕ := ofLeBytes (leBytes 4 word).reverse

/-- `bpf_ntohl`. -/
def bpfNtohl (order : ByteOrder) (word : ℕ) : ℕ :=
  match order with
  | .little => bswap32 word
  | .big => word

/-- On every host the bytes of a network word are read with the most significant first. -/
theorem bpfNtohl_load (order : ByteOrder) {bytes : List UInt8} (h : bytes.length = 4) :
    bpfNtohl order (order.load bytes) = ofLeBytes bytes.reverse := by
  cases order with
  | little =>
    have hbytes := leBytes_ofLeBytes bytes
    rw [h] at hbytes
    rw [bpfNtohl, ByteOrder.load, bswap32, hbytes]
  | big => rfl

end EbpfPlayground.Hex
