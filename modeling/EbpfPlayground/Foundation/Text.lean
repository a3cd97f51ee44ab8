import Mathlib.Data.UInt

/-!
# Unicode text and its bytes

A text is a list of Unicode scalar values, which is what a Rust `String` holds.  Its bytes are the
UTF-8 encoding of the core library.  The string functions below follow the documented behaviour of
Rust's standard library.
-/

namespace EbpfPlayground

abbrev Text := List Char

/-- What holds of every character of a text is decided along the text.  The first instance that is
found otherwise may go through all characters there are. -/
instance (text : Text) (p : Char → Prop) [DecidablePred p] : Decidable (∀ c ∈ text, p c) :=
  List.decidableBAll p text

namespace Text

/-- `str::as_bytes`. -/
def asBytes (text : Text) : List UInt8 := text.flatMap String.utf8EncodeChar

/-- `str::from_utf8`; `none` stands for its `Utf8Error`. -/
def fromUtf8 (bytes : List UInt8) : Option Text :=
  (String.fromUTF8? bytes.toByteArray).map String.toList

theorem isSome_fromUtf8 (bytes : List UInt8) :
    (fromUtf8 bytes).isSome ↔ ∃ text, asBytes text = bytes := by
  simp only [fromUtf8, Option.isSome_map, String.fromUTF8?]
  constructor
  · intro h
    split at h
    · next hvalid =>
      obtain ⟨text, htext⟩ := hvalid
      refine ⟨text, ?_⟩
      have hdata := congrArg (fun array ↦ array.data.toList) htext
      simpa [List.utf8Encode, asBytes] using hdata.symm
    · cases h
  · rintro ⟨text, rfl⟩
    have hvalid : (asBytes text).toByteArray.IsValidUTF8 := ⟨text, rfl⟩
    rw [dif_pos hvalid]
    rfl

/-- Reading back the bytes of a text gives the text. -/
theorem fromUtf8_asBytes (text : Text) : fromUtf8 (asBytes text) = some text := by
  have hvalid : (asBytes text).toByteArray.IsValidUTF8 := ⟨text, rfl⟩
  have hstring : String.fromUTF8 (asBytes text).toByteArray hvalid = String.ofList text := rfl
  simp only [fromUtf8, String.fromUTF8?, dif_pos hvalid, Option.map_some, hstring,
    String.toList_ofList]

theorem utf8EncodeChar_ofNat : ∀ n < 128, String.utf8EncodeChar (Char.ofNat n) = [UInt8.ofNat n] := by
  decide

theorem utf8EncodeChar_of_ascii {c : Char} (h : c.toNat < 128) :
    String.utf8EncodeChar c = [UInt8.ofNat c.toNat] := by
  have hchar := utf8EncodeChar_ofNat c.toNat h
  rwa [Char.ofNat_toNat] at hchar

theorem asBytes_of_ascii {name : Text} (h : ∀ c ∈ name, c.toNat < 128) :
    asBytes name = name.map fun c ↦ UInt8.ofNat c.toNat := by
  induction name with
  | nil => rfl
  | cons c name ih =>
    calc
      asBytes (c :: name) = String.utf8EncodeChar c ++ asBytes name := List.flatMap_cons
      _ = [UInt8.ofNat c.toNat] ++ asBytes name := by
        rw [utf8EncodeChar_of_ascii (h c List.mem_cons_self)]
      _ = (c :: name).map fun c ↦ UInt8.ofNat c.toNat := by
        rw [ih fun other hother ↦ h other (List.mem_cons_of_mem c hother)]
        rfl

theorem toNat_ofNat_of_ascii {n : ℕ} (h : n < 128) : (UInt8.ofNat n).toNat = n := by
  rw [UInt8.toNat_ofNat']
  omega

/-- The bytes determine the string. -/
theorem asBytes_injective : Function.Injective asBytes := by
  intro name other h
  have hread := congrArg fromUtf8 h
  rw [fromUtf8_asBytes, fromUtf8_asBytes] at hread
  exact Option.some.inj hread

/-- Bytes below 128 encode one character each. -/
theorem asBytes_ofNat_of_ascii (bytes : List UInt8) (h : ∀ byte ∈ bytes, byte < 128) :
    asBytes (bytes.map fun byte ↦ Char.ofNat byte.toNat) = bytes := by
  induction bytes with
  | nil => rfl
  | cons byte bytes ih =>
    have hhead : String.utf8EncodeChar (Char.ofNat byte.toNat) = [byte] := by
      have hlt : byte.toNat < 128 := UInt8.lt_iff_toNat_lt.mp (h byte List.mem_cons_self)
      rw [utf8EncodeChar_ofNat byte.toNat hlt, UInt8.ofNat_toNat]
    have htail := ih fun other hother ↦ h other (List.mem_cons_of_mem _ hother)
    simp only [asBytes, List.map_cons, List.flatMap_cons, hhead] at htail ⊢
    rw [htail]
    rfl

/-- ASCII bytes are valid UTF-8. -/
theorem isSome_fromUtf8_of_ascii (bytes : List UInt8) (h : ∀ byte ∈ bytes, byte < 128) :
    (fromUtf8 bytes).isSome :=
  (isSome_fromUtf8 bytes).mpr ⟨_, asBytes_ofNat_of_ascii bytes h⟩

/-- `char::is_whitespace`, the Unicode property `White_Space`. -/
def isWhitespace (c : Char) : Bool :=
  (9 ≤ c.toNat && c.toNat ≤ 13) || c.toNat == 0x20 || c.toNat == 0x85 || c.toNat == 0xA0 ||
    c.toNat == 0x1680 || (0x2000 ≤ c.toNat && c.toNat ≤ 0x200A) || c.toNat == 0x2028 ||
    c.toNat == 0x2029 || c.toNat == 0x202F || c.toNat == 0x205F || c.toNat == 0x3000

/-- `str::trim`. -/
def trim (text : Text) : Text :=
  ((text.dropWhile isWhitespace).reverse.dropWhile isWhitespace).reverse

/-- `str::split("//")`, collected. -/
def splitSlashes : Text → List Text
  | '/' :: '/' :: rest => [] :: splitSlashes rest
  | c :: rest =>
    match splitSlashes rest with
    | [] => [[c]]
    | part :: parts => (c :: part) :: parts
  | [] => [[]]

/-- The number that a list of decimal digits writes. -/
def decimalValue (digits : Text) : ℕ := digits.foldl (fun n c ↦ 10 * n + (c.toNat - 48)) 0

/-- A number in decimal, as integer formatting writes it. -/
def decimal (n : ℕ) : Text := Nat.toDigits 10 n

/-- `u64::from_str`: an optional plus sign and at least one digit, below `2 ^ 64`. -/
def u64FromStr (text : Text) : Option UInt64 :=
  let digits := match text with
    | '+' :: rest => rest
    | _ => text
  if digits ≠ [] ∧ digits.all Char.isDigit ∧ decimalValue digits < 2 ^ 64 then
    some (UInt64.ofNat (decimalValue digits))
  else none

/-! ## What the string functions do on plain parts -/

theorem splitSlashes_of_notMem {text : Text} (h : '/' ∉ text) : splitSlashes text = [text] := by
  induction text with
  | nil => rfl
  | cons c rest ih =>
    rw [List.mem_cons, not_or] at h
    have hrest := ih h.2
    unfold splitSlashes
    split
    · next heq =>
      rw [List.cons.injEq] at heq
      exact absurd heq.1.symm h.1
    · next heq =>
      obtain ⟨rfl, rfl⟩ := List.cons.inj heq
      rw [hrest]
    · next heq => cases heq

/-- The two parts of a container id. -/
theorem splitSlashes_append (runtime id : Text) (hruntime : '/' ∉ runtime) (hid : '/' ∉ id) :
    splitSlashes (runtime ++ '/' :: '/' :: id) = [runtime, id] := by
  induction runtime with
  | nil => rw [List.nil_append, splitSlashes, splitSlashes_of_notMem hid]
  | cons c runtime ih =>
    rw [List.mem_cons, not_or] at hruntime
    rw [List.cons_append]
    unfold splitSlashes
    split
    · next heq =>
      rw [List.cons.injEq] at heq
      exact absurd heq.1.symm hruntime.1
    · next heq =>
      obtain ⟨rfl, rfl⟩ := List.cons.inj heq
      rw [ih hruntime.2]
    · next heq => cases heq

/-- A newline at the end of a line is trimmed. -/
theorem trim_append_newline (text : Text) (first last : Char) (hfirst : text.head? = some first)
    (hlast : text.getLast? = some last) (hwsFirst : isWhitespace first = false)
    (hwsLast : isWhitespace last = false) : trim (text ++ ['\n']) = text := by
  obtain ⟨init, rfl⟩ := List.getLast?_eq_some_iff.mp hlast
  have hleft : (init ++ [last] ++ ['\n']).dropWhile isWhitespace = init ++ [last] ++ ['\n'] := by
    cases init with
    | nil =>
      obtain rfl : last = first := by simpa using hfirst
      simp [hwsFirst]
    | cons c init =>
      obtain rfl : c = first := by simpa using hfirst
      simp [hwsFirst]
  have hnewline : isWhitespace '\n' = true := by decide
  rw [trim, hleft]
  simp [List.dropWhile, hnewline, hwsLast]

theorem isWhitespace_of_isDigit {c : Char} (h : c.isDigit = true) : isWhitespace c = false := by
  obtain ⟨hlow, hhigh⟩ := Char.isDigit_iff_toNat.mp h
  change 48 ≤ c.toNat at hlow
  change c.toNat ≤ 57 at hhigh
  simp only [isWhitespace, Bool.or_eq_false_iff, Bool.and_eq_false_iff, decide_eq_false_iff_not,
    beq_eq_false_iff_ne]
  omega

theorem isDigit_of_mem_decimal {n : ℕ} {c : Char} (h : c ∈ decimal n) : c.isDigit = true :=
  Nat.isDigit_of_mem_toDigits (by decide) (by decide) h

theorem decimal_ne_nil (n : ℕ) : decimal n ≠ [] := Nat.toDigits_ne_nil

theorem decimalValue_decimal (n : ℕ) : decimalValue (decimal n) = n :=
  Nat.ofDigitChars_ten_toDigits

/-! ## Numerals in two bases -/

theorem ofDigitChars_eight_lt_ten {m n : ℕ} (h : m < n) (digits : Text) :
    Nat.ofDigitChars 8 digits m < Nat.ofDigitChars 10 digits n := by
  induction digits generalizing m n with
  | nil => exact h
  | cons c digits ih =>
    rw [Nat.ofDigitChars_cons, Nat.ofDigitChars_cons]
    apply ih
    omega

/-- Digits say the same number in octal and in decimal exactly when at most the last one is not zero. -/
theorem ofDigitChars_eight_eq_ten_iff {digits : Text} (h : ∀ c ∈ digits, c.isDigit = true) :
    Nat.ofDigitChars 8 digits 0 = Nat.ofDigitChars 10 digits 0 ↔
      digits = [] ∨ ∃ zeros digit, digits = List.replicate zeros '0' ++ [digit] := by
  induction digits with
  | nil => simp
  | cons c digits ih =>
    rw [List.forall_mem_cons] at h
    obtain ⟨hc, hdigits⟩ := h
    by_cases hzero : c = '0'
    · subst hzero
      have hrest := ih hdigits
      rw [Nat.ofDigitChars_cons, Nat.ofDigitChars_cons]
      refine hrest.trans ⟨?_, ?_⟩
      · rintro (rfl | ⟨zeros, digit, rfl⟩)
        · exact .inr ⟨0, '0', rfl⟩
        · exact .inr ⟨zeros + 1, digit, rfl⟩
      · rintro (hnil | ⟨zeros, digit, heq⟩)
        · cases hnil
        · cases zeros with
          | zero => exact .inl (List.cons.inj heq).2
          | succ zeros => exact .inr ⟨zeros, digit, (List.cons.inj heq).2⟩
    · cases digits with
      | nil => exact iff_of_true (by simp [Nat.ofDigitChars_cons]) (.inr ⟨0, c, rfl⟩)
      | cons next digits =>
        have hpos : 0 < c.toNat - 48 := by
          have hrange := Char.isDigit_iff_toNat.mp hc
          change 48 ≤ c.toNat ∧ c.toNat ≤ 57 at hrange
          have hne : c.toNat ≠ 48 := by
            intro heq
            apply hzero
            rw [← Char.ofNat_toNat c, heq]
          omega
        refine iff_of_false (Nat.ne_of_lt ?_) ?_
        · rw [Nat.ofDigitChars_cons, Nat.ofDigitChars_cons, Nat.ofDigitChars_cons, Nat.ofDigitChars_cons]
          apply ofDigitChars_eight_lt_ten
          change 8 * (8 * 0 + (c.toNat - 48)) + _ < 10 * (10 * 0 + (c.toNat - 48)) + _
          omega
        · rintro (hnil | ⟨zeros, digit, heq⟩)
          · cases hnil
          · cases zeros with
            | zero => cases (List.cons.inj heq).2
            | succ zeros => exact hzero (List.cons.inj heq).1

theorem ofDigitChars_eight_le_ten {m n : ℕ} (h : m ≤ n) (digits : Text) :
    Nat.ofDigitChars 8 digits m ≤ Nat.ofDigitChars 10 digits n := by
  induction digits generalizing m n with
  | nil => exact h
  | cons c digits ih =>
    rw [Nat.ofDigitChars_cons, Nat.ofDigitChars_cons]
    apply ih
    omega

theorem le_ofDigitChars_ten (digits : Text) (n : ℕ) : n ≤ Nat.ofDigitChars 10 digits n := by
  induction digits generalizing n with
  | nil => exact Nat.le_refl n
  | cons c digits ih =>
    rw [Nat.ofDigitChars_cons]
    exact Nat.le_trans (by omega) (ih (10 * n + (c.toNat - '0'.toNat)))

/-- The octal number that digits begin with is less than their decimal number where a digit is left
over that is not zero. -/
theorem ofDigitChars_eight_lt_append {c : Char} (hc : 48 < c.toNat) (front rest : Text) :
    Nat.ofDigitChars 8 front 0 < Nat.ofDigitChars 10 (front ++ c :: rest) 0 := by
  have hfront := ofDigitChars_eight_le_ten (Nat.le_refl 0) front
  have hrest := le_ofDigitChars_ten rest (10 * Nat.ofDigitChars 10 front 0 + (c.toNat - '0'.toNat))
  have hzero : '0'.toNat = 48 := rfl
  rw [Nat.ofDigitChars_append, Nat.ofDigitChars_cons]
  omega

/-- Reading back a formatted number gives the number. -/
theorem u64FromStr_decimal {n : ℕ} (h : n < 2 ^ 64) :
    u64FromStr (decimal n) = some (UInt64.ofNat n) := by
  have hdigits : (decimal n).all Char.isDigit := List.all_eq_true.mpr fun _ ↦ isDigit_of_mem_decimal
  have hplus : (match decimal n with
      | '+' :: rest => rest
      | _ => decimal n) = decimal n := by
    split
    · next rest heq =>
      have hmem : '+' ∈ decimal n := by
        rw [heq]
        exact List.mem_cons_self
      exact absurd (isDigit_of_mem_decimal hmem) (by decide)
    · rfl
  unfold u64FromStr
  simp only [hplus, decimalValue_decimal]
  exact if_pos ⟨decimal_ne_nil n, hdigits, h⟩

end Text

end EbpfPlayground
