import EbpfPlayground.HostProcessId.Registration

/-!
# Two readings of one argument

The script pastes its argument into the `CiliumIdentity` object as the name, where it is a decimal
number, and hands it to `printf`, which reads it like a C literal.  The two agree on decimal digits
without a leading zero, and on one octal digit behind zeros.  In another directory than `~/demo` the
object that `kubectl` creates is not the one that the script has just made.
-/

namespace EbpfPlayground.HostProcessId

open CString Hex Shell Text

/-- A YAML scalar between double quotes, without escapes. -/
def doubleQuoted : Text → Option Text
  | '"' :: rest => if rest.getLast? = some '"' then some rest.dropLast else none
  | _ => none

/-- `metadata.name` of an object with these lines. -/
def metadataName (object : List Text) : Option Text :=
  object.findSome? fun line ↦ (Json.stripPrefix "  name: ".toList line).bind doubleQuoted

/-- A text of digits as a decimal number. -/
def decimalNumber (text : Text) : Option ℕ :=
  if text ≠ [] ∧ text.all Char.isDigit then some (decimalValue text) else none

/-- `metadata.name` of the object that the run creates. -/
def createdName (env : MagicEnv) (argument : Text) : Option Text :=
  (env.auditorIdentity argument).bind fun identity ↦ metadataName (ciliumIdentity identity)

/-- Whatever the map, a run that writes to it writes the number that is the name of the identity. -/
def SameIdentity (env : MagicEnv) (argument : Text) : Prop :=
  ∀ netidMap netidMap', env.run argument netidMap = some netidMap' →
    ∃ key value, netidMap.update key value = some netidMap' ∧
      (createdName env argument).bind decimalNumber = some (ofLeBytes value.toList)

/-- Decimal digits without a leading zero, or one octal digit behind zeros. -/
def ReadsAlike (identity : Text) : Prop :=
  (∀ c ∈ identity, c.isDigit = true) ∧
    (identity.head? ≠ some '0' ∨
      ∃ zeros digit, identity = List.replicate zeros '0' ++ [digit] ∧ digit < '8')

/-- In `~/demo` the identity reads alike; elsewhere the file under `~/demo` has the decimal number that the
argument is as a C literal. -/
def NamesAlike (env : MagicEnv) (argument : Text) : Prop :=
  if env.inDemo then ReadsAlike (networkIdentity argument)
  else env.demoIdentity.bind decimalNumber = some (strtoumax (networkIdentity argument))

theorem doubleQuoted_append (text : Text) : doubleQuoted ('"' :: (text ++ ['"'])) = some text := by
  rw [doubleQuoted, if_pos List.getLast?_concat, List.dropLast_concat]

/-- A line without the pattern stays as it is. -/
theorem sedSubst_of_not_contains {pattern line : Text} (replacement : Text)
    (h : contains pattern line = false) : sedSubst pattern replacement line = line := by
  induction line with
  | nil => rfl
  | cons c line ih =>
    rw [contains, List.tails_cons, List.any_cons, Bool.or_eq_false_iff] at h
    rw [sedSubst, if_neg (Bool.not_eq_true _ ▸ h.1), ih h.2]

/-- The name of the object is the text that the script pastes into it. -/
theorem metadataName_ciliumIdentity (identity : Text) :
    metadataName (ciliumIdentity identity) = some identity := by
  have hbefore : ∀ line ∈ ciliumIdentityTmpl.take 8,
      contains "__AUDITOR_POD_IDENTITY__".toList line = false ∧
        Json.stripPrefix "  name: ".toList line = none := by
    decide +kernel
  have hnone : ((ciliumIdentityTmpl.take 8).map (sedSubst "__AUDITOR_POD_IDENTITY__".toList
      ('"' :: identity ++ ['"']))).findSome? (fun line ↦
        (Json.stripPrefix "  name: ".toList line).bind doubleQuoted) = none := by
    rw [List.findSome?_eq_none_iff]
    intro line hline
    obtain ⟨before, hmem, rfl⟩ := List.mem_map.mp hline
    obtain ⟨hlacks, hother⟩ := hbefore before hmem
    rw [sedSubst_of_not_contains _ hlacks, hother, Option.bind_none]
  have hname : sedSubst "__AUDITOR_POD_IDENTITY__".toList ('"' :: identity ++ ['"'])
      "  name: __AUDITOR_POD_IDENTITY__".toList =
        "  name: ".toList ++ '"' :: (identity ++ ['"']) := by
    simp [sedSubst, List.isPrefixOf]
  have hprefix : ∀ rest, Json.stripPrefix "  name: ".toList ("  name: ".toList ++ rest) = some rest :=
    fun _ ↦ rfl
  rw [metadataName, ciliumIdentity, ← List.take_append_drop 8 ciliumIdentityTmpl, List.map_append,
    List.findSome?_append, hnone, Option.none_or]
  change (_ :: _ : List Text).findSome? _ = _
  rw [List.findSome?_cons, hname, hprefix, Option.bind_some, doubleQuoted_append]

/-! ## C literals of digits -/

theorem strtoumax_zero_cons {digits : Text} (hdigits : ∀ c ∈ digits, c.isDigit = true) :
    strtoumax ('0' :: digits) =
      min (2 ^ 64 - 1) (Nat.ofDigitChars 8 (digits.takeWhile fun c ↦ '0' ≤ c ∧ c ≤ '7') 0) := by
  unfold strtoumax
  split
  · next rest heq =>
    rw [(List.cons.inj heq).2] at hdigits
    exact absurd (hdigits 'x' List.mem_cons_self) (by decide)
  · next rest heq =>
    rw [(List.cons.inj heq).2] at hdigits
    exact absurd (hdigits 'X' List.mem_cons_self) (by decide)
  · next rest _ _ heq => rw [(List.cons.inj heq).2]
  · next hx hX hzero => exact absurd rfl (hzero digits)

theorem octal_iff {c : Char} (h : c.isDigit = true) : '0' ≤ c ∧ c ≤ '7' ↔ c < '8' := by
  have hrange := Char.isDigit_iff_toNat.mp h
  change 48 ≤ c.toNat ∧ c.toNat ≤ 57 at hrange
  change 48 ≤ c.toNat ∧ c.toNat ≤ 55 ↔ c.toNat < 56
  omega

/-- The octal number ends before the first 8 or 9, and the decimal one goes on. -/
theorem ofDigitChars_takeWhile_lt {digits : Text} (hdigits : ∀ c ∈ digits, c.isDigit = true)
    (h : ¬ ∀ c ∈ digits, c < '8') :
    Nat.ofDigitChars 8 (digits.takeWhile fun c ↦ '0' ≤ c ∧ c ≤ '7') 0 < Nat.ofDigitChars 10 digits 0 := by
  have hsplit := List.takeWhile_append_dropWhile (p := fun c ↦ '0' ≤ c ∧ c ≤ '7') (l := digits)
  set front := digits.takeWhile fun c ↦ '0' ≤ c ∧ c ≤ '7'
  have hleft : digits.dropWhile (fun c ↦ '0' ≤ c ∧ c ≤ '7') ≠ [] := by
    rw [ne_eq, List.dropWhile_eq_nil_iff]
    intro hall
    exact h fun c hc ↦ (octal_iff (hdigits c hc)).mp (of_decide_eq_true (hall c hc))
  obtain ⟨c, rest, hrest⟩ := List.exists_cons_of_ne_nil hleft
  have hnot : ¬ ('0' ≤ c ∧ c ≤ '7') := by
    have hhead := List.head_dropWhile_not (fun c ↦ decide ('0' ≤ c ∧ c ≤ '7')) hleft
    simpa only [hrest, List.head_cons, decide_eq_false_iff_not] using hhead
  rw [hrest] at hsplit
  have hc : c ∈ digits := hsplit ▸ List.mem_append_right _ List.mem_cons_self
  have hlarge : ¬ c.toNat < 56 := mt (octal_iff (hdigits c hc)).mpr hnot
  exact hsplit ▸ ofDigitChars_eight_lt_append (by omega) front rest

/-- Behind a zero, the number is the decimal one exactly for one octal digit behind zeros. -/
theorem decimalNumber_zero_cons {digits : Text} (hdigits : ∀ c ∈ digits, c.isDigit = true)
    (hsmall : strtoumax ('0' :: digits) < 2 ^ 32) :
    decimalValue ('0' :: digits) = strtoumax ('0' :: digits) ↔
      ∃ zeros digit, '0' :: digits = List.replicate zeros '0' ++ [digit] ∧ digit < '8' := by
  have hdecimal : decimalValue ('0' :: digits) = Nat.ofDigitChars 10 digits 0 := rfl
  rw [strtoumax_zero_cons hdigits] at hsmall ⊢
  rw [hdecimal]
  by_cases hoctal : ∀ c ∈ digits, c < '8'
  · have hall : digits.takeWhile (fun c ↦ '0' ≤ c ∧ c ≤ '7') = digits :=
      List.takeWhile_eq_self_iff.mpr fun c hc ↦
        decide_eq_true ((octal_iff (hdigits c hc)).mpr (hoctal c hc))
    rw [hall] at hsmall ⊢
    have hmin : min (2 ^ 64 - 1) (Nat.ofDigitChars 8 digits 0) = Nat.ofDigitChars 8 digits 0 := by
      omega
    have hzero : ∀ c ∈ '0' :: digits, c.isDigit = true := List.forall_mem_cons.mpr ⟨rfl, hdigits⟩
    have hsame : Nat.ofDigitChars 8 digits 0 = Nat.ofDigitChars 10 digits 0 ↔
        ∃ zeros digit, '0' :: digits = List.replicate zeros '0' ++ [digit] :=
      (ofDigitChars_eight_eq_ten_iff hzero).trans (or_iff_right (List.cons_ne_nil _ _))
    rw [hmin, eq_comm, hsame]
    constructor
    · rintro ⟨zeros, digit, heq⟩
      have hmem : digit ∈ '0' :: digits := heq ▸ List.mem_append_right _ (List.mem_singleton_self _)
      exact ⟨zeros, digit, heq, (List.forall_mem_cons.mpr ⟨by decide, hoctal⟩) digit hmem⟩
    · rintro ⟨zeros, digit, heq, -⟩
      exact ⟨zeros, digit, heq⟩
  · have hless := ofDigitChars_takeWhile_lt hdigits hoctal
    refine iff_of_false (by omega) ?_
    rintro ⟨zeros, digit, heq, hdigit⟩
    apply hoctal
    intro c hc
    have hmem : c ∈ List.replicate zeros '0' ++ [digit] := heq ▸ List.mem_cons_of_mem _ hc
    rcases List.mem_append.mp hmem with hzero | hlast
    · rw [List.eq_of_mem_replicate hzero]
      decide
    · rwa [List.mem_singleton.mp hlast]

/-- The argument is the same number both ways exactly where it reads alike. -/
theorem decimalNumber_eq_iff {identity : Text} (hne : identity ≠ [])
    (hsmall : strtoumax identity < 2 ^ 32) :
    decimalNumber identity = some (strtoumax identity) ↔ ReadsAlike identity := by
  rw [decimalNumber, Option.ite_none_right_eq_some, Option.some_inj, ReadsAlike,
    and_iff_right hne, List.all_eq_true]
  refine and_congr_right fun hdigits ↦ ?_
  by_cases hhead : identity.head? = some '0'
  · obtain ⟨digits, rfl⟩ : ∃ digits, identity = '0' :: digits := List.head?_eq_some_iff.mp hhead
    rw [decimalNumber_zero_cons (List.forall_mem_cons.mp hdigits).2 hsmall]
    exact (or_iff_right (not_not.mpr hhead)).symm
  · rw [strtoumax_of_digits hdigits hhead] at hsmall ⊢
    exact iff_of_true (by omega) (.inl hhead)

/-! ## The object and the map -/

theorem createdName_eq (env : MagicEnv) (argument : Text) :
    createdName env argument = env.auditorIdentity argument := by
  simp only [createdName, metadataName_ciliumIdentity, Option.bind_fun_some]

/-- The identity that the control plane knows and the one that the map gets are the same exactly when
the run does not get to the update, or the two are alike. -/
theorem sameIdentity_iff (env : MagicEnv) (argument : Text) (halnum : ∀ c ∈ argument, c.isAlphanum) :
    SameIdentity env argument ↔
      ¬ env.Completes argument ∨ 2 ^ 32 ≤ MagicEnv.identityNumber argument ∨
        NamesAlike env argument := by
  have hne := (MagicEnv.isName_networkIdentity halnum).ne_nil
  rw [SameIdentity, MagicEnv.forall_writes_iff halnum]
  refine or_congr_right (or_congr_right' fun hlarge ↦ ?_)
  have hsmall : MagicEnv.identityNumber argument < 2 ^ 32 := Nat.lt_of_not_le hlarge
  rw [createdName_eq, toList_leBuffer, ofLeBytes_leBytes hsmall, NamesAlike,
    MagicEnv.auditorIdentity]
  split
  · exact decimalNumber_eq_iff hne hsmall
  · rfl

theorem sameIdentity_demo :
    SameIdentity (MagicEnv.demo ["a1b2".toList] (by decide)) "0007".toList :=
  (sameIdentity_iff _ _ (by decide)).mpr
    (.inr (.inr ⟨by decide, .inr ⟨3, '7', rfl, by decide⟩⟩))

theorem not_sameIdentity_demo {env : MagicEnv} {argument : Text}
    (halnum : ∀ c ∈ argument, c.isAlphanum) (hcompletes : env.Completes argument)
    (hsmall : MagicEnv.identityNumber argument < 2 ^ 32)
    (hne : (env.auditorIdentity argument).bind decimalNumber ≠
      some (MagicEnv.identityNumber argument)) : ¬ SameIdentity env argument := by
  intro h
  rcases (MagicEnv.forall_writes_iff halnum).mp h with hnot | hlarge | hname
  · exact hnot hcompletes
  · exact absurd hsmall (Nat.not_lt.mpr hlarge)
  · rw [createdName_eq, toList_leBuffer, ofLeBytes_leBytes hsmall] at hname
    exact hne hname

/-- The same node, with the script in another directory than `~/demo`. -/
def MagicEnv.elsewhere (env : MagicEnv) : MagicEnv := { env with inDemo := false }

/-- The name says 10 and the map 8; the name is no decimal number and the map says 16; the name is no
number and the map says 0.  From another directory, the name is that of an earlier run. -/
theorem sameIdentity_counterexample :
    ¬ SameIdentity (MagicEnv.demo ["a1b2".toList] (by decide)) "010".toList ∧
      ¬ SameIdentity (MagicEnv.demo ["a1b2".toList] (by decide)) "0x10".toList ∧
      ¬ SameIdentity (MagicEnv.demo ["a1b2".toList] (by decide)) "prod".toList ∧
      ¬ SameIdentity (MagicEnv.demo ["a1b2".toList] (by decide)).elsewhere "12345".toList := by
  have hcompletes := MagicEnv.completes_demo ["a1b2".toList] (by decide)
  refine ⟨?_, ?_, ?_, ?_⟩
  · exact not_sameIdentity_demo (by decide) (hcompletes _) (by decide) (by decide)
  · exact not_sameIdentity_demo (by decide) (hcompletes _) (by decide) (by decide)
  · exact not_sameIdentity_demo (by decide) (hcompletes _) (by decide) (by decide)
  · exact not_sameIdentity_demo (by decide) ⟨rfl, rfl, (hcompletes []).oneMap⟩ (by decide) (by decide)

end EbpfPlayground.HostProcessId
