import EbpfPlayground.Foundation.BoundedMap
import EbpfPlayground.Foundation.Shell
import Mathlib.Data.Nat.Digits.Lemmas

/-!
# The script that writes a network identity

`DO-eBPF-MAGIC.sh` turns a cgroup id and an identity into the bytes that `bpftool map update` takes:
`num_to_hex_str` prints the number in hexadecimal, cuts it into pairs of digits and reverses them, so
that the bytes stand in little-endian order.
-/

namespace EbpfPlayground.HostProcessId

open CString Hex Shell Text

/-- `HOST_PROCESS_NETID_MAP_SIZE`. -/
abbrev hostProcessNetidMapSize : ℕ := 16384

/-- `HOST_PROCESS_NETID_MAP`: the bytes of a `host_process_netid_key` and of a
`host_process_netid_value`. -/
abbrev HostProcessNetidMap := BoundedMap (Buffer 8) (Buffer 4) hostProcessNetidMapSize

/-- Standard output of `num_to_hex_str`.  Where its operand is not all number, `printf` prints the number
that it begins with, 0 if there is none, and `local` hides its status. -/
def numToHexStr (size : ℕ) (value : Text) : Text :=
  let hexstr := commandSubst (printfHex size (strtoumax value))
  let spacedHexstr := commandSubst (sedPairs (echo (words hexstr)))
  let reversedHexstr := commandSubst (awkReverse (echo (words spacedHexstr)))
  echo (words reversedHexstr)

def bpftoolCmd (hpMapId bpfMapKey bpfMapValue : Text) : Text :=
  "bpftool map update id".toList ++ ' ' :: (hpMapId ++ ' ' :: ("key hex".toList ++ ' ' ::
    (bpfMapKey ++ ' ' :: ("value hex".toList ++ ' ' :: bpfMapValue))))

/-! ## `bpftool map update` -/

def mapUpdateWords : List Text := ["bpftool".toList, "map".toList, "update".toList, "id".toList]

def keyHexWords : List Text := ["key".toList, "hex".toList]

def valueHexWords : List Text := ["value".toList, "hex".toList]

/-- Take the expected words from the front of the arguments. -/
def expectWords (expected args : List Text) : Option (List Text) :=
  if args.take expected.length = expected then some (args.drop expected.length) else none

/-- Take `size` bytes in hexadecimal from the front of the arguments. -/
def parseBytes (size : ℕ) (args : List Text) : Option (Buffer size × List Text) :=
  ((args.take size).mapM fun word ↦ (strtoul16 word).map UInt8.ofNat).bind fun bytes ↦
    if h : bytes.length = size then some (⟨bytes.toArray, by simp [h]⟩, args.drop size) else none

/-- `bpftool map update id ID key hex BYTES value hex BYTES`; `none` where it fails. -/
def bpftoolMapUpdate (args : List Text) (netidMap : HostProcessNetidMap) :
    Option HostProcessNetidMap := do
  let args ← expectWords mapUpdateWords args
  let args ← expectWords keyHexWords args.tail
  let (key, args) ← parseBytes 8 args
  let args ← expectWords valueHexWords args
  let (value, args) ← parseBytes 4 args
  if args = [] then netidMap.update key value else none

/-- What a run of the script does to the map, with the map's id, the cgroup id and the identity as
the texts it has for them; `none` where it fails. -/
def doEbpfMagic (hpMapId cgId networkIdentity : Text) (netidMap : HostProcessNetidMap) :
    Option HostProcessNetidMap := do
  let bpfMapKey := numToHexStr 16 cgId
  let bpfMapValue := numToHexStr 8 networkIdentity
  let cmd := bpftoolCmd hpMapId (commandSubst bpfMapKey) (commandSubst bpfMapValue)
  bpftoolMapUpdate (words cmd) netidMap

/-! ## The bytes that are written -/

theorem plain_byteDigits (n : ℕ) : Plain (byteDigits n) := by
  have hdigit : ∀ m < 16, isBlank (Nat.digitChar m) = false := by decide
  refine ⟨by simp [byteDigits], ?_⟩
  intro c hc
  simp only [byteDigits, List.mem_cons, List.not_mem_nil, or_false] at hc
  rcases hc with rfl | rfl
  · exact hdigit _ (Nat.mod_lt _ (by decide))
  · exact hdigit _ (Nat.mod_lt _ (by decide))

theorem mem_leDigits {size n : ℕ} {word : Text} (h : word ∈ leDigits size n) :
    ∃ m, word = byteDigits m := by
  induction size generalizing n with
  | zero => cases h
  | succ size ih =>
    rcases List.mem_cons.mp h with rfl | hrest
    · exact ⟨n, rfl⟩
    · exact ih hrest

theorem plain_of_mem_leDigits {size n : ℕ} : ∀ word ∈ leDigits size n, Plain word := by
  intro word hword
  obtain ⟨m, rfl⟩ := mem_leDigits hword
  exact plain_byteDigits m

/-- `num_to_hex_str` prints the digits of the number two by two, the last ones first. -/
theorem numToHexStr_eq_pairs (size : ℕ) (value : Text) :
    numToHexStr size value =
      echo (pairs (printfHex size (strtoumax value))).reverse := by
  set hexstr := printfHex size (strtoumax value) with hhexstr
  have hblank : ∀ c ∈ hexstr, isBlank c = false := isBlank_of_mem_printfHex
  have hplain : Plain hexstr := ⟨printfHex_ne_nil _ _, hblank⟩
  have hpairs : ∀ pair ∈ pairs hexstr, Plain pair := plain_of_mem_pairs hblank
  have hreverse : ∀ pair ∈ (pairs hexstr).reverse, Plain pair := fun pair hpair ↦
    hpairs pair (List.mem_reverse.mp hpair)
  have hspaced : words (commandSubst (sedPairs (echo [hexstr]))) = pairs hexstr := by
    rw [words_commandSubst, echo, List.intercalate_singleton, words_sedPairs hblank]
  have hreversed : words (commandSubst (awkReverse (echo (pairs hexstr)))) =
      (pairs hexstr).reverse := by
    rw [words_commandSubst, awkReverse_echo hpairs, words_flatMap_blank hreverse]
  simp only [numToHexStr, ← hhexstr, commandSubst_eq_self hplain.newline_notMem, hplain.words,
    hspaced, hreversed]

theorem words_numToHexStr (size : ℕ) (value : Text) :
    words (numToHexStr size value) =
      (pairs (printfHex size (strtoumax value))).reverse := by
  have hplain : ∀ pair ∈ (pairs (printfHex size (strtoumax value))).reverse, Plain pair :=
    fun pair hpair ↦ plain_of_mem_pairs isBlank_of_mem_printfHex pair (List.mem_reverse.mp hpair)
  rw [numToHexStr_eq_pairs, ← words_commandSubst, commandSubst_echo hplain,
    words_intercalate hplain]

/-- A number that fits is printed as its bytes, least significant first. -/
theorem numToHexStr_eq {size : ℕ} {value : Text} (hsize : 0 < size)
    (hvalue : strtoumax value < 256 ^ size) :
    numToHexStr (2 * size) value = echo (leDigits size (strtoumax value)) := by
  set n := strtoumax value with hn
  have hlength : ∀ word ∈ (leDigits size n).reverse, word.length = 2 := by
    intro word hword
    obtain ⟨m, rfl⟩ := mem_leDigits (List.mem_reverse.mp hword)
    rfl
  have hfits : n < 16 ^ (2 * size) := by
    rwa [pow_mul]
  rw [numToHexStr_eq_pairs, ← hn, printfHex_eq (Nat.mul_pos (by decide) hsize) hfits,
    digits_two_mul, pairs_flatten hlength, List.reverse_reverse]

/-- A number that does not fit is printed as more pieces than it should have bytes. -/
theorem lt_length_words_numToHexStr {size : ℕ} {value : Text} (hsize : 0 < size)
    (hvalue : 256 ^ size ≤ strtoumax value) :
    size < (words (numToHexStr (2 * size) value)).length := by
  have hdigits : 2 * size < (printfHex (2 * size) (strtoumax value)).length := by
    apply lt_length_printfHex (Nat.mul_pos (by decide) hsize)
    rwa [pow_mul]
  rw [words_numToHexStr, List.length_reverse, length_pairs]
  omega

/-! ## The codec -/

/-- What `num_to_hex_str` prints for a number in decimal, token by token. -/
def tokens (size n : ℕ) : List Text := words (numToHexStr (2 * size) (decimal n))

/-- The number that a token writes. -/
def tokenValue (token : Text) : ℕ := (strtoul16 token).getD 0

/-- The tokens of a number are its bytes where it fits, and too many where it does not. -/
structure Codec (size : ℕ) : Prop where
  output : ∀ n < 2 ^ 64, numToHexStr (2 * size) (decimal n) = echo (tokens size n)
  length_eq : ∀ n < 2 ^ 64, n < 256 ^ size → (tokens size n).length = size
  two_digits : ∀ n < 2 ^ 64, n < 256 ^ size → ∀ token ∈ tokens size n,
    token.length = 2 ∧ ∀ c ∈ token, (digitValue c).isSome
  sum_eq : ∀ n < 2 ^ 64, n < 256 ^ size →
    ((tokens size n).mapIdx fun i token ↦ tokenValue token * 256 ^ i).sum = n
  surplus : ∀ n < 2 ^ 64, 256 ^ size ≤ n → size < (tokens size n).length
  injective : ∀ m < 2 ^ 64, ∀ n < 2 ^ 64, (tokens size m).length = size →
    numToHexStr (2 * size) (decimal m) = numToHexStr (2 * size) (decimal n) → m = n

theorem tokens_eq_leDigits {size n : ℕ} (hsize : 0 < size) (hn : n < 256 ^ size)
    (h64 : n < 2 ^ 64) : tokens size n = leDigits size n := by
  have hvalue : strtoumax (decimal n) = n := strtoumax_decimal h64
  have hfits : strtoumax (decimal n) < 256 ^ size := hvalue.symm ▸ hn
  calc
    tokens size n = words (echo (leDigits size n)) := by
      rw [tokens, numToHexStr_eq hsize hfits, hvalue]
    _ = words (commandSubst (echo (leDigits size n))) := (words_commandSubst _).symm
    _ = leDigits size n := by
      rw [commandSubst_echo plain_of_mem_leDigits, words_intercalate plain_of_mem_leDigits]

theorem sum_tokenValue_leDigits {size n : ℕ} (hn : n < 256 ^ size) :
    ((leDigits size n).mapIdx fun i token ↦ tokenValue token * 256 ^ i).sum = n := by
  have hmap : (leDigits size n).mapIdx (fun i token ↦ tokenValue token * 256 ^ i) =
      ((leDigits size n).map tokenValue).mapIdx fun i value ↦ value * 256 ^ i :=
    List.ext_getElem (by simp) (by simp)
  calc
    ((leDigits size n).mapIdx fun i token ↦ tokenValue token * 256 ^ i).sum
        = Nat.ofDigits 256 ((leDigits size n).map tokenValue) := by
      rw [hmap, Nat.ofDigits_eq_sum_mapIdx]
    _ = n := ofDigits_leDigits hn

/-- For every width, `num_to_hex_str` is a little-endian codec: a number that fits has as many tokens as
the width, one to a byte, a number that does not has more, and no two numbers that fit have the same
output. -/
theorem numToHexStr_codec {size : ℕ} (hsize : 0 < size) : Codec size := by
  have hvalue : ∀ n < 2 ^ 64, strtoumax (decimal n) = n := fun _ h64 ↦ strtoumax_decimal h64
  have hfits : ∀ n < 2 ^ 64, (tokens size n).length = size → n < 256 ^ size := by
    intro n h64 hlength
    by_contra hlarge
    have hvalue' : 256 ^ size ≤ strtoumax (decimal n) :=
      (hvalue n h64).symm ▸ Nat.le_of_not_lt hlarge
    exact absurd hlength (Nat.ne_of_gt (lt_length_words_numToHexStr hsize hvalue'))
  constructor
  · intro n _
    rw [tokens, words_numToHexStr, numToHexStr_eq_pairs]
  · intro n h64 hn
    rw [tokens_eq_leDigits hsize hn h64, length_leDigits]
  · intro n h64 hn token htoken
    rw [tokens, words_numToHexStr, List.mem_reverse] at htoken
    refine ⟨?_, fun c hc ↦ isSome_digitValue_of_mem_printfHex c ((mem_of_mem_pairs htoken).2 c hc)⟩
    have hmem : token ∈ leDigits size n := by
      rwa [← tokens_eq_leDigits hsize hn h64, tokens, words_numToHexStr, List.mem_reverse]
    obtain ⟨m, rfl⟩ := mem_leDigits hmem
    rfl
  · intro n h64 hn
    rw [tokens_eq_leDigits hsize hn h64, sum_tokenValue_leDigits hn]
  · intro n h64 hn
    exact lt_length_words_numToHexStr hsize (by rwa [hvalue n h64])
  · intro m hm n hn hlength heq
    have htokens : tokens size m = tokens size n := congrArg words heq
    have hm' := hfits m hm hlength
    have hn' := hfits n hn (htokens ▸ hlength)
    calc
      m = ((leDigits size m).mapIdx fun i token ↦ tokenValue token * 256 ^ i).sum :=
        (sum_tokenValue_leDigits hm').symm
      _ = ((leDigits size n).mapIdx fun i token ↦ tokenValue token * 256 ^ i).sum := by
        rw [← tokens_eq_leDigits hsize hm' hm, htokens, tokens_eq_leDigits hsize hn' hn]
      _ = n := sum_tokenValue_leDigits hn'

/-- The width of an identity. -/
theorem numToHexStr_codec_identity : Codec 4 := numToHexStr_codec (by decide)

/-! ## The command -/

/-- The fields of a command line with six parts. -/
theorem words_six (a b c d e f : Text) :
    words (a ++ ' ' :: (b ++ ' ' :: (c ++ ' ' :: (d ++ ' ' :: (e ++ ' ' :: f))))) =
      words a ++ (words b ++ (words c ++ (words d ++ (words e ++ words f)))) := by
  have hblank : isBlank ' ' = true := rfl
  rw [words_append_blank _ _ hblank, words_append_blank _ _ hblank, words_append_blank _ _ hblank,
    words_append_blank _ _ hblank, words_append_blank _ _ hblank]

theorem words_bpftoolCmd (hpMapId bpfMapKey bpfMapValue : Text) :
    words (bpftoolCmd hpMapId bpfMapKey bpfMapValue) =
      mapUpdateWords ++ (words hpMapId ++ (keyHexWords ++ (words bpfMapKey ++
        (valueHexWords ++ words bpfMapValue)))) := by
  have hcommand : words "bpftool map update id".toList = mapUpdateWords := by decide +kernel
  have hkey : words "key hex".toList = keyHexWords := by decide +kernel
  have hvalue : words "value hex".toList = valueHexWords := by decide +kernel
  calc
    words (bpftoolCmd hpMapId bpfMapKey bpfMapValue)
        = words "bpftool map update id".toList ++ (words hpMapId ++ (words "key hex".toList ++
            (words bpfMapKey ++ (words "value hex".toList ++ words bpfMapValue)))) :=
      words_six _ _ _ _ _ _
    _ = mapUpdateWords ++ (words hpMapId ++ (keyHexWords ++ (words bpfMapKey ++
            (valueHexWords ++ words bpfMapValue)))) :=
      congrArg₂ _ hcommand (congrArg _ (congrArg₂ _ hkey (congrArg _ (congrArg (· ++ _) hvalue))))

theorem expectWords_append (expected args : List Text) :
    expectWords expected (expected ++ args) = some args := by
  simp [expectWords]

theorem take_of_expectWords {expected args rest : List Text}
    (h : expectWords expected args = some rest) : args.take expected.length = expected :=
  (Option.ite_none_right_eq_some.mp h).1

theorem parseBytes_leDigits (size n : ℕ) (args : List Text) :
    parseBytes size (leDigits size n ++ args) = some (leBuffer size n, args) := by
  have htake : (leDigits size n ++ args).take size = leDigits size n :=
    List.take_left' (length_leDigits size n)
  have hdrop : (leDigits size n ++ args).drop size = args :=
    List.drop_left' (length_leDigits size n)
  rw [parseBytes, htake, hdrop, mapM_strtoul16_leDigits, Option.bind_some,
    dif_pos (length_leBytes size n)]
  rfl

/-- Too many pieces leave one over. -/
theorem parseBytes_of_length_lt {size : ℕ} {args rest : List Text} {buffer : Buffer size}
    (hlength : size < args.length) (h : parseBytes size args = some (buffer, rest)) : rest ≠ [] := by
  obtain ⟨bytes, -, hbytes⟩ := Option.bind_eq_some_iff.mp h
  split at hbytes
  · obtain rfl : args.drop size = rest := (Prod.mk.inj (Option.some.inj hbytes)).2
    exact fun hnil ↦ absurd (List.drop_eq_nil_iff.mp hnil) (Nat.not_le.mpr hlength)
  · cases hbytes

/-- The update of one map with the bytes of a key and the pieces of a value. -/
theorem bpftoolMapUpdate_eq (hpMapId : Text) (g : ℕ) (value : List Text)
    (netidMap : HostProcessNetidMap) :
    bpftoolMapUpdate (mapUpdateWords ++ ([hpMapId] ++ (keyHexWords ++ (leDigits 8 g ++
        (valueHexWords ++ value))))) netidMap =
      (parseBytes 4 value).bind fun parsed ↦
        if parsed.2 = [] then netidMap.update (leBuffer 8 g) parsed.1 else none := by
  simp only [bpftoolMapUpdate, Option.bind_eq_bind, expectWords_append, Option.bind_some,
    List.singleton_append, List.tail_cons, parseBytes_leDigits]

/-- With one map, a run updates it with the bytes of both numbers in little-endian order, or fails
where the identity has more than four bytes. -/
theorem doEbpfMagic_eq_ite {hpMapId id : Text} (hid : words hpMapId = [id])
    (cgId networkIdentity : Text) (netidMap : HostProcessNetidMap) :
    doEbpfMagic hpMapId cgId networkIdentity netidMap =
      if strtoumax networkIdentity < 2 ^ 32 then
        netidMap.update (leBuffer 8 (strtoumax cgId))
          (leBuffer 4 (strtoumax networkIdentity))
      else none := by
  set g := strtoumax cgId with hg
  set n := strtoumax networkIdentity with hn
  have hkey : words (numToHexStr (2 * 8) cgId) = leDigits 8 g := by
    have hfits : strtoumax cgId < 256 ^ 8 := strtoumax_lt cgId
    rw [numToHexStr_eq (by decide) hfits, ← words_commandSubst,
      commandSubst_echo plain_of_mem_leDigits, words_intercalate plain_of_mem_leDigits]
  have hcmd : doEbpfMagic hpMapId cgId networkIdentity netidMap =
      (parseBytes 4 (words (numToHexStr (2 * 4) networkIdentity))).bind fun parsed ↦
        if parsed.2 = [] then netidMap.update (leBuffer 8 g) parsed.1 else none := by
    rw [doEbpfMagic, words_bpftoolCmd, words_commandSubst, words_commandSubst, hid]
    change bpftoolMapUpdate (mapUpdateWords ++ ([id] ++ (keyHexWords ++
      (words (numToHexStr (2 * 8) cgId) ++ (valueHexWords ++
        words (numToHexStr (2 * 4) networkIdentity)))))) netidMap = _
    rw [hkey, bpftoolMapUpdate_eq]
  rw [hcmd]
  by_cases hsmall : n < 2 ^ 32
  · have hvalue : words (numToHexStr (2 * 4) networkIdentity) = leDigits 4 n ++ [] := by
      have hfits : strtoumax networkIdentity < 256 ^ 4 := hsmall
      rw [numToHexStr_eq (by decide) hfits, ← words_commandSubst,
        commandSubst_echo plain_of_mem_leDigits, words_intercalate plain_of_mem_leDigits,
        List.append_nil]
    rw [if_pos hsmall, hvalue, parseBytes_leDigits, Option.bind_some, if_pos rfl]
  · have hmore : 4 < (words (numToHexStr (2 * 4) networkIdentity)).length :=
      lt_length_words_numToHexStr (by decide) (Nat.le_of_not_lt hsmall)
    rw [if_neg hsmall, Option.bind_eq_none_iff]
    intro parsed hparsed
    exact if_neg (parseBytes_of_length_lt hmore hparsed)

/-- Without a map, or with several, `bpftool` does not find its arguments. -/
theorem doEbpfMagic_eq_none {hpMapId : Text} (hnames : ∀ name ∈ words hpMapId, name ≠ "key".toList)
    (hlength : (words hpMapId).length ≠ 1) (cgId networkIdentity : Text)
    (netidMap : HostProcessNetidMap) :
    doEbpfMagic hpMapId cgId networkIdentity netidMap = none := by
  rw [doEbpfMagic, words_bpftoolCmd, bpftoolMapUpdate]
  simp only [Option.bind_eq_bind, expectWords_append, Option.bind_some, Option.bind_eq_none_iff]
  intro args hargs
  have hexpected := take_of_expectWords hargs
  cases hwords : words hpMapId with
  | nil =>
    rw [hwords] at hexpected
    cases hexpected
  | cons first names =>
    cases names with
    | nil =>
      rw [hwords] at hlength
      exact absurd rfl hlength
    | cons second names =>
      have hsecond : second ≠ "key".toList :=
        hnames second (hwords ▸ List.mem_cons_of_mem _ List.mem_cons_self)
      rw [hwords] at hexpected
      exact absurd (List.cons.inj hexpected).1 hsecond

/-- A run with a cgroup id below `2 ^ 64` and an identity below `2 ^ 32` updates the map with their
bytes in little-endian order. -/
theorem doEbpfMagic_eq (hpMapId : ℕ) {g n : ℕ} (hg : g < 2 ^ 64) (hn : n < 2 ^ 32)
    (netidMap : HostProcessNetidMap) :
    doEbpfMagic (decimal hpMapId) (decimal g) (decimal n) netidMap =
      netidMap.update (leBuffer 8 g) (leBuffer 4 n) := by
  have h64 : n < 2 ^ 64 := by omega
  rw [doEbpfMagic_eq_ite (plain_decimal hpMapId).words, strtoumax_decimal hg, strtoumax_decimal h64]
  exact if_pos hn

end EbpfPlayground.HostProcessId
