import EbpfPlayground.LibbpfCargo.Load

/-!
# Type tables as bytes

What a compiler writes into the BTF section: each type as a head of three words and what its kind
has behind it, with the names in a string table.  The reader reads back the types that were written.
-/

namespace EbpfPlayground.LibbpfCargo

open Fallible (ensure bind_eq_ok ok_bind ensure_eq_ok)

/-! ## Words -/

/-- Words in little-endian order. -/
def wordBytes (words : List ℕ) : List UInt8 := words.flatMap (Hex.leBytes 4)

@[simp]
theorem wordBytes_append (first second : List ℕ) :
    wordBytes (first ++ second) = wordBytes first ++ wordBytes second := List.flatMap_append

@[simp]
theorem length_wordBytes (words : List ℕ) : (wordBytes words).length = 4 * words.length := by
  induction words with
  | nil => rfl
  | cons word words ih =>
    rw [wordBytes, List.flatMap_cons, List.length_append, Hex.length_leBytes, ← wordBytes, ih,
      List.length_cons]
    omega

theorem ensure_of {ε : Type} {condition : Prop} [Decidable condition] (error : ε) (h : condition) :
    ensure condition error = .ok () := if_pos h

/-- Any word is read back. -/
theorem preadU32_wordBytes (words : List ℕ) {index off : ℕ} (before behind : List UInt8)
    (hindex : index < words.length) (hword : words[index] < 2 ^ 32)
    (hoff : off = before.length + 4 * index) :
    preadU32 (before ++ wordBytes words ++ behind) off = .ok words[index] := by
  have hwords : wordBytes words = wordBytes (words.take index) ++
      (Hex.leBytes 4 words[index] ++ wordBytes (words.drop (index + 1))) := by
    calc
      wordBytes words = wordBytes (words.take index ++ words.drop index) := by
        rw [List.take_append_drop]
      _ = wordBytes (words.take index) ++ wordBytes (words[index] :: words.drop (index + 1)) := by
        rw [wordBytes_append, List.drop_eq_getElem_cons hindex]
      _ = wordBytes (words.take index) ++
          (Hex.leBytes 4 words[index] ++ wordBytes (words.drop (index + 1))) := rfl
  have hdata : before ++ wordBytes words ++ behind = (before ++ wordBytes (words.take index)) ++
      (Hex.leBytes 4 words[index] ++ (wordBytes (words.drop (index + 1)) ++ behind)) := by
    rw [hwords]
    simp only [List.append_assoc]
  have hlength : (before ++ wordBytes (words.take index)).length = off := by
    rw [List.length_append, length_wordBytes, List.length_take, min_eq_left hindex.le, hoff]
  have hfits : off + 4 ≤ (before ++ wordBytes words ++ behind).length := by
    rw [List.length_append, List.length_append, length_wordBytes]
    omega
  rw [preadU32, ensure_of _ hfits, ok_bind, hdata, List.drop_left' hlength,
    List.take_left' (Hex.length_leBytes _ _), Hex.ofLeBytes_leBytes hword]

/-- A loop over records reads back the records. -/
theorem readMany_wordBytes {α : Type} {width : ℕ} {itemWords : α → List ℕ}
    (hwidth : ∀ item, (itemWords item).length = width) {read : List UInt8 → ℕ → Except LoadError α}
    {items : List α} (hread : ∀ item ∈ items, ∀ before behind,
      read (before ++ wordBytes (itemWords item) ++ behind) before.length = .ok item)
    (before behind : List UInt8) :
    readMany (4 * width) (read (before ++ wordBytes (items.flatMap itemWords) ++ behind)) items.length
      before.length = .ok items := by
  induction items generalizing before with
  | nil => rfl
  | cons item items ih =>
    rw [List.forall_mem_cons] at hread
    have hdata : before ++ wordBytes ((item :: items).flatMap itemWords) ++ behind =
        before ++ wordBytes (itemWords item) ++ (wordBytes (items.flatMap itemWords) ++ behind) := by
      rw [List.flatMap_cons, wordBytes_append]
      simp only [List.append_assoc]
    have hrest := ih hread.2 (before ++ wordBytes (itemWords item))
    rw [List.length_append, length_wordBytes, hwidth item] at hrest
    rw [List.length_cons, readMany, hdata, hread.1, ok_bind, ← List.append_assoc, hrest, ok_bind]

/-! ## What is written -/

/-- The second word of a type. -/
def infoWord (kind vlen : ℕ) (flag : Bool) : ℕ := vlen + kind * 2 ^ 24 + if flag then 2 ^ 31 else 0

/-- An `i32` as a word. -/
def ofI32 (value : ℤ) : ℕ := (value % 2 ^ 32).toNat

def BtfIntEncoding.word : BtfIntEncoding → ℕ
  | .none => 0
  | .signed => 1
  | .char => 2
  | .bool => 4

def BtfVarLinkage.word : BtfVarLinkage → ℕ
  | .static => 0
  | .globalAlloc => 1
  | .globalExtern => 2

/-- Members with bitfields among them are written in another way. -/
def hasBitfields (members : List BtfMember) : Bool := members.any fun m ↦ m.bitSize ≠ 0

/-- The members, values, parameters or variables of a type. -/
def BtfType.vlen : BtfType → ℕ
  | .struct t | .union t => t.members.length
  | .enum t => t.values.length
  | .funcProto _ params => params.length
  | .datasec t => t.vars.length
  | _ => 0

/-- The number of a kind, `BtfKind`. -/
def BtfType.kind : BtfType → ℕ
  | .void => 0
  | .int _ => 1
  | .ptr _ => 2
  | .array _ => 3
  | .struct _ => 4
  | .union _ => 5
  | .enum _ => 6
  | .fwd _ _ => 7
  | .typedef _ _ => 8
  | .volatile _ => 9
  | .const _ => 10
  | .restrict _ => 11
  | .func _ _ => 12
  | .funcProto _ _ => 13
  | .var _ => 14
  | .datasec _ => 15
  | .float _ _ => 16
  | .declTag _ _ _ => 17
  | .typeTag _ _ => 18

def BtfType.kindFlag : BtfType → Bool
  | .struct t | .union t => hasBitfields t.members
  | .fwd _ .union => true
  | _ => false

/-- The third word of a type. -/
def BtfType.sizeOrType : BtfType → ℕ
  | .void | .array _ | .fwd _ _ => 0
  | .int t => t.bytes
  | .ptr typeId | .typedef _ typeId | .volatile typeId | .const typeId | .restrict typeId | .func _ typeId
  | .funcProto typeId _ | .declTag _ typeId _ | .typeTag _ typeId => typeId
  | .struct t | .union t => t.size
  | .enum t => t.size
  | .var t => t.typeId
  | .datasec t => t.size
  | .float _ size => size

section

variable (offsetOf : Text → ℕ)

def memberWords (bits : Bool) (m : BtfMember) : List ℕ :=
  [offsetOf m.name, m.typeId, if bits then m.bitOffset + m.bitSize * 2 ^ 24 else m.bitOffset]

def valueWords (v : BtfEnumValue) : List ℕ := [offsetOf v.name, ofI32 v.value]

def paramWords (p : BtfFuncParam) : List ℕ := [offsetOf p.name, p.typeId]

def datasecVarWords (v : BtfDatasecVar) : List ℕ := [v.typeId, v.offset, v.size]

/-- Where the name of a type stands, or zero. -/
def BtfType.nameOff : BtfType → ℕ
  | .int t => offsetOf t.name
  | .struct t | .union t => offsetOf t.name
  | .enum t => offsetOf t.name
  | .fwd name _ | .typedef name _ | .func name _ | .float name _ | .declTag name _ _ | .typeTag name _ =>
    offsetOf name
  | .var t => offsetOf t.name
  | .datasec t => offsetOf t.name
  | _ => 0

/-- The head of a type. -/
def BtfType.raw (t : BtfType) : RawType where
  nameOff := t.nameOff offsetOf
  info := infoWord t.kind t.vlen t.kindFlag
  typeId := t.sizeOrType

def headWords (t : BtfType) : List ℕ :=
  [(t.raw offsetOf).nameOff, (t.raw offsetOf).info, (t.raw offsetOf).typeId]

/-- The words behind them. -/
def extraWords : BtfType → List ℕ
  | .int t => [t.bits + t.offset * 2 ^ 16 + t.encoding.word * 2 ^ 24]
  | .array t => [t.valTypeId, t.indexTypeId, t.nelems]
  | .struct t | .union t => t.members.flatMap (memberWords offsetOf (hasBitfields t.members))
  | .enum t => t.values.flatMap (valueWords offsetOf)
  | .funcProto _ params => params.flatMap (paramWords offsetOf)
  | .var t => [t.linkage.word]
  | .datasec t => t.vars.flatMap datasecVarWords
  | .declTag _ _ index => [ofI32 index]
  | _ => []

def typeBytes (t : BtfType) : List UInt8 := wordBytes (headWords offsetOf t ++ extraWords offsetOf t)

end

/-- The names that are written with a type. -/
def BtfType.names : BtfType → List Text
  | .int t => [t.name]
  | .struct t | .union t => t.name :: t.members.map BtfMember.name
  | .enum t => t.name :: t.values.map BtfEnumValue.name
  | .fwd name _ | .typedef name _ | .func name _ | .float name _ | .declTag name _ _ | .typeTag name _ =>
    [name]
  | .funcProto _ params => params.map BtfFuncParam.name
  | .var t => [t.name]
  | .datasec t => [t.name]
  | _ => []

/-- The fields of a type fit into the bits that they are written into. -/
def BtfType.InRange : BtfType → Prop
  | .void => False
  | .int t => t.bits < 256 ∧ t.offset < 256
  | .struct t => t.isStruct = true ∧
    (hasBitfields t.members = true → ∀ m ∈ t.members, m.bitOffset < 2 ^ 24 ∧ m.bitSize < 256)
  | .union t => t.isStruct = false ∧
    (hasBitfields t.members = true → ∀ m ∈ t.members, m.bitOffset < 2 ^ 24 ∧ m.bitSize < 256)
  | .enum t => ∀ v ∈ t.values, -2 ^ 31 ≤ v.value ∧ v.value < 2 ^ 31
  | .declTag _ _ index => -2 ^ 31 ≤ index ∧ index < 2 ^ 31
  | _ => True

/-- A type can be written with these strings. -/
structure Encodable (strings : List UInt8) (offsetOf : Text → ℕ) (t : BtfType) : Prop where
  inRange : t.InRange
  vlen_lt : t.vlen < 2 ^ 16
  word_lt : ∀ word ∈ headWords offsetOf t ++ extraWords offsetOf t, word < 2 ^ 32
  name : ∀ name ∈ t.names, getBtfStr strings (offsetOf name) = .ok name

/-- The type as it is read: a struct, union or enum without a name gets one. -/
def BtfType.withAnon (anonCount : ℕ) : BtfType → BtfType × ℕ
  | .struct t => (.struct { t with name := (nameOrAnon anonCount t.name).1 },
    (nameOrAnon anonCount t.name).2)
  | .union t => (.union { t with name := (nameOrAnon anonCount t.name).1 },
    (nameOrAnon anonCount t.name).2)
  | .enum t => (.enum { t with name := (nameOrAnon anonCount t.name).1 },
    (nameOrAnon anonCount t.name).2)
  | t => (t, anonCount)

/-! ## The fields of a word -/

theorem getVlen_infoWord {kind vlen : ℕ} {flag : Bool} (hvlen : vlen < 2 ^ 16) :
    getVlen (infoWord kind vlen flag) = vlen := by
  rw [getVlen, infoWord]
  split <;> omega

theorem getKind_infoWord {kind vlen : ℕ} {flag : Bool} (hkind : kind < 32) (hvlen : vlen < 2 ^ 16) :
    getKind (infoWord kind vlen flag) = kind := by
  rw [getKind, infoWord]
  split <;> omega

theorem getKindFlag_infoWord {kind vlen : ℕ} {flag : Bool} (hkind : kind < 32) (hvlen : vlen < 2 ^ 16) :
    getKindFlag (infoWord kind vlen flag) = flag := by
  rw [getKindFlag, infoWord]
  cases flag with
  | true =>
    rw [if_pos rfl]
    exact decide_eq_true (by omega)
  | false =>
    rw [if_neg (by decide)]
    exact decide_eq_false (by omega)

theorem toI32_ofI32 {value : ℤ} (hlow : -2 ^ 31 ≤ value) (hhigh : value < 2 ^ 31) :
    toI32 (ofI32 value) = value := by
  rw [toI32, ofI32]
  split <;> omega

theorem intEncoding_word (encoding : BtfIntEncoding) : intEncoding encoding.word = .ok encoding := by
  cases encoding <;> rfl

theorem varLinkage_word (linkage : BtfVarLinkage) : varLinkage linkage.word = .ok linkage := by
  cases linkage <;> rfl

/-! ## One type -/

section

variable {strings : List UInt8} {offsetOf : Text → ℕ}

theorem preadType_wordBytes {name info typeId : ℕ} (hname : name < 2 ^ 32) (hinfo : info < 2 ^ 32)
    (htypeId : typeId < 2 ^ 32) (extra : List ℕ) (behind : List UInt8) :
    preadType (wordBytes ([name, info, typeId] ++ extra) ++ behind) 0 = .ok ⟨name, info, typeId⟩ := by
  have hread (index : ℕ) (hindex : index < 3) (hword : [name, info, typeId][index] < 2 ^ 32) :
      preadU32 (wordBytes ([name, info, typeId] ++ extra) ++ behind) (0 + 4 * index) =
        .ok [name, info, typeId][index] := by
    have hall := preadU32_wordBytes [name, info, typeId] [] (wordBytes extra ++ behind)
      hindex hword rfl
    rwa [List.nil_append, ← List.append_assoc, ← wordBytes_append, List.length_nil] at hall
  rw [preadType, hread 0 (by decide) hname, ok_bind, hread 1 (by decide) hinfo, ok_bind,
    hread 2 (by decide) htypeId, ok_bind]
  rfl

theorem kind_lt (t : BtfType) : t.kind < 32 := by
  cases t <;> simp [BtfType.kind]

/-- The head of a type says which branch goes on with what stands behind it. -/
theorem loadType_raw {t : BtfType} (hvlen : t.vlen < 2 ^ 16)
    (hwords : ∀ word ∈ headWords offsetOf t, word < 2 ^ 32) (anonCount : ℕ) (behind : List UInt8) :
    loadType strings anonCount (typeBytes offsetOf t ++ behind) =
      loadKind strings anonCount (t.raw offsetOf) (wordBytes (extraWords offsetOf t) ++ behind) t.kind := by
  simp only [headWords, List.forall_mem_cons] at hwords
  obtain ⟨hname, hinfo, htypeId, -⟩ := hwords
  have hlength : (wordBytes (headWords offsetOf t)).length = 12 := length_wordBytes _
  have hkind : getKind (t.raw offsetOf).info = t.kind := getKind_infoWord (kind_lt t) hvlen
  have hhead := preadType_wordBytes hname hinfo htypeId (extraWords offsetOf t) behind
  rw [loadType, typeBytes, headWords, hhead, ok_bind, hkind, wordBytes_append, List.append_assoc,
    ← headWords, List.drop_left' hlength]

theorem loadMember_memberWords {bits : Bool} {m : BtfMember}
    (hwords : ∀ word ∈ memberWords offsetOf bits m, word < 2 ^ 32)
    (hname : getBtfStr strings (offsetOf m.name) = .ok m.name)
    (hbits : if bits then m.bitOffset < 2 ^ 24 else m.bitSize = 0) (before behind : List UInt8) :
    loadMember strings bits (before ++ wordBytes (memberWords offsetOf bits m) ++ behind) before.length =
      .ok m := by
  have hread (index off : ℕ) (hindex : index < 3) (hoff : off = before.length + 4 * index) :=
    preadU32_wordBytes _ before behind hindex (hwords _ (List.getElem_mem _)) hoff
  rw [loadMember, hread 0 before.length (by decide) rfl, ok_bind,
    hread 1 (before.length + 4) (by decide) rfl, ok_bind,
    hread 2 (before.length + 8) (by decide) rfl, ok_bind]
  change (getBtfStr strings (offsetOf m.name) >>= fun name ↦ _) = _
  rw [hname, ok_bind]
  cases bits with
  | true =>
    have hoffset : (m.bitOffset + m.bitSize * 2 ^ 24) % 2 ^ 24 = m.bitOffset := by
      rw [Nat.add_mul_mod_self_right, Nat.mod_eq_of_lt hbits]
    have hsize : (m.bitOffset + m.bitSize * 2 ^ 24) / 2 ^ 24 = m.bitSize := by
      rw [Nat.add_mul_div_right _ _ (by decide), Nat.div_eq_of_lt hbits, Nat.zero_add]
    change Except.ok (⟨m.name, m.typeId, (m.bitOffset + m.bitSize * 2 ^ 24) % 2 ^ 24,
      (m.bitOffset + m.bitSize * 2 ^ 24) / 2 ^ 24⟩ : BtfMember) = .ok m
    rw [hoffset, hsize]
  | false =>
    have hsize : m.bitSize = 0 := hbits
    change Except.ok (⟨m.name, m.typeId, m.bitOffset, 0⟩ : BtfMember) = .ok m
    rw [← hsize]

theorem loadEnumValue_valueWords {v : BtfEnumValue} (hwords : ∀ word ∈ valueWords offsetOf v, word < 2 ^ 32)
    (hname : getBtfStr strings (offsetOf v.name) = .ok v.name)
    (hvalue : -2 ^ 31 ≤ v.value ∧ v.value < 2 ^ 31) (before behind : List UInt8) :
    loadEnumValue strings (before ++ wordBytes (valueWords offsetOf v) ++ behind) before.length = .ok v := by
  have hread (index off : ℕ) (hindex : index < 2) (hoff : off = before.length + 4 * index) :=
    preadU32_wordBytes _ before behind hindex (hwords _ (List.getElem_mem _)) hoff
  rw [loadEnumValue, hread 0 before.length (by decide) rfl, ok_bind,
    hread 1 (before.length + 4) (by decide) rfl, ok_bind]
  change (getBtfStr strings (offsetOf v.name) >>= fun name ↦
    .ok (⟨name, toI32 (ofI32 v.value)⟩ : BtfEnumValue)) = _
  rw [hname, ok_bind, toI32_ofI32 hvalue.1 hvalue.2]

theorem loadParam_paramWords {p : BtfFuncParam} (hwords : ∀ word ∈ paramWords offsetOf p, word < 2 ^ 32)
    (hname : getBtfStr strings (offsetOf p.name) = .ok p.name) (before behind : List UInt8) :
    loadParam strings (before ++ wordBytes (paramWords offsetOf p) ++ behind) before.length = .ok p := by
  have hread (index off : ℕ) (hindex : index < 2) (hoff : off = before.length + 4 * index) :=
    preadU32_wordBytes _ before behind hindex (hwords _ (List.getElem_mem _)) hoff
  rw [loadParam, hread 0 before.length (by decide) rfl, ok_bind,
    hread 1 (before.length + 4) (by decide) rfl, ok_bind]
  change (getBtfStr strings (offsetOf p.name) >>= fun name ↦
    .ok (⟨name, p.typeId⟩ : BtfFuncParam)) = _
  rw [hname, ok_bind]

theorem loadDatasecVar_datasecVarWords {v : BtfDatasecVar}
    (hwords : ∀ word ∈ datasecVarWords v, word < 2 ^ 32) (before behind : List UInt8) :
    loadDatasecVar (before ++ wordBytes (datasecVarWords v) ++ behind) before.length = .ok v := by
  have hread (index off : ℕ) (hindex : index < 3) (hoff : off = before.length + 4 * index) :=
    preadU32_wordBytes _ before behind hindex (hwords _ (List.getElem_mem _)) hoff
  rw [loadDatasecVar, hread 0 before.length (by decide) rfl, ok_bind,
    hread 1 (before.length + 4) (by decide) rfl, ok_bind,
    hread 2 (before.length + 8) (by decide) rfl, ok_bind]
  rfl

theorem loadArray_wordBytes {t : BtfArray} (hwords : ∀ word ∈ extraWords offsetOf (.array t), word < 2 ^ 32)
    (behind : List UInt8) :
    loadArray (wordBytes (extraWords offsetOf (.array t)) ++ behind) = .ok (.array t) := by
  have hread (index off : ℕ) (hindex : index < 3) (hoff : off = 0 + 4 * index) :=
    preadU32_wordBytes _ [] behind hindex (hwords _ (List.getElem_mem _)) hoff
  rw [← List.nil_append (wordBytes _), loadArray, hread 0 0 (by decide) rfl, ok_bind,
    hread 1 4 (by decide) rfl, ok_bind, hread 2 8 (by decide) rfl, ok_bind]
  rfl

theorem preadU32_first {word : ℕ} (hword : word < 2 ^ 32) (behind : List UInt8) :
    preadU32 (wordBytes [word] ++ behind) 0 = .ok word :=
  preadU32_wordBytes [word] [] behind Nat.one_pos hword rfl

/-- The records of a type are read back. -/
theorem readMany_extraWords {α : Type} (width : ℕ) (itemWords : α → List ℕ)
    (hwidth : ∀ item, (itemWords item).length = width) {read : List UInt8 → ℕ → Except LoadError α}
    {items : List α} (hread : ∀ item ∈ items, ∀ before behind,
      read (before ++ wordBytes (itemWords item) ++ behind) before.length = .ok item)
    (behind : List UInt8) :
    readMany (4 * width) (read (wordBytes (items.flatMap itemWords) ++ behind)) items.length 0 = .ok items :=
  readMany_wordBytes hwidth hread [] behind

/-- A name that stands in the head. -/
theorem Encodable.getBtfStr_nameOff {t : BtfType} {name : Text} (h : Encodable strings offsetOf t)
    (hname : name ∈ t.names) (hoff : t.nameOff offsetOf = offsetOf name) :
    getBtfStr strings (t.raw offsetOf).nameOff = .ok name := by
  change getBtfStr strings (t.nameOff offsetOf) = .ok name
  rw [hoff]
  exact h.name name hname

theorem Encodable.getVlen_raw {t : BtfType} (h : Encodable strings offsetOf t) :
    getVlen (t.raw offsetOf).info = t.vlen := getVlen_infoWord h.vlen_lt

theorem Encodable.getKindFlag_raw {t : BtfType} (h : Encodable strings offsetOf t) :
    getKindFlag (t.raw offsetOf).info = t.kindFlag := getKindFlag_infoWord (kind_lt t) h.vlen_lt

theorem Encodable.extra_lt {t : BtfType} (h : Encodable strings offsetOf t) :
    ∀ word ∈ extraWords offsetOf t, word < 2 ^ 32 :=
  fun word hword ↦ h.word_lt word (List.mem_append_right _ hword)

theorem loadInt_extraWords {t : BtfInt} (h : Encodable strings offsetOf (.int t)) (behind : List UInt8) :
    loadInt strings ((BtfType.int t).raw offsetOf) (wordBytes (extraWords offsetOf (.int t)) ++ behind) =
      .ok (.int t) := by
  obtain ⟨hbits, hoffset⟩ := h.inRange
  have hword := preadU32_first (h.extra_lt _ (List.mem_singleton_self _)) behind
  have hencoding : t.encoding.word < 16 := by cases t.encoding <;> decide
  rw [loadInt, extraWords, hword, ok_bind, h.getBtfStr_nameOff (List.mem_singleton_self _) rfl, ok_bind]
  have hkind : (t.bits + t.offset * 2 ^ 16 + t.encoding.word * 2 ^ 24) / 2 ^ 24 % 16 = t.encoding.word := by
    omega
  have hoff : (t.bits + t.offset * 2 ^ 16 + t.encoding.word * 2 ^ 24) / 2 ^ 16 % 256 = t.offset := by
    omega
  have hlow : (t.bits + t.offset * 2 ^ 16 + t.encoding.word * 2 ^ 24) % 256 = t.bits := by
    omega
  rw [hkind, hoff, hlow, intEncoding_word, ok_bind]

/-- The members of a struct or union are read back. -/
theorem loadMembers_extraWords {t : BtfType} {composite : BtfComposite} (h : Encodable strings offsetOf t)
    (ht : t = .struct composite ∨ t = .union composite) (behind : List UInt8) :
    loadMembers strings (t.raw offsetOf) (wordBytes (extraWords offsetOf t) ++ behind) =
      .ok composite.members := by
  have hextra : extraWords offsetOf t =
      composite.members.flatMap (memberWords offsetOf (hasBitfields composite.members)) := by
    rcases ht with rfl | rfl <;> rfl
  have hnames : ∀ m ∈ composite.members, m.name ∈ t.names := by
    rcases ht with rfl | rfl <;> exact fun m hm ↦ List.mem_cons_of_mem _ (List.mem_map_of_mem hm)
  have hbits : ∀ m ∈ composite.members,
      if hasBitfields composite.members then m.bitOffset < 2 ^ 24 else m.bitSize = 0 := by
    have hrange : hasBitfields composite.members = true →
        ∀ m ∈ composite.members, m.bitOffset < 2 ^ 24 ∧ m.bitSize < 256 := by
      rcases ht with rfl | rfl <;> exact h.inRange.2
    intro m hm
    split
    · next hbitfields => exact (hrange hbitfields m hm).1
    · next hbitfields =>
      rw [Bool.not_eq_true, hasBitfields, List.any_eq_false] at hbitfields
      simpa using hbitfields m hm
  have hflag : t.kindFlag = hasBitfields composite.members := by
    rcases ht with rfl | rfl <;> rfl
  have hvlen : t.vlen = composite.members.length := by
    rcases ht with rfl | rfl <;> rfl
  have hlt := h.extra_lt
  rw [hextra] at hlt
  rw [loadMembers, h.getKindFlag_raw, h.getVlen_raw, hflag, hvlen, hextra]
  refine readMany_extraWords 3 _ (fun _ ↦ rfl) (fun m hm before behind ↦ ?_) behind
  exact loadMember_memberWords (fun word hword ↦ hlt word (List.mem_flatMap.mpr ⟨m, hm, hword⟩))
    (h.name _ (hnames m hm)) (hbits m hm) before behind

theorem loadComposite_extraWords {t : BtfType} {composite : BtfComposite} (h : Encodable strings offsetOf t)
    (ht : t = .struct composite ∨ t = .union composite) {isStruct : Bool}
    (hisStruct : composite.isStruct = isStruct) (anonCount : ℕ) (behind : List UInt8) :
    loadComposite strings anonCount isStruct (t.raw offsetOf)
        (wordBytes (extraWords offsetOf t) ++ behind) =
      .ok ({ composite with name := (nameOrAnon anonCount composite.name).1 },
        (nameOrAnon anonCount composite.name).2) := by
  have hname : getBtfStr strings (t.raw offsetOf).nameOff = .ok composite.name := by
    rcases ht with rfl | rfl <;> exact h.getBtfStr_nameOff List.mem_cons_self rfl
  have hsize : (t.raw offsetOf).typeId = composite.size := by
    rcases ht with rfl | rfl <;> rfl
  rw [loadComposite, hname, ok_bind, loadMembers_extraWords h ht, ok_bind, hsize, ← hisStruct]

theorem loadEnum_extraWords {t : BtfEnum} (h : Encodable strings offsetOf (.enum t)) (anonCount : ℕ)
    (behind : List UInt8) :
    loadEnum strings anonCount ((BtfType.enum t).raw offsetOf)
        (wordBytes (extraWords offsetOf (.enum t)) ++ behind) =
      .ok ({ t with name := (nameOrAnon anonCount t.name).1 }, (nameOrAnon anonCount t.name).2) := by
  have hvalues : readMany 8
      (loadEnumValue strings (wordBytes (t.values.flatMap (valueWords offsetOf)) ++ behind))
      t.values.length 0 = .ok t.values := by
    refine readMany_extraWords 2 (valueWords offsetOf) (fun _ ↦ rfl) (fun v hv before behind ↦ ?_) behind
    exact loadEnumValue_valueWords (fun word hword ↦ h.extra_lt word (List.mem_flatMap.mpr ⟨v, hv, hword⟩))
      (h.name _ (List.mem_cons_of_mem _ (List.mem_map_of_mem hv))) (h.inRange v hv) before behind
  rw [loadEnum, h.getBtfStr_nameOff List.mem_cons_self rfl, ok_bind, h.getVlen_raw]
  change (readMany 8 (loadEnumValue strings (wordBytes (t.values.flatMap (valueWords offsetOf)) ++ behind))
    t.values.length 0 >>= fun values ↦ _) = _
  rw [hvalues, ok_bind]
  rfl

theorem loadFuncProto_extraWords {ret : ℕ} {params : List BtfFuncParam}
    (h : Encodable strings offsetOf (.funcProto ret params)) (behind : List UInt8) :
    loadFuncProto strings ((BtfType.funcProto ret params).raw offsetOf)
      (wordBytes (extraWords offsetOf (.funcProto ret params)) ++ behind) = .ok (.funcProto ret params) := by
  have hparams : readMany 8 (loadParam strings (wordBytes (params.flatMap (paramWords offsetOf)) ++ behind))
      params.length 0 = .ok params := by
    refine readMany_extraWords 2 (paramWords offsetOf) (fun _ ↦ rfl) (fun p hp before behind ↦ ?_) behind
    exact loadParam_paramWords (fun word hword ↦ h.extra_lt word (List.mem_flatMap.mpr ⟨p, hp, hword⟩))
      (h.name _ (List.mem_map_of_mem hp)) before behind
  rw [loadFuncProto, h.getVlen_raw]
  change (readMany 8 (loadParam strings (wordBytes (params.flatMap (paramWords offsetOf)) ++ behind))
    params.length 0 >>= fun params ↦ _) = _
  rw [hparams, ok_bind]
  rfl

theorem loadVar_extraWords {t : BtfVar} (h : Encodable strings offsetOf (.var t)) (behind : List UInt8) :
    loadVar strings ((BtfType.var t).raw offsetOf) (wordBytes (extraWords offsetOf (.var t)) ++ behind) =
      .ok (.var t) := by
  have hword := preadU32_first (h.extra_lt _ (List.mem_singleton_self _)) behind
  rw [loadVar, extraWords, hword, ok_bind, h.getBtfStr_nameOff (List.mem_singleton_self _) rfl, ok_bind,
    varLinkage_word, ok_bind]
  rfl

theorem loadDatasec_extraWords {t : BtfDatasec} (h : Encodable strings offsetOf (.datasec t))
    (behind : List UInt8) :
    loadDatasec strings ((BtfType.datasec t).raw offsetOf)
      (wordBytes (extraWords offsetOf (.datasec t)) ++ behind) = .ok (.datasec t) := by
  have hvars : readMany 12 (loadDatasecVar (wordBytes (t.vars.flatMap datasecVarWords) ++ behind))
      t.vars.length 0 = .ok t.vars := by
    refine readMany_extraWords 3 datasecVarWords (fun _ ↦ rfl) (fun v hv before behind ↦ ?_) behind
    exact loadDatasecVar_datasecVarWords
      (fun word hword ↦ h.extra_lt word (List.mem_flatMap.mpr ⟨v, hv, hword⟩)) before behind
  rw [loadDatasec, h.getVlen_raw]
  change (readMany 12 (loadDatasecVar (wordBytes (t.vars.flatMap datasecVarWords) ++ behind))
    t.vars.length 0 >>= fun vars ↦ _) = _
  rw [hvars, ok_bind, h.getBtfStr_nameOff (List.mem_singleton_self _) rfl, ok_bind]
  rfl

theorem loadDeclTag_extraWords {name : Text} {next : ℕ} {index : ℤ}
    (h : Encodable strings offsetOf (.declTag name next index)) (behind : List UInt8) :
    loadDeclTag strings ((BtfType.declTag name next index).raw offsetOf)
      (wordBytes (extraWords offsetOf (.declTag name next index)) ++ behind) =
        .ok (.declTag name next index) := by
  obtain ⟨hlow, hhigh⟩ := h.inRange
  have hword := preadU32_first (h.extra_lt _ (List.mem_singleton_self _)) behind
  rw [loadDeclTag, extraWords, hword, ok_bind, h.getBtfStr_nameOff (List.mem_singleton_self _) rfl, ok_bind,
    toI32_ofI32 hlow hhigh]
  rfl

/-- A type is read back, and one without a name gets its number. -/
theorem loadType_typeBytes {t : BtfType} (h : Encodable strings offsetOf t) (anonCount : ℕ)
    (behind : List UInt8) :
    loadType strings anonCount (typeBytes offsetOf t ++ behind) = .ok (t.withAnon anonCount) := by
  rw [loadType_raw h.vlen_lt fun word hword ↦ h.word_lt word (List.mem_append_left _ hword)]
  cases t with
  | void => exact h.inRange.elim
  | int t => exact bind_eq_ok.mpr ⟨_, loadInt_extraWords h behind, rfl⟩
  | ptr _ | volatile _ | const _ | restrict _ => rfl
  | array t =>
    exact bind_eq_ok.mpr ⟨_, loadArray_wordBytes h.extra_lt behind, rfl⟩
  | struct t =>
    exact bind_eq_ok.mpr ⟨_, loadComposite_extraWords h (.inl rfl) h.inRange.1 anonCount behind, rfl⟩
  | union t =>
    exact bind_eq_ok.mpr ⟨_, loadComposite_extraWords h (.inr rfl) h.inRange.1 anonCount behind, rfl⟩
  | enum t => exact bind_eq_ok.mpr ⟨_, loadEnum_extraWords h anonCount behind, rfl⟩
  | fwd name kind =>
    have hname := h.getBtfStr_nameOff (List.mem_singleton_self _) rfl
    have hflag := h.getKindFlag_raw
    refine bind_eq_ok.mpr ⟨.fwd name kind, bind_eq_ok.mpr ⟨name, hname, ?_⟩, rfl⟩
    rw [hflag]
    cases kind <;> rfl
  | typedef name _ | func name _ | float name _ | typeTag name _ =>
    have hname := h.getBtfStr_nameOff (List.mem_singleton_self _) rfl
    exact bind_eq_ok.mpr ⟨_, bind_eq_ok.mpr ⟨name, hname, rfl⟩, rfl⟩
  | funcProto ret params => exact bind_eq_ok.mpr ⟨_, loadFuncProto_extraWords h behind, rfl⟩
  | var t => exact bind_eq_ok.mpr ⟨_, loadVar_extraWords h behind, rfl⟩
  | datasec t => exact bind_eq_ok.mpr ⟨_, loadDatasec_extraWords h behind, rfl⟩
  | declTag name next index => exact bind_eq_ok.mpr ⟨_, loadDeclTag_extraWords h behind, rfl⟩

theorem length_typeBytes_pos (offsetOf : Text → ℕ) (t : BtfType) : 0 < (typeBytes offsetOf t).length := by
  rw [typeBytes, length_wordBytes, List.length_append]
  exact Nat.mul_pos (by decide) (Nat.add_pos_left (by decide : 0 < 3) _)

@[simp]
theorem typeSize_withAnon (t : BtfType) (anonCount : ℕ) :
    typeSize (t.withAnon anonCount).1 = typeSize t := by
  cases t <;> rfl

/-- The reader goes on behind the bytes of the type. -/
theorem length_typeBytes {t : BtfType} (h : t.InRange) (offsetOf : Text → ℕ) :
    (typeBytes offsetOf t).length = typeSize t := by
  rw [typeBytes, length_wordBytes, List.length_append]
  change 4 * (3 + _) = _
  cases t with
  | void => exact h.elim
  | struct t | union t =>
    have hlength : (extraWords offsetOf (.struct t)).length = 3 * t.members.length := by
      simp [extraWords, memberWords, Nat.mul_comm]
    change 4 * (3 + (extraWords offsetOf (.struct t)).length) = 12 + t.members.length * 12
    rw [hlength]
    ring
  | enum t =>
    have hlength : (extraWords offsetOf (.enum t)).length = 2 * t.values.length := by
      simp [extraWords, valueWords, Nat.mul_comm]
    change _ = 12 + t.values.length * 8
    rw [hlength]
    ring
  | funcProto ret params =>
    have hlength : (extraWords offsetOf (.funcProto ret params)).length = 2 * params.length := by
      simp [extraWords, paramWords, Nat.mul_comm]
    change _ = 12 + params.length * 8
    rw [hlength]
    ring
  | datasec t =>
    have hlength : (extraWords offsetOf (.datasec t)).length = 3 * t.vars.length := by
      simp [extraWords, datasecVarWords, Nat.mul_comm]
    change _ = 12 + t.vars.length * 12
    rw [hlength]
    ring
  | _ => rfl

/-! ## The whole table -/

/-- The types as they are read: the numbers of the made-up names go on from type to type. -/
def nameAll : ℕ → List BtfType → List BtfType
  | _, [] => []
  | anonCount, t :: types => (t.withAnon anonCount).1 :: nameAll (t.withAnon anonCount).2 types

theorem loadTypes_typeBytes {types : List BtfType} (h : ∀ t ∈ types, Encodable strings offsetOf t)
    (before : List UInt8) {fuel : ℕ} (hfuel : types.length ≤ fuel) (anonCount : ℕ) :
    loadTypes strings (before ++ types.flatMap (typeBytes offsetOf)) fuel anonCount before.length =
      .ok (nameAll anonCount types) := by
  induction types generalizing before fuel anonCount with
  | nil =>
    have hend : ¬before.length < (before ++ ([] : List BtfType).flatMap (typeBytes offsetOf)).length := by
      simp
    cases fuel with
    | zero => rw [loadTypes, if_neg hend, nameAll]
    | succ fuel => rw [loadTypes, if_neg hend, nameAll]
  | cons t types ih =>
    rw [List.forall_mem_cons] at h
    obtain ⟨fuel, rfl⟩ := Nat.exists_eq_add_one_of_ne_zero (Nat.ne_zero_of_lt hfuel)
    have hsize : typeSize (t.withAnon anonCount).1 = (typeBytes offsetOf t).length := by
      rw [typeSize_withAnon, length_typeBytes h.1.inRange]
    have hpos := length_typeBytes_pos offsetOf t
    have hmore : before.length < (before ++ (t :: types).flatMap (typeBytes offsetOf)).length := by
      rw [List.flatMap_cons, List.length_append, List.length_append]
      omega
    have hrest := ih h.2 (before ++ typeBytes offsetOf t) (Nat.le_of_succ_le_succ hfuel)
      (t.withAnon anonCount).2
    rw [List.length_append, List.append_assoc] at hrest
    rw [loadTypes, if_pos hmore, List.drop_left, List.flatMap_cons, loadType_typeBytes h.1, ok_bind]
    change (loadTypes strings _ fuel (t.withAnon anonCount).2
      (before.length + typeSize (t.withAnon anonCount).1) >>= fun types ↦ _) = _
    rw [hsize, hrest, ok_bind]
    rfl

end

end EbpfPlayground.LibbpfCargo
