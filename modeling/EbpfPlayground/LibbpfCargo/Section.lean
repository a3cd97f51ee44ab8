import EbpfPlayground.LibbpfCargo.Closure
import EbpfPlayground.LibbpfCargo.Encode

/-!
# The BTF section

A header, the types and the strings.  The reader gives back the table that was written, with names
made up for the structs, unions and enums that have none.
-/

namespace EbpfPlayground.LibbpfCargo

open Fallible (ensure bind_eq_ok ok_bind ensure_eq_ok)

/-! ## Strings -/

/-- The names one after the other, each with a zero byte behind it. -/
def stringTable (names : List Text) : List UInt8 := names.flatMap fun name ↦ Text.asBytes name ++ [0]

/-- Where a name stands. -/
def nameOffset : List Text → Text → ℕ
  | [], _ => 0
  | first :: names, name =>
    if first = name then 0 else (Text.asBytes first).length + 1 + nameOffset names name

theorem drop_stringTable {names : List Text} {name : Text} (h : name ∈ names) :
    ∃ behind, (stringTable names).drop (nameOffset names name) = Text.asBytes name ++ 0 :: behind := by
  induction names with
  | nil => cases h
  | cons first names ih =>
    have htable : stringTable (first :: names) = (Text.asBytes first ++ [0]) ++ stringTable names :=
      List.flatMap_cons
    rw [htable, nameOffset]
    split
    · next heq =>
      subst heq
      exact ⟨stringTable names, by rw [List.drop_zero, List.append_assoc, List.singleton_append]⟩
    · next hne =>
      obtain ⟨behind, hbehind⟩ := ih ((List.mem_cons.mp h).resolve_left (Ne.symm hne))
      refine ⟨behind, ?_⟩
      have hlength : (Text.asBytes first ++ [0]).length = (Text.asBytes first).length + 1 :=
        List.length_append
      rw [← List.drop_drop, List.drop_left' hlength, hbehind]

/-- A name that is in the table is found where it stands. -/
theorem getBtfStr_stringTable {names : List Text} {name : Text} (h : name ∈ names)
    (hzero : 0 ∉ Text.asBytes name) : getBtfStr (stringTable names) (nameOffset names name) = .ok name := by
  obtain ⟨behind, hdrop⟩ := drop_stringTable h
  have hlt : nameOffset names name < (stringTable names).length := by
    by_contra hle
    rw [List.drop_eq_nil_of_le (Nat.le_of_not_lt hle)] at hdrop
    exact absurd hdrop.symm (List.append_ne_nil_of_right_ne_nil _ (List.cons_ne_nil _ _))
  have hmem : 0 ∈ (stringTable names).drop (nameOffset names name) := by
    rw [hdrop]
    exact List.mem_append_right _ List.mem_cons_self
  rw [getBtfStr, ensure_of _ hlt, ok_bind, ensure_of _ hmem, ok_bind, hdrop,
    CString.cstr_append_zero hzero, Text.fromUtf8_asBytes]

/-! ## Header and parts -/

/-- `struct btf_header` with the types and the strings behind it. -/
def headerBytes (typeLen strLen : ℕ) : List UInt8 :=
  Hex.leBytes 2 btfMagic ++ Hex.leBytes 1 btfVersion ++ Hex.leBytes 1 0 ++
    wordBytes [24, 0, typeLen, typeLen, strLen]

/-- The names of a table; the empty one stands first. -/
def tableNames (types : List BtfType) : List Text := [] :: types.flatMap BtfType.names

def typeSection (types : List BtfType) : List UInt8 :=
  types.flatMap (typeBytes (nameOffset (tableNames types)))

/-- The section that a compiler writes. -/
def btfBytes (types : List BtfType) : List UInt8 :=
  headerBytes (typeSection types).length (stringTable (tableNames types)).length ++ typeSection types ++
    stringTable (tableNames types)

/-- A table of types that fits into a section. -/
structure Writable (types : List BtfType) : Prop where
  inRange : ∀ t ∈ types, t.InRange
  vlen_lt : ∀ t ∈ types, t.vlen < 2 ^ 16
  word_lt : ∀ t ∈ types, ∀ word ∈ headWords (nameOffset (tableNames types)) t ++
    extraWords (nameOffset (tableNames types)) t, word < 2 ^ 32
  zero_notMem : ∀ t ∈ types, ∀ name ∈ t.names, 0 ∉ Text.asBytes name
  length_lt : (btfBytes types).length < 2 ^ 32

theorem Writable.encodable {types : List BtfType} (h : Writable types) {t : BtfType} (ht : t ∈ types) :
    Encodable (stringTable (tableNames types)) (nameOffset (tableNames types)) t where
  inRange := h.inRange t ht
  vlen_lt := h.vlen_lt t ht
  word_lt := h.word_lt t ht
  name name hname := getBtfStr_stringTable
    (List.mem_cons_of_mem _ (List.mem_flatMap.mpr ⟨t, ht, hname⟩)) (h.zero_notMem t ht name hname)

theorem length_headerBytes (typeLen strLen : ℕ) : (headerBytes typeLen strLen).length = 24 := by
  rw [headerBytes, List.length_append, length_wordBytes]
  rfl

theorem sectionOf_append (before part behind : List UInt8) {hdrLen off : ℕ} (error : LoadError)
    (hstart : hdrLen + off = before.length) (hlt : before.length < 2 ^ 32) :
    sectionOf (before ++ part ++ behind) hdrLen off part.length error = .ok part := by
  have hfits : before.length + part.length ≤ (before ++ part ++ behind).length := by
    rw [List.length_append, List.length_append]
    omega
  rw [sectionOf, hstart, wrap32_of_lt hlt]
  change (ensure (before.length + part.length ≤ _) error >>= fun _ ↦ _) = _
  rw [ensure_of _ hfits, ok_bind, List.append_assoc, List.drop_left, List.take_left]

theorem length_le_typeSection (offsetOf : Text → ℕ) (types : List BtfType) :
    types.length ≤ (types.flatMap (typeBytes offsetOf)).length := by
  induction types with
  | nil => exact le_rfl
  | cons t types ih =>
    have hpos := length_typeBytes_pos offsetOf t
    rw [List.length_cons, List.flatMap_cons, List.length_append]
    omega

/-- The header leads to the types and to the strings. -/
theorem sections_headerBytes (typeData strings : List UInt8)
    (hlt : 24 + typeData.length + strings.length < 2 ^ 32) :
    sections (headerBytes typeData.length strings.length ++ typeData ++ strings) =
      .ok (strings, typeData) := by
  have hheader := length_headerBytes typeData.length strings.length
  have hread (index off : ℕ) (hindex : index < 5) (hoff : off = 4 + 4 * index)
      (hword : [24, 0, typeData.length, typeData.length, strings.length][index] < 2 ^ 32) :=
    preadU32_wordBytes _ (Hex.leBytes 2 btfMagic ++ Hex.leBytes 1 btfVersion ++ Hex.leBytes 1 0)
      (typeData ++ strings) hindex hword hoff
  rw [← List.append_assoc, ← headerBytes] at hread
  generalize hdata : headerBytes typeData.length strings.length ++ typeData ++ strings = data at hread ⊢
  have hlong : 24 ≤ data.length := by
    rw [← hdata, List.length_append, List.length_append, hheader]
    omega
  have hmagic : Hex.ofLeBytes (data.take 2) = btfMagic := by
    have htake : data.take 2 = Hex.leBytes 2 btfMagic := by
      rw [← hdata]
      rfl
    rw [htake, Hex.ofLeBytes_leBytes (by decide)]
  have hversion : Hex.ofLeBytes ((data.drop 2).take 1) = btfVersion := by
    have htake : (data.drop 2).take 1 = Hex.leBytes 1 btfVersion := by
      rw [← hdata]
      rfl
    rw [htake, Hex.ofLeBytes_leBytes (by decide)]
  have hstrings : sectionOf data 24 typeData.length strings.length .stringTableOutOfBounds = .ok strings := by
    have hbefore : (headerBytes typeData.length strings.length ++ typeData).length =
        24 + typeData.length := by
      rw [List.length_append, hheader]
    rw [← hdata, ← List.append_nil (_ ++ strings)]
    exact sectionOf_append _ _ _ _ hbefore.symm (by omega)
  have htypes : sectionOf data 24 0 typeData.length .typeTableOutOfBounds = .ok typeData := by
    rw [← hdata]
    exact sectionOf_append _ _ _ _ hheader.symm (by omega)
  rw [sections, ensure_of _ hlong, ok_bind, ensure_of _ hmagic, ok_bind]
  change (ensure (Hex.ofLeBytes ((data.drop 2).take 1) = btfVersion) _ >>= fun _ ↦ _) = _
  rw [ensure_of _ hversion, ok_bind, hread 0 4 (by decide) rfl (by decide : 24 < 2 ^ 32), ok_bind,
    hread 1 8 (by decide) rfl (by decide : 0 < 2 ^ 32), ok_bind,
    hread 2 12 (by decide) rfl (by omega : typeData.length < 2 ^ 32), ok_bind,
    hread 3 16 (by decide) rfl (by omega : typeData.length < 2 ^ 32), ok_bind,
    hread 4 20 (by decide) rfl (by omega : strings.length < 2 ^ 32), ok_bind]
  change (sectionOf data 24 typeData.length strings.length .stringTableOutOfBounds >>= fun strings ↦
    sectionOf data 24 0 typeData.length .typeTableOutOfBounds >>= fun typeData ↦ _) = _
  rw [hstrings, ok_bind, htypes, ok_bind]

theorem Writable.loadTypes_eq {types : List BtfType} (h : Writable types) :
    loadTypes (stringTable (tableNames types)) (typeSection types) (typeSection types).length 0 0 =
      .ok (nameAll 0 types) := by
  have hload := loadTypes_typeBytes (fun t ht ↦ h.encodable ht) []
    (length_le_typeSection (nameOffset (tableNames types)) types) 0
  rwa [List.nil_append, List.length_nil, ← typeSection] at hload

theorem Writable.bytes_lt {types : List BtfType} (h : Writable types) :
    24 + (typeSection types).length + (stringTable (tableNames types)).length < 2 ^ 32 := by
  have hlt := h.length_lt
  rwa [btfBytes, List.length_append, List.length_append, length_headerBytes] at hlt

theorem btfBytes_ne_nil (types : List BtfType) : btfBytes types ≠ [] := by
  have hheader := length_headerBytes (typeSection types).length (stringTable (tableNames types)).length
  intro hnil
  rw [btfBytes, List.append_eq_nil_iff, List.append_eq_nil_iff] at hnil
  rw [hnil.1.1] at hheader
  cases hheader

theorem Writable.loadBtf_eq {types : List BtfType} (h : Writable types) {ptrSize : ℕ}
    (hptrSize : ptrSize ≠ 0) : loadBtf ptrSize (btfBytes types) = .ok ⟨.void :: nameAll 0 types, ptrSize⟩ := by
  rw [loadBtf, ensure_of _ hptrSize, ok_bind, ensure_of _ (btfBytes_ne_nil types), ok_bind, btfBytes,
    sections_headerBytes _ _ h.bytes_lt, ok_bind]
  change (loadTypes _ _ _ 0 0 >>= fun types ↦ _) = _
  rw [h.loadTypes_eq, ok_bind]

/-- The table that was written is read back, with names made up for what has none. -/
theorem loadBtf_btfBytes {types : List BtfType} (h : Writable types) {ptrSize : ℕ}
    (hptrSize : ptrSize ≠ 0) :
    loadBtf ptrSize (btfBytes types) = .ok ⟨.void :: nameAll 0 types, ptrSize⟩ :=
  h.loadBtf_eq hptrSize

theorem writable_podsnoopBtf : Writable podsnoopBtf.types.tail where
  inRange := by simp [podsnoopBtf, typedefOf, BtfType.InRange, hasBitfields]
  vlen_lt := by decide
  word_lt := by decide +kernel
  zero_notMem := by decide +kernel
  length_lt := by decide +kernel

theorem loadBtf_btfBytes_demo : loadBtf 8 (btfBytes podsnoopBtf.types.tail) = .ok podsnoopBtf :=
  loadBtf_btfBytes writable_podsnoopBtf (by decide)

/-! ## What is accepted -/

theorem preadU32_eq_ok {data : List UInt8} {off word : ℕ} (h : preadU32 data off = .ok word) :
    off + 4 ≤ data.length ∧ word < 2 ^ 32 := by
  obtain ⟨_, hfits, hword⟩ := bind_eq_ok.mp h
  refine ⟨ensure_eq_ok.mp hfits, ?_⟩
  obtain rfl := Except.ok.inj hword
  have hlt : ∀ digit ∈ ((data.drop off).take 4).map UInt8.toNat, digit < 256 := by
    intro digit hdigit
    obtain ⟨byte, -, rfl⟩ := List.mem_map.mp hdigit
    exact byte.toNat_lt
  calc
    Hex.ofLeBytes ((data.drop off).take 4) < 256 ^ (((data.drop off).take 4).map UInt8.toNat).length :=
      Nat.ofDigits_lt_base_pow_length (by decide) hlt
    _ ≤ 256 ^ 4 := Nat.pow_le_pow_right (by decide) (by
      rw [List.length_map]
      exact List.length_take_le _ _)
    _ = 2 ^ 32 := by decide

/-- A loop that goes through has read as many records as it should, all of them within the data. -/
theorem readMany_eq_ok {α : Type} {size : ℕ} (bound : ℕ) {read : ℕ → Except LoadError α} {P : α → Prop}
    (hread : ∀ off item, read off = .ok item → off + size ≤ bound ∧ P item) {count off : ℕ} {items : List α}
    (hoff : off ≤ bound) (h : readMany size read count off = .ok items) :
    items.length = count ∧ off + count * size ≤ bound ∧ ∀ item ∈ items, P item := by
  induction count generalizing off items with
  | zero =>
    obtain rfl := Except.ok.inj h
    exact ⟨rfl, by omega, fun _ hmem ↦ absurd hmem List.not_mem_nil⟩
  | succ count ih =>
    obtain ⟨item, hitem, hmore⟩ := bind_eq_ok.mp h
    obtain ⟨rest, hrest, hitems⟩ := bind_eq_ok.mp hmore
    obtain rfl := Except.ok.inj hitems
    obtain ⟨hfits, hP⟩ := hread off item hitem
    obtain ⟨hlength, hbound, hall⟩ := ih hfits hrest
    refine ⟨by rw [List.length_cons, hlength], ?_, List.forall_mem_cons.mpr ⟨hP, hall⟩⟩
    rw [Nat.succ_mul]
    omega

theorem toI32_bounds {word : ℕ} (h : word < 2 ^ 32) : -2 ^ 31 ≤ toI32 word ∧ toI32 word < 2 ^ 31 := by
  rw [toI32]
  split <;> omega

theorem getVlen_lt (info : ℕ) : getVlen info < 2 ^ 16 := Nat.mod_lt _ (by decide)

theorem loadMember_eq_ok {strings extra : List UInt8} {bits : Bool} {off : ℕ} {m : BtfMember}
    (h : loadMember strings bits extra off = .ok m) :
    off + 12 ≤ extra.length ∧ if bits then m.bitOffset < 2 ^ 24 ∧ m.bitSize < 256 else m.bitSize = 0 := by
  obtain ⟨nameOff, -, h⟩ := bind_eq_ok.mp h
  obtain ⟨typeId, -, h⟩ := bind_eq_ok.mp h
  obtain ⟨offset, hoffset, h⟩ := bind_eq_ok.mp h
  obtain ⟨name, -, h⟩ := bind_eq_ok.mp h
  obtain ⟨hfits, hlt⟩ := preadU32_eq_ok hoffset
  obtain rfl := Except.ok.inj h
  refine ⟨hfits, ?_⟩
  cases bits with
  | true => exact ⟨Nat.mod_lt _ (by decide), Nat.div_lt_of_lt_mul hlt⟩
  | false => rfl

theorem loadMembers_eq_ok {strings extra : List UInt8} {t : RawType} {members : List BtfMember}
    (h : loadMembers strings t extra = .ok members) :
    members.length < 2 ^ 16 ∧ members.length * 12 ≤ extra.length ∧
      (hasBitfields members = true → ∀ m ∈ members, m.bitOffset < 2 ^ 24 ∧ m.bitSize < 256) := by
  obtain ⟨hlength, hbound, hall⟩ :=
    readMany_eq_ok extra.length (fun _ _ hm ↦ loadMember_eq_ok hm) (Nat.zero_le _) h
  have hvlen := getVlen_lt t.info
  refine ⟨by omega, by omega, fun hbits ↦ ?_⟩
  obtain ⟨m, hm, hsize⟩ := List.any_eq_true.mp hbits
  cases hflag : getKindFlag t.info with
  | true => simpa only [hflag, if_true] using hall
  | false =>
    simp only [hflag, Bool.false_eq_true, if_false] at hall
    exact absurd (hall m hm) (of_decide_eq_true hsize)

theorem loadEnumValue_eq_ok {strings extra : List UInt8} {off : ℕ} {v : BtfEnumValue}
    (h : loadEnumValue strings extra off = .ok v) :
    off + 8 ≤ extra.length ∧ -2 ^ 31 ≤ v.value ∧ v.value < 2 ^ 31 := by
  obtain ⟨nameOff, -, h⟩ := bind_eq_ok.mp h
  obtain ⟨val, hval, h⟩ := bind_eq_ok.mp h
  obtain ⟨name, -, h⟩ := bind_eq_ok.mp h
  obtain ⟨hfits, hlt⟩ := preadU32_eq_ok hval
  obtain rfl := Except.ok.inj h
  exact ⟨hfits, toI32_bounds hlt⟩

theorem loadParam_eq_ok {strings extra : List UInt8} {off : ℕ} {p : BtfFuncParam}
    (h : loadParam strings extra off = .ok p) : off + 8 ≤ extra.length ∧ True := by
  obtain ⟨nameOff, -, h⟩ := bind_eq_ok.mp h
  obtain ⟨typeId, htypeId, -⟩ := bind_eq_ok.mp h
  exact ⟨(preadU32_eq_ok htypeId).1, trivial⟩

theorem loadDatasecVar_eq_ok {extra : List UInt8} {off : ℕ} {v : BtfDatasecVar}
    (h : loadDatasecVar extra off = .ok v) : off + 12 ≤ extra.length ∧ True := by
  obtain ⟨typeId, -, h⟩ := bind_eq_ok.mp h
  obtain ⟨offset, -, h⟩ := bind_eq_ok.mp h
  obtain ⟨size, hsize, -⟩ := bind_eq_ok.mp h
  exact ⟨(preadU32_eq_ok hsize).1, trivial⟩

/-- Whether a type is a struct, union or enum. -/
def BtfType.hasTag : BtfType → Bool
  | .struct _ | .union _ | .enum _ => true
  | _ => false

/-- A type that is accepted has fields within their bounds and does not go behind the data. -/
structure Accepted (extra : List UInt8) (t : BtfType) : Prop where
  inRange : t.InRange
  vlen_lt : t.vlen < 2 ^ 16
  head_le : 12 ≤ typeSize t
  size_le : typeSize t ≤ 12 + extra.length

section

variable {strings extra : List UInt8} {raw : RawType}

theorem loadInt_eq_ok {t : BtfType} (h : loadInt strings raw extra = .ok t) :
    ∃ int, t = .int int ∧ Accepted extra (.int int) := by
  obtain ⟨info, hinfo, h⟩ := bind_eq_ok.mp h
  obtain ⟨name, -, h⟩ := bind_eq_ok.mp h
  obtain ⟨encoding, -, h⟩ := bind_eq_ok.mp h
  obtain rfl := Except.ok.inj h
  have hfits := (preadU32_eq_ok hinfo).1
  exact ⟨_, rfl, ⟨Nat.mod_lt _ (by decide), Nat.mod_lt _ (by decide)⟩, Nat.two_pow_pos 16,
    Nat.le_add_right _ _, Nat.add_le_add_left hfits 12⟩

theorem loadArray_eq_ok {t : BtfType} (h : loadArray extra = .ok t) :
    ∃ array, t = .array array ∧ Accepted extra (.array array) := by
  obtain ⟨valTypeId, -, h⟩ := bind_eq_ok.mp h
  obtain ⟨indexTypeId, -, h⟩ := bind_eq_ok.mp h
  obtain ⟨nelems, hnelems, h⟩ := bind_eq_ok.mp h
  obtain rfl := Except.ok.inj h
  have hfits := (preadU32_eq_ok hnelems).1
  exact ⟨_, rfl, trivial, Nat.two_pow_pos 16, Nat.le_add_right _ _, Nat.add_le_add_left hfits 12⟩

theorem loadFuncProto_eq_ok {t : BtfType} (h : loadFuncProto strings raw extra = .ok t) :
    ∃ ret params, t = .funcProto ret params ∧ Accepted extra (.funcProto ret params) := by
  obtain ⟨params, hparams, h⟩ := bind_eq_ok.mp h
  obtain rfl := Except.ok.inj h
  obtain ⟨hlength, hbound, -⟩ :=
    readMany_eq_ok extra.length (fun _ _ hp ↦ loadParam_eq_ok hp) (Nat.zero_le _) hparams
  have hvlen := getVlen_lt raw.info
  rw [← hlength, Nat.zero_add] at hbound
  rw [← hlength] at hvlen
  exact ⟨_, _, rfl, trivial, hvlen, Nat.le_add_right _ _, Nat.add_le_add_left hbound 12⟩

theorem loadVar_eq_ok {t : BtfType} (h : loadVar strings raw extra = .ok t) :
    ∃ var, t = .var var ∧ Accepted extra (.var var) := by
  obtain ⟨kind, hkind, h⟩ := bind_eq_ok.mp h
  obtain ⟨name, -, h⟩ := bind_eq_ok.mp h
  obtain ⟨linkage, -, h⟩ := bind_eq_ok.mp h
  obtain rfl := Except.ok.inj h
  have hfits := (preadU32_eq_ok hkind).1
  exact ⟨_, rfl, trivial, Nat.two_pow_pos 16, Nat.le_add_right _ _, Nat.add_le_add_left hfits 12⟩

theorem loadDatasec_eq_ok {t : BtfType} (h : loadDatasec strings raw extra = .ok t) :
    ∃ datasec, t = .datasec datasec ∧ Accepted extra (.datasec datasec) := by
  obtain ⟨vars, hvars, h⟩ := bind_eq_ok.mp h
  obtain ⟨name, -, h⟩ := bind_eq_ok.mp h
  obtain rfl := Except.ok.inj h
  obtain ⟨hlength, hbound, -⟩ :=
    readMany_eq_ok extra.length (fun _ _ hv ↦ loadDatasecVar_eq_ok hv) (Nat.zero_le _) hvars
  have hvlen := getVlen_lt raw.info
  rw [← hlength, Nat.zero_add] at hbound
  rw [← hlength] at hvlen
  exact ⟨_, rfl, trivial, hvlen, Nat.le_add_right _ _, Nat.add_le_add_left hbound 12⟩

theorem loadDeclTag_eq_ok {t : BtfType} (h : loadDeclTag strings raw extra = .ok t) :
    ∃ name next index, t = .declTag name next index ∧ Accepted extra (.declTag name next index) := by
  obtain ⟨word, hword, h⟩ := bind_eq_ok.mp h
  obtain ⟨name, -, h⟩ := bind_eq_ok.mp h
  obtain rfl := Except.ok.inj h
  obtain ⟨hfits, hlt⟩ := preadU32_eq_ok hword
  exact ⟨_, _, _, rfl, toI32_bounds hlt, Nat.two_pow_pos 16, Nat.le_add_right _ _,
    Nat.add_le_add_left hfits 12⟩

theorem loadComposite_eq_ok {anonCount : ℕ} {isStruct : Bool} {loaded : BtfComposite × ℕ}
    (h : loadComposite strings anonCount isStruct raw extra = .ok loaded) :
    ∃ t : BtfComposite, t.isStruct = isStruct ∧ t.members.length < 2 ^ 16 ∧
      t.members.length * 12 ≤ extra.length ∧
      (hasBitfields t.members = true → ∀ m ∈ t.members, m.bitOffset < 2 ^ 24 ∧ m.bitSize < 256) ∧
      getBtfStr strings raw.nameOff = .ok t.name ∧
      loaded = ({ t with name := (nameOrAnon anonCount t.name).1 }, (nameOrAnon anonCount t.name).2) ∧
      ∀ count, loadComposite strings count isStruct raw extra =
        .ok ({ t with name := (nameOrAnon count t.name).1 }, (nameOrAnon count t.name).2) := by
  obtain ⟨name, hname, h⟩ := bind_eq_ok.mp h
  obtain ⟨members, hmembers, h⟩ := bind_eq_ok.mp h
  obtain ⟨hvlen, hbound, hbits⟩ := loadMembers_eq_ok hmembers
  refine ⟨⟨name, isStruct, raw.typeId, members⟩, rfl, hvlen, hbound, hbits, hname,
    (Except.ok.inj h).symm, fun count ↦ ?_⟩
  rw [loadComposite, hname, ok_bind, hmembers, ok_bind]

theorem loadEnum_eq_ok {anonCount : ℕ} {loaded : BtfEnum × ℕ}
    (h : loadEnum strings anonCount raw extra = .ok loaded) :
    ∃ t : BtfEnum, Accepted extra (.enum t) ∧ getBtfStr strings raw.nameOff = .ok t.name ∧
      loaded = ({ t with name := (nameOrAnon anonCount t.name).1 }, (nameOrAnon anonCount t.name).2) ∧
      ∀ count, loadEnum strings count raw extra =
        .ok ({ t with name := (nameOrAnon count t.name).1 }, (nameOrAnon count t.name).2) := by
  obtain ⟨name, hname, h⟩ := bind_eq_ok.mp h
  obtain ⟨values, hvalues, h⟩ := bind_eq_ok.mp h
  obtain ⟨hlength, hbound, hall⟩ :=
    readMany_eq_ok extra.length (fun _ _ hv ↦ loadEnumValue_eq_ok hv) (Nat.zero_le _) hvalues
  have hvlen := getVlen_lt raw.info
  rw [← hlength, Nat.zero_add] at hbound
  rw [← hlength] at hvlen
  refine ⟨⟨name, raw.typeId, values⟩, ⟨hall, hvlen, Nat.le_add_right _ _, Nat.add_le_add_left hbound 12⟩,
    hname, (Except.ok.inj h).symm, fun count ↦ ?_⟩
  rw [loadEnum, hname, ok_bind, hvalues, ok_bind]

/-- Nothing stands behind the head. -/
theorem accepted_head {t : BtfType} (hrange : t.InRange) (hvlen : t.vlen = 0) (hsize : typeSize t = 12) :
    Accepted extra t :=
  ⟨hrange, hvlen ▸ Nat.two_pow_pos 16, hsize.ge, hsize.le.trans (Nat.le_add_right _ _)⟩

theorem loadHead_eq_ok {build : Text → BtfType} {t : BtfType}
    (h : (getBtfStr strings raw.nameOff >>= fun name ↦ .ok (build name)) = .ok t)
    (hbuild : ∀ name, (build name).InRange ∧ (build name).vlen = 0 ∧ typeSize (build name) = 12 ∧
      (build name).hasTag = false) : Accepted extra t ∧ t.hasTag = false := by
  obtain ⟨name, -, h⟩ := bind_eq_ok.mp h
  obtain rfl := Except.ok.inj h
  obtain ⟨hrange, hvlen, hsize, hnamed⟩ := hbuild name
  exact ⟨accepted_head hrange hvlen hsize, hnamed⟩

theorem loadNamed_eq_ok {kind : ℕ} {t : BtfType} (h : loadNamed strings raw extra kind = .ok t) :
    Accepted extra t ∧ t.hasTag = false := by
  unfold loadNamed at h
  split at h
  · cases h
  · obtain ⟨_, rfl, haccepted⟩ := loadInt_eq_ok h
    exact ⟨haccepted, rfl⟩
  · obtain rfl := Except.ok.inj h
    exact ⟨accepted_head trivial rfl rfl, rfl⟩
  · obtain ⟨_, rfl, haccepted⟩ := loadArray_eq_ok h
    exact ⟨haccepted, rfl⟩
  · exact loadHead_eq_ok h fun _ ↦ ⟨trivial, rfl, rfl, rfl⟩
  · exact loadHead_eq_ok h fun _ ↦ ⟨trivial, rfl, rfl, rfl⟩
  · obtain rfl := Except.ok.inj h
    exact ⟨accepted_head trivial rfl rfl, rfl⟩
  · obtain rfl := Except.ok.inj h
    exact ⟨accepted_head trivial rfl rfl, rfl⟩
  · obtain rfl := Except.ok.inj h
    exact ⟨accepted_head trivial rfl rfl, rfl⟩
  · exact loadHead_eq_ok h fun _ ↦ ⟨trivial, rfl, rfl, rfl⟩
  · obtain ⟨_, _, rfl, haccepted⟩ := loadFuncProto_eq_ok h
    exact ⟨haccepted, rfl⟩
  · obtain ⟨_, rfl, haccepted⟩ := loadVar_eq_ok h
    exact ⟨haccepted, rfl⟩
  · obtain ⟨_, rfl, haccepted⟩ := loadDatasec_eq_ok h
    exact ⟨haccepted, rfl⟩
  · exact loadHead_eq_ok h fun _ ↦ ⟨trivial, rfl, rfl, rfl⟩
  · obtain ⟨_, _, _, rfl, haccepted⟩ := loadDeclTag_eq_ok h
    exact ⟨haccepted, rfl⟩
  · exact loadHead_eq_ok h fun _ ↦ ⟨trivial, rfl, rfl, rfl⟩
  · cases h

theorem withAnon_of_hasTag {t : BtfType} (h : t.hasTag = false) (anonCount : ℕ) :
    t.withAnon anonCount = (t, anonCount) := by
  cases t with
  | struct t | union t | enum t => cases h
  | _ => rfl

/-- What is loaded is an accepted type, with a name made up if it has none; its own name is the one that
the offset leads to. -/
theorem loadKind_eq_ok {anonCount kind : ℕ} {loaded : BtfType × ℕ}
    (h : loadKind strings anonCount raw extra kind = .ok loaded) :
    ∃ t : BtfType, loaded = t.withAnon anonCount ∧ Accepted extra t ∧
      (∀ count, loadKind strings count raw extra kind = .ok (t.withAnon count)) ∧
      (t.hasTag = true → getBtfStr strings raw.nameOff = .ok t.itemName) := by
  unfold loadKind at h
  split at h
  · obtain ⟨_, hcomposite, h⟩ := bind_eq_ok.mp h
    obtain ⟨t, hstruct, hvlen, hbound, hbits, hname, rfl, hload⟩ := loadComposite_eq_ok hcomposite
    refine ⟨.struct t, (Except.ok.inj h).symm, ⟨⟨hstruct, hbits⟩, hvlen, Nat.le_add_right _ _,
      Nat.add_le_add_left hbound 12⟩, fun count ↦ ?_, fun _ ↦ hname⟩
    rw [loadKind, hload, ok_bind]
    rfl
  · obtain ⟨_, hcomposite, h⟩ := bind_eq_ok.mp h
    obtain ⟨t, hstruct, hvlen, hbound, hbits, hname, rfl, hload⟩ := loadComposite_eq_ok hcomposite
    refine ⟨.union t, (Except.ok.inj h).symm, ⟨⟨hstruct, hbits⟩, hvlen, Nat.le_add_right _ _,
      Nat.add_le_add_left hbound 12⟩, fun count ↦ ?_, fun _ ↦ hname⟩
    rw [loadKind, hload, ok_bind]
    rfl
  · obtain ⟨_, henum, h⟩ := bind_eq_ok.mp h
    obtain ⟨t, haccepted, hname, rfl, hload⟩ := loadEnum_eq_ok henum
    refine ⟨.enum t, (Except.ok.inj h).symm, haccepted, fun count ↦ ?_, fun _ ↦ hname⟩
    rw [loadKind, hload, ok_bind]
    rfl
  · next hstruct hunion henum =>
    obtain ⟨t, ht, h⟩ := bind_eq_ok.mp h
    obtain ⟨haccepted, htag⟩ := loadNamed_eq_ok ht
    refine ⟨t, (Except.ok.inj h).symm.trans (withAnon_of_hasTag htag anonCount).symm, haccepted,
      fun count ↦ ?_, fun h ↦ absurd (htag.symm.trans h) Bool.false_ne_true⟩
    have hkind : loadKind strings count raw extra kind =
        (loadNamed strings raw extra kind >>= fun ty ↦ .ok (ty, count)) := by
      unfold loadKind
      split
      · exact absurd rfl hstruct
      · exact absurd rfl hunion
      · exact absurd rfl henum
      · rfl
    rw [hkind, ht, ok_bind, withAnon_of_hasTag htag]

end

/-- A type at the front of the data: its fields are within their bounds, it does not go behind the data,
and the reader makes it of the bytes, with a name made up if it has none.  The name of a struct, union or
enum is the one that its offset leads to. -/
structure Stands (strings data : List UInt8) (t : BtfType) : Prop where
  inRange : t.InRange
  vlen_lt : t.vlen < 2 ^ 16
  size_pos : 0 < typeSize t
  size_le : typeSize t ≤ data.length
  load : ∀ anonCount, loadType strings anonCount data = .ok (t.withAnon anonCount)
  name : t.hasTag = true →
    ∃ raw, preadType data 0 = .ok raw ∧ getBtfStr strings raw.nameOff = .ok t.itemName

/-- The data are these types, one behind the other. -/
def Holds (strings : List UInt8) : List UInt8 → List BtfType → Prop
  | data, [] => data = []
  | data, t :: types => Stands strings data t ∧ Holds strings (data.drop (typeSize t)) types

section

variable {strings : List UInt8}

theorem loadType_eq_ok {data : List UInt8} {anonCount : ℕ} {loaded : BtfType × ℕ}
    (h : loadType strings anonCount data = .ok loaded) :
    ∃ t : BtfType, loaded = t.withAnon anonCount ∧ Stands strings data t := by
  obtain ⟨raw, hraw, hkind⟩ := bind_eq_ok.mp h
  obtain ⟨t, rfl, haccepted, hload, hname⟩ := loadKind_eq_ok hkind
  have hhead : 12 ≤ data.length := by
    obtain ⟨_, -, hrest⟩ := bind_eq_ok.mp hraw
    obtain ⟨_, -, hrest⟩ := bind_eq_ok.mp hrest
    obtain ⟨_, htypeId, -⟩ := bind_eq_ok.mp hrest
    exact (preadU32_eq_ok htypeId).1
  have hmin := haccepted.head_le
  have hmax := haccepted.size_le
  rw [List.length_drop] at hmax
  refine ⟨t, rfl, haccepted.inRange, haccepted.vlen_lt, by omega, by omega, fun count ↦ ?_,
    fun htag ↦ ⟨raw, hraw, hname htag⟩⟩
  rw [loadType, hraw, ok_bind, hload]

theorem Holds.inRange {data : List UInt8} {types : List BtfType} (h : Holds strings data types) :
    ∀ t ∈ types, t.InRange ∧ t.vlen < 2 ^ 16 := by
  induction types generalizing data with
  | nil => exact fun _ hmem ↦ absurd hmem List.not_mem_nil
  | cons t types ih => exact List.forall_mem_cons.mpr ⟨⟨h.1.inRange, h.1.vlen_lt⟩, ih h.2⟩

/-- The types fill the data. -/
theorem Holds.sum_typeSize {data : List UInt8} {types : List BtfType} (h : Holds strings data types) :
    (types.map typeSize).sum = data.length := by
  induction types generalizing data with
  | nil =>
    obtain rfl : data = [] := h
    rfl
  | cons t types ih =>
    have hsize := h.1.size_le
    rw [List.map_cons, List.sum_cons, ih h.2, List.length_drop]
    omega

/-- The loop reads the data to its end, one type behind the other. -/
theorem loadTypes_eq_ok {typeData : List UInt8} {fuel anonCount off : ℕ} {loaded : List BtfType}
    (h : loadTypes strings typeData fuel anonCount off = .ok loaded) :
    ∃ types, loaded = nameAll anonCount types ∧ Holds strings (typeData.drop off) types := by
  have hend : ¬off < typeData.length → Holds strings (typeData.drop off) [] := fun hle ↦
    List.drop_eq_nil_of_le (Nat.le_of_not_lt hle)
  induction fuel generalizing anonCount off loaded with
  | zero =>
    rw [loadTypes] at h
    split at h
    · cases h
    · next hle =>
      obtain rfl := Except.ok.inj h
      exact ⟨[], rfl, hend hle⟩
  | succ fuel ih =>
    rw [loadTypes] at h
    split at h
    · obtain ⟨first, hfirst, hmore⟩ := bind_eq_ok.mp h
      obtain ⟨rest, hrest, hall⟩ := bind_eq_ok.mp hmore
      obtain rfl := Except.ok.inj hall
      obtain ⟨t, rfl, hstands⟩ := loadType_eq_ok hfirst
      rw [typeSize_withAnon] at hrest
      obtain ⟨types, rfl, htypes⟩ :=
        ih hrest fun hle ↦ List.drop_eq_nil_of_le (Nat.le_of_not_lt hle)
      exact ⟨t :: types, rfl, hstands, by rwa [List.drop_drop]⟩
    · next hle =>
      obtain rfl := Except.ok.inj h
      exact ⟨[], rfl, hend hle⟩

/-- As many turns as there are bytes are enough, so the loop is never cut off. -/
theorem loadTypes_add_fuel {typeData : List UInt8} {fuel off : ℕ} (h : typeData.length ≤ off + fuel)
    (more anonCount : ℕ) :
    loadTypes strings typeData (fuel + more) anonCount off =
      loadTypes strings typeData fuel anonCount off := by
  induction fuel generalizing anonCount off with
  | zero =>
    have hend : ¬off < typeData.length := by omega
    rw [Nat.zero_add]
    cases more with
    | zero => rfl
    | succ more => rw [loadTypes, loadTypes, if_neg hend, if_neg hend]
  | succ fuel ih =>
    rw [Nat.succ_add, loadTypes, loadTypes]
    split
    · cases hfirst : loadType strings anonCount (typeData.drop off) with
      | error error => rfl
      | ok first =>
        obtain ⟨t, heq, hstands⟩ := loadType_eq_ok hfirst
        have hpos := hstands.size_pos
        have hsize : typeSize first.1 = typeSize t := by rw [heq, typeSize_withAnon]
        have henough : typeData.length ≤ off + typeSize first.1 + fuel := by omega
        exact congrArg (fun loaded ↦ loaded >>= fun types ↦ .ok (first.1 :: types)) (ih henough first.2)
    · rfl

end

/-! ## Names that are made up -/

/-- Whether a struct, union or enum has no name. -/
def BtfType.isAnonymous : BtfType → Bool
  | .struct t | .union t => t.name.isEmpty
  | .enum t => t.name.isEmpty
  | _ => false

/-- The names that types without one got. -/
def madeUpNames (types loaded : List BtfType) : List Text :=
  ((types.zip loaded).filter fun both ↦ both.1.isAnonymous).map fun both ↦ both.2.itemName

theorem anonName_injective : Function.Injective anonName := by
  intro count count' h
  have hdigits := congrArg Text.decimalValue (List.append_cancel_left h)
  rwa [Text.decimalValue_decimal, Text.decimalValue_decimal] at hdigits

theorem withAnon_of_isAnonymous {t : BtfType} (h : t.isAnonymous = true) (anonCount : ℕ) :
    (t.withAnon anonCount).1.itemName = anonName (anonCount + 1) ∧
      (t.withAnon anonCount).2 = anonCount + 1 := by
  cases t with
  | struct t | union t | enum t =>
    have hname : t.name = [] := List.isEmpty_iff.mp h
    simp [BtfType.withAnon, BtfType.itemName, nameOrAnon, hname]
  | _ => cases h

theorem withAnon_of_named {t : BtfType} (h : t.isAnonymous = false) (anonCount : ℕ) :
    t.withAnon anonCount = (t, anonCount) := by
  cases t with
  | struct t | union t | enum t =>
    have hname : t.name ≠ [] := List.isEmpty_eq_false_iff.mp h
    simp [BtfType.withAnon, nameOrAnon, hname]
  | _ => rfl

theorem isAnonymous_withAnon (t : BtfType) (anonCount : ℕ) :
    (t.withAnon anonCount).1.isAnonymous = false := by
  have hname (name : Text) : (nameOrAnon anonCount name).1 ≠ [] := by
    rw [nameOrAnon]
    split
    · exact List.append_ne_nil_of_right_ne_nil _ (Text.decimal_ne_nil _)
    · assumption
  cases t with
  | struct t | union t | enum t => exact List.isEmpty_eq_false_iff.mpr (hname t.name)
  | _ => rfl

theorem isAnonymous_nameAll (types : List BtfType) (anonCount : ℕ) :
    ∀ t ∈ nameAll anonCount types, t.isAnonymous = false := by
  induction types generalizing anonCount with
  | nil => exact fun _ hmem ↦ absurd hmem List.not_mem_nil
  | cons t types ih => exact List.forall_mem_cons.mpr ⟨isAnonymous_withAnon t anonCount, ih _⟩

theorem madeUpNames_cons (t t' : BtfType) (types loaded : List BtfType) :
    madeUpNames (t :: types) (t' :: loaded) =
      if t.isAnonymous then t'.itemName :: madeUpNames types loaded else madeUpNames types loaded := by
  rw [madeUpNames, List.zip_cons_cons, List.filter_cons]
  split <;> rfl

/-- The types without a name are numbered. -/
theorem madeUpNames_nameAll (types : List BtfType) (anonCount : ℕ) :
    madeUpNames types (nameAll anonCount types) =
      (List.range' (anonCount + 1) (types.countP BtfType.isAnonymous)).map anonName := by
  induction types generalizing anonCount with
  | nil => rfl
  | cons t types ih =>
    rw [nameAll, madeUpNames_cons, ih, List.countP_cons]
    cases h : t.isAnonymous with
    | true =>
      obtain ⟨hname, hcount⟩ := withAnon_of_isAnonymous h anonCount
      rw [if_pos rfl, if_pos rfl, hname, hcount, List.range'_succ, List.map_cons]
    | false =>
      rw [if_neg Bool.false_ne_true, if_neg Bool.false_ne_true, withAnon_of_named h]
      rfl

theorem nodup_madeUpNames (types : List BtfType) : (madeUpNames types (nameAll 0 types)).Nodup := by
  rw [madeUpNames_nameAll]
  exact List.Nodup.map anonName_injective List.nodup_range'

/-- A section that is accepted holds types one behind the other that fill the length which the header
gives, and the table is made of them: the structs, unions and enums without a name get one, and no
made-up name comes twice.  The loop over the types ends by itself. -/
theorem loadBtf_accepts {ptrSize : ℕ} {data : List UInt8} {btf : Btf}
    (h : loadBtf ptrSize data = .ok btf) :
    ∃ strings typeData types, sections data = .ok (strings, typeData) ∧
      Holds strings typeData types ∧
      preadU32 data 12 = .ok (types.map typeSize).sum ∧
      (∀ t ∈ types, t.InRange ∧ t.vlen < 2 ^ 16) ∧
      btf = ⟨.void :: nameAll 0 types, ptrSize⟩ ∧
      (∀ t ∈ btf.types, t.isAnonymous = false) ∧
      (madeUpNames types (nameAll 0 types)).Nodup ∧
      ∀ more, loadTypes strings typeData (typeData.length + more) 0 0 = .ok (nameAll 0 types) := by
  simp only [loadBtf, bind_eq_ok] at h
  obtain ⟨_, -, _, -, ⟨strings, typeData⟩, hsections, loaded, hloaded, hbtf⟩ := h
  obtain rfl := Except.ok.inj hbtf
  obtain ⟨types, rfl, htypes⟩ := loadTypes_eq_ok hloaded
  rw [List.drop_zero] at htypes
  refine ⟨strings, typeData, types, hsections, htypes, ?_, htypes.inRange, rfl,
    List.forall_mem_cons.mpr ⟨rfl, isAnonymous_nameAll types 0⟩, nodup_madeUpNames types, fun more ↦ ?_⟩
  · simp only [sections, bind_eq_ok] at hsections
    obtain ⟨_, -, _, -, _, -, hdrLen, -, typeOff, -, typeLen, htypeLen, strOff, -, strLen, -, _, -, part,
      hpart, hboth⟩ := hsections
    obtain ⟨rfl, rfl⟩ := Prod.mk.inj (Except.ok.inj hboth)
    obtain ⟨_, hfits, hpart⟩ := bind_eq_ok.mp hpart
    have hfits := ensure_eq_ok.mp hfits
    have hlength : part.length = typeLen := by
      obtain rfl := Except.ok.inj hpart
      rw [List.length_take, List.length_drop]
      omega
    rw [htypeLen, htypes.sum_typeSize, hlength]
  · rw [loadTypes_add_fuel (Nat.zero_add _).ge, hloaded]

/-- A struct with bitfields and an enum, both without a name. -/
def namelessTypes : List BtfType := [
  .int ⟨"int".toList, 32, 0, .signed⟩,
  .struct ⟨[], true, 4, [⟨"kind".toList, 1, 0, 3⟩, ⟨"count".toList, 1, 3, 29⟩]⟩,
  .enum ⟨[], 4, [⟨"failed".toList, -1⟩]⟩]

theorem writable_namelessTypes : Writable namelessTypes where
  inRange := by simp [namelessTypes, BtfType.InRange]
  vlen_lt := by decide
  word_lt := by decide +kernel
  zero_notMem := by decide +kernel
  length_lt := by decide +kernel

theorem loadBtf_accepts_demo :
    ∃ strings typeData types, sections (btfBytes namelessTypes) = .ok (strings, typeData) ∧
      Holds strings typeData types ∧ (madeUpNames types (nameAll 0 types)).Nodup := by
  obtain ⟨strings, typeData, types, hsections, hholds, -, -, -, -, hnodup, -⟩ :=
    loadBtf_accepts (writable_namelessTypes.loadBtf_eq (by decide : 8 ≠ 0))
  exact ⟨strings, typeData, types, hsections, hholds, hnodup⟩

end EbpfPlayground.LibbpfCargo
