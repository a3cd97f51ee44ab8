import EbpfPlayground.Foundation.CString
import EbpfPlayground.Foundation.Hex
import EbpfPlayground.LibbpfCargo.Types

/-!
# Reading a type table

`Btf::new` reads the header of the BTF section and then one type after the other.  Words are in the
byte order of the host, which is little endian here.  A struct, union or enum without a name gets a
number for one.
-/

namespace EbpfPlayground.LibbpfCargo

open Fallible (ensure bind_eq_ok ok_bind ensure_eq_ok)

inductive LoadError where
  | noPointerSize
  | noData
  /-- `pread` goes behind the end of the data. -/
  | shortRead
  | invalidMagic
  | unsupportedVersion (version : ℕ)
  | stringTableOutOfBounds
  | typeTableOutOfBounds
  | voidType
  | invalidKind (kind : ℕ)
  | invalidEncoding (encoding : ℕ)
  | invalidLinkage (linkage : ℕ)
  | invalidUtf8
  /-- A string begins behind the end of the string table: the index panics. -/
  | stringPanic
  /-- A string has no end in the string table, and memory behind it is read. -/
  | unterminated
  /-- The loop over the types was cut off. -/
  | outOfFuel
  deriving DecidableEq

/-! ## Words -/

/-- `pread::<u32>`. -/
def preadU32 (data : List UInt8) (off : ℕ) : Except LoadError ℕ := do
  ensure (off + 4 ≤ data.length) .shortRead
  .ok (Hex.ofLeBytes ((data.drop off).take 4))

/-- `struct btf_type`. -/
structure RawType where
  nameOff : ℕ
  info : ℕ
  typeId : ℕ

def preadType (data : List UInt8) (off : ℕ) : Except LoadError RawType := do
  let nameOff ← preadU32 data off
  let info ← preadU32 data (off + 4)
  let typeId ← preadU32 data (off + 8)
  .ok ⟨nameOff, info, typeId⟩

/-- `get_vlen`. -/
def getVlen (info : ℕ) : ℕ := info % 2 ^ 16

/-- `get_kind_flag`. -/
def getKindFlag (info : ℕ) : Bool := info / 2 ^ 31 = 1

/-- `get_kind`. -/
def getKind (info : ℕ) : ℕ := info / 2 ^ 24 % 32

/-- An `i32` from its bits. -/
def toI32 (word : ℕ) : ℤ := if word < 2 ^ 31 then word else word - 2 ^ 32

/-- `get_btf_str`. -/
def getBtfStr (strings : List UInt8) (offset : ℕ) : Except LoadError Text := do
  ensure (offset < strings.length) .stringPanic
  ensure (0 ∈ strings.drop offset) .unterminated
  match Text.fromUtf8 (CString.cstr (strings.drop offset)) with
  | some text => .ok text
  | none => .error .invalidUtf8

/-- The loops over records of a size, from an offset on. -/
def readMany {α : Type} (size : ℕ) (read : ℕ → Except LoadError α) : ℕ → ℕ → Except LoadError (List α)
  | 0, _ => .ok []
  | count + 1, off => do
    let item ← read off
    let items ← readMany size read count (off + size)
    .ok (item :: items)

/-! ## Types -/

def anonName (count : ℕ) : Text := "__anon_".toList ++ Text.decimal count

/-- The name of a struct, union or enum, and the number of names that were made up. -/
def nameOrAnon (anonCount : ℕ) (name : Text) : Text × ℕ :=
  if name = [] then (anonName (anonCount + 1), anonCount + 1) else (name, anonCount)

def intEncoding : ℕ → Except LoadError BtfIntEncoding
  | 0 => .ok .none
  | 1 => .ok .signed
  | 2 => .ok .char
  | 4 => .ok .bool
  | encoding => .error (.invalidEncoding encoding)

def varLinkage : ℕ → Except LoadError BtfVarLinkage
  | 0 => .ok .static
  | 1 => .ok .globalAlloc
  | 2 => .ok .globalExtern
  | linkage => .error (.invalidLinkage linkage)

/-- `load_int`. -/
def loadInt (strings : List UInt8) (t : RawType) (extra : List UInt8) : Except LoadError BtfType := do
  let info ← preadU32 extra 0
  let name ← getBtfStr strings t.nameOff
  let encoding ← intEncoding (info / 2 ^ 24 % 16)
  .ok (.int ⟨name, info % 256, info / 2 ^ 16 % 256, encoding⟩)

/-- `load_float`. -/
def loadFloat (strings : List UInt8) (t : RawType) : Except LoadError BtfType := do
  let name ← getBtfStr strings t.nameOff
  .ok (.float name t.typeId)

/-- `load_array`. -/
def loadArray (extra : List UInt8) : Except LoadError BtfType := do
  let valTypeId ← preadU32 extra 0
  let indexTypeId ← preadU32 extra 4
  let nelems ← preadU32 extra 8
  .ok (.array ⟨nelems, indexTypeId, valTypeId⟩)

/-- One turn of `load_members`. -/
def loadMember (strings : List UInt8) (bits : Bool) (extra : List UInt8) (off : ℕ) :
    Except LoadError BtfMember := do
  let nameOff ← preadU32 extra off
  let typeId ← preadU32 extra (off + 4)
  let offset ← preadU32 extra (off + 8)
  let name ← getBtfStr strings nameOff
  .ok (if bits then ⟨name, typeId, offset % 2 ^ 24, offset / 2 ^ 24⟩ else ⟨name, typeId, offset, 0⟩)

/-- `load_members`. -/
def loadMembers (strings : List UInt8) (t : RawType) (extra : List UInt8) :
    Except LoadError (List BtfMember) :=
  readMany 12 (loadMember strings (getKindFlag t.info) extra) (getVlen t.info) 0

/-- `load_struct` and `load_union`, with the number of names that were made up. -/
def loadComposite (strings : List UInt8) (anonCount : ℕ) (isStruct : Bool) (t : RawType)
    (extra : List UInt8) : Except LoadError (BtfComposite × ℕ) := do
  let name ← getBtfStr strings t.nameOff
  let members ← loadMembers strings t extra
  let (name, anonCount) := nameOrAnon anonCount name
  .ok (⟨name, isStruct, t.typeId, members⟩, anonCount)

/-- One turn of the loop of `load_enum`. -/
def loadEnumValue (strings : List UInt8) (extra : List UInt8) (off : ℕ) :
    Except LoadError BtfEnumValue := do
  let nameOff ← preadU32 extra off
  let val ← preadU32 extra (off + 4)
  let name ← getBtfStr strings nameOff
  .ok ⟨name, toI32 val⟩

/-- `load_enum`. -/
def loadEnum (strings : List UInt8) (anonCount : ℕ) (t : RawType) (extra : List UInt8) :
    Except LoadError (BtfEnum × ℕ) := do
  let name ← getBtfStr strings t.nameOff
  let values ← readMany 8 (loadEnumValue strings extra) (getVlen t.info) 0
  let (name, anonCount) := nameOrAnon anonCount name
  .ok (⟨name, t.typeId, values⟩, anonCount)

/-- `load_fwd`. -/
def loadFwd (strings : List UInt8) (t : RawType) : Except LoadError BtfType := do
  let name ← getBtfStr strings t.nameOff
  .ok (.fwd name (if getKindFlag t.info then .union else .struct))

/-- One turn of the loop of `load_func_proto`. -/
def loadParam (strings : List UInt8) (extra : List UInt8) (off : ℕ) : Except LoadError BtfFuncParam := do
  let nameOff ← preadU32 extra off
  let typeId ← preadU32 extra (off + 4)
  let name ← getBtfStr strings nameOff
  .ok ⟨name, typeId⟩

/-- `load_func_proto`. -/
def loadFuncProto (strings : List UInt8) (t : RawType) (extra : List UInt8) :
    Except LoadError BtfType := do
  let params ← readMany 8 (loadParam strings extra) (getVlen t.info) 0
  .ok (.funcProto t.typeId params)

/-- `load_var`. -/
def loadVar (strings : List UInt8) (t : RawType) (extra : List UInt8) : Except LoadError BtfType := do
  let kind ← preadU32 extra 0
  let name ← getBtfStr strings t.nameOff
  let linkage ← varLinkage kind
  .ok (.var ⟨name, t.typeId, linkage⟩)

/-- One turn of the loop of `load_datasec`. -/
def loadDatasecVar (extra : List UInt8) (off : ℕ) : Except LoadError BtfDatasecVar := do
  let typeId ← preadU32 extra off
  let offset ← preadU32 extra (off + 4)
  let size ← preadU32 extra (off + 8)
  .ok ⟨typeId, offset, size⟩

/-- `load_datasec`. -/
def loadDatasec (strings : List UInt8) (t : RawType) (extra : List UInt8) :
    Except LoadError BtfType := do
  let vars ← readMany 12 (loadDatasecVar extra) (getVlen t.info) 0
  let name ← getBtfStr strings t.nameOff
  .ok (.datasec ⟨name, t.typeId, vars⟩)

/-- `load_decl_tag`. -/
def loadDeclTag (strings : List UInt8) (t : RawType) (extra : List UInt8) :
    Except LoadError BtfType := do
  let componentIdx ← preadU32 extra 0
  let name ← getBtfStr strings t.nameOff
  .ok (.declTag name t.typeId (toI32 componentIdx))

/-- The kinds that take no number of made-up names. -/
def loadNamed (strings : List UInt8) (t : RawType) (extra : List UInt8) : ℕ → Except LoadError BtfType
  | 0 => .error .voidType
  | 1 => loadInt strings t extra
  | 2 => .ok (.ptr t.typeId)
  | 3 => loadArray extra
  | 7 => loadFwd strings t
  | 8 => do
    let name ← getBtfStr strings t.nameOff
    .ok (.typedef name t.typeId)
  | 9 => .ok (.volatile t.typeId)
  | 10 => .ok (.const t.typeId)
  | 11 => .ok (.restrict t.typeId)
  | 12 => do
    let name ← getBtfStr strings t.nameOff
    .ok (.func name t.typeId)
  | 13 => loadFuncProto strings t extra
  | 14 => loadVar strings t extra
  | 15 => loadDatasec strings t extra
  | 16 => loadFloat strings t
  | 17 => loadDeclTag strings t extra
  | 18 => do
    let name ← getBtfStr strings t.nameOff
    .ok (.typeTag name t.typeId)
  | kind => .error (.invalidKind kind)

/-- The branches of `load_type`, with the number of names that were made up. -/
def loadKind (strings : List UInt8) (anonCount : ℕ) (t : RawType) (extra : List UInt8) :
    ℕ → Except LoadError (BtfType × ℕ)
  | 4 => do
    let (composite, anonCount) ← loadComposite strings anonCount true t extra
    .ok (.struct composite, anonCount)
  | 5 => do
    let (composite, anonCount) ← loadComposite strings anonCount false t extra
    .ok (.union composite, anonCount)
  | 6 => do
    let (enum, anonCount) ← loadEnum strings anonCount t extra
    .ok (.enum enum, anonCount)
  | kind => do
    let ty ← loadNamed strings t extra kind
    .ok (ty, anonCount)

/-- `load_type`. -/
def loadType (strings : List UInt8) (anonCount : ℕ) (data : List UInt8) :
    Except LoadError (BtfType × ℕ) := do
  let t ← preadType data 0
  loadKind strings anonCount t (data.drop 12) (getKind t.info)

/-- `type_size`. -/
def typeSize : BtfType → ℕ
  | .void => 0
  | .int _ | .var _ => 12 + 4
  | .array _ => 12 + 12
  | .struct t | .union t => 12 + t.members.length * 12
  | .enum t => 12 + t.values.length * 8
  | .funcProto _ params => 12 + params.length * 8
  | .datasec t => 12 + t.vars.length * 12
  | .declTag _ _ _ => 12 + 4
  | _ => 12

/-- The loop over the types; every type takes bytes, so it turns at most once for each byte. -/
def loadTypes (strings typeData : List UInt8) : ℕ → ℕ → ℕ → Except LoadError (List BtfType)
  | 0, _, off => if off < typeData.length then .error .outOfFuel else .ok []
  | fuel + 1, anonCount, off =>
    if off < typeData.length then do
      let (t, anonCount) ← loadType strings anonCount (typeData.drop off)
      let types ← loadTypes strings typeData fuel anonCount (off + typeSize t)
      .ok (t :: types)
    else .ok []

def btfMagic : ℕ := 0xEB9F

def btfVersion : ℕ := 1

/-- A part of the data behind the header. -/
def sectionOf (data : List UInt8) (hdrLen off len : ℕ) (error : LoadError) :
    Except LoadError (List UInt8) := do
  let start := wrap32 (hdrLen + off)
  ensure (start + len ≤ data.length) error
  .ok ((data.drop start).take len)

/-- The strings and the types, as the header says where they are. -/
def sections (data : List UInt8) : Except LoadError (List UInt8 × List UInt8) := do
  ensure (24 ≤ data.length) .shortRead
  ensure (Hex.ofLeBytes (data.take 2) = btfMagic) .invalidMagic
  let version := Hex.ofLeBytes ((data.drop 2).take 1)
  ensure (version = btfVersion) (.unsupportedVersion version)
  let hdrLen ← preadU32 data 4
  let typeOff ← preadU32 data 8
  let typeLen ← preadU32 data 12
  let strOff ← preadU32 data 16
  let strLen ← preadU32 data 20
  let strings ← sectionOf data hdrLen strOff strLen .stringTableOutOfBounds
  let typeData ← sectionOf data hdrLen typeOff typeLen .typeTableOutOfBounds
  .ok (strings, typeData)

/-- `Btf::new` on the size of a pointer and the raw data of the section, which libbpf gives. -/
def loadBtf (ptrSize : ℕ) (data : List UInt8) : Except LoadError Btf := do
  ensure (ptrSize ≠ 0) .noPointerSize
  ensure (data ≠ []) .noData
  let (strings, typeData) ← sections data
  let types ← loadTypes strings typeData typeData.length 0 0
  .ok ⟨.void :: types, ptrSize⟩

end EbpfPlayground.LibbpfCargo
