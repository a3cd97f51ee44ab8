import EbpfPlayground.Foundation.Fallible
import EbpfPlayground.Foundation.Text

/-!
# Types of a BPF object

The type table that libbpf-cargo reads of the BTF section of a BPF object, and the sizes and
alignments it computes from it.  Types refer to one another by their number in the table.  A chain
of references may have a cycle, on which the source would not return; the functions here go down as
many references as their fuel says.  `u32` and `u8` arithmetic wraps, as in a release build.
-/

namespace EbpfPlayground.LibbpfCargo

open Fallible (Extends bind_eq_ok)

inductive BtfIntEncoding where
  | none
  | signed
  | char
  | bool
  deriving DecidableEq

structure BtfInt where
  name : Text
  bits : ℕ
  offset : ℕ
  encoding : BtfIntEncoding
  deriving DecidableEq

structure BtfArray where
  nelems : ℕ
  indexTypeId : ℕ
  valTypeId : ℕ
  deriving DecidableEq

structure BtfMember where
  name : Text
  typeId : ℕ
  bitOffset : ℕ
  bitSize : ℕ
  deriving DecidableEq

structure BtfComposite where
  name : Text
  isStruct : Bool
  size : ℕ
  members : List BtfMember
  deriving DecidableEq

structure BtfEnumValue where
  name : Text
  value : ℤ
  deriving DecidableEq

structure BtfEnum where
  name : Text
  size : ℕ
  values : List BtfEnumValue
  deriving DecidableEq

inductive BtfFwdKind where
  | struct
  | union
  deriving DecidableEq

structure BtfFuncParam where
  name : Text
  typeId : ℕ
  deriving DecidableEq

inductive BtfVarLinkage where
  | static
  | globalAlloc
  | globalExtern
  deriving DecidableEq

structure BtfVar where
  name : Text
  typeId : ℕ
  linkage : BtfVarLinkage
  deriving DecidableEq

structure BtfDatasecVar where
  typeId : ℕ
  offset : ℕ
  size : ℕ
  deriving DecidableEq

structure BtfDatasec where
  name : Text
  size : ℕ
  vars : List BtfDatasecVar
  deriving DecidableEq

/-- `BtfType`; a struct and a union carry the same record. -/
inductive BtfType where
  | void
  | int (t : BtfInt)
  | ptr (pointeeType : ℕ)
  | array (t : BtfArray)
  | struct (t : BtfComposite)
  | union (t : BtfComposite)
  | enum (t : BtfEnum)
  | fwd (name : Text) (kind : BtfFwdKind)
  | typedef (name : Text) (typeId : ℕ)
  | volatile (typeId : ℕ)
  | const (typeId : ℕ)
  | restrict (typeId : ℕ)
  | func (name : Text) (typeId : ℕ)
  | funcProto (retTypeId : ℕ) (params : List BtfFuncParam)
  | var (t : BtfVar)
  | datasec (t : BtfDatasec)
  | float (name : Text) (size : ℕ)
  | declTag (name : Text) (typeId : ℕ) (componentIdx : ℤ)
  | typeTag (name : Text) (typeId : ℕ)
  deriving DecidableEq

/-- `BtfType` as it is displayed. -/
def BtfType.display : BtfType → Text
  | .void => "void".toList
  | .ptr _ => "ptr".toList
  | .fwd _ _ => "fwd".toList
  | .typedef _ _ => "typedef".toList
  | .volatile _ => "volatile".toList
  | .const _ => "const".toList
  | .restrict _ => "restrict".toList
  | .func _ _ => "func".toList
  | .int _ => "int".toList
  | .var _ => "var".toList
  | .array _ => "array".toList
  | .struct _ => "struct".toList
  | .union _ => "union".toList
  | .enum _ => "enum".toList
  | .funcProto _ _ => "funcproto".toList
  | .datasec _ => "datasec".toList
  | .float _ _ => "float".toList
  | .declTag _ _ _ => "decltag".toList
  | .typeTag _ _ => "typetag".toList

/-- Whether a type gets a definition of its own: `is_terminal` says no. -/
def isDefinable : BtfType → Bool
  | .struct _ | .union _ | .enum _ | .datasec _ => true
  | _ => false

inductive Error where
  | invalidTypeId (typeId : ℕ)
  | noSize (typeId : ℕ)
  | noAlignment (typeId : ℕ)
  | invalidIntegerWidth
  | unsupportedFloatWidth
  | invalidFloatWidth
  | invalidType (ty : BtfType)
  | inArray (error : Error)
  /-- The alignment of a struct, of a member or of a field is zero; `subject` says of which. -/
  | zeroAlignment (subject : Text) (typeId : ℕ)
  | offsetAhead
  | terminalType
  | bitfield
  | noDefault (error : Error)
  | invalidEnumSize (size : ℕ)
  | invalidDatasecName (name : Text)
  | notAVar
  /-- The assertion on the bits of a `bool` panics. -/
  | boolPanic
  /-- The first default of a union without members panics. -/
  | emptyUnionPanic
  /-- The chain of references is longer than the fuel. -/
  | outOfFuel
  deriving DecidableEq

/-- The text of an error; empty for a panic. -/
def Error.text : Error → Text
  | .invalidTypeId typeId => "Invalid type_id: ".toList ++ Text.decimal typeId
  | .noSize typeId => "Cannot get size of type_id: ".toList ++ Text.decimal typeId
  | .noAlignment typeId => "Cannot get alignment of type_id: ".toList ++ Text.decimal typeId
  | .invalidIntegerWidth => "Invalid integer width".toList
  | .unsupportedFloatWidth => "Unsupported float width".toList
  | .invalidFloatWidth => "Invalid float width".toList
  | .invalidType ty => "Invalid type: ".toList ++ ty.display
  | .inArray error => "in array: ".toList ++ error.text
  | .zeroAlignment subject typeId =>
    "Failed to get alignment of ".toList ++ subject ++ ": ".toList ++ Text.decimal typeId
  | .offsetAhead => "Current offset ahead of required offset".toList
  | .terminalType => "Tried to print type definition for terminal type".toList
  | .bitfield => "Struct bitfields not supported".toList
  | .noDefault error => "Could not construct a necessary Default Impl: ".toList ++ error.text
  | .invalidEnumSize size => "Invalid enum size: ".toList ++ Text.decimal size
  | .invalidDatasecName name => "Datasec name is invalid: ".toList ++ name
  | .notAVar => "BTF is invalid! Datasec var does not point to a var".toList
  | .boolPanic | .emptyUnionPanic | .outOfFuel => []

/-- The loaded types; number 0 is `void`. -/
structure Btf where
  types : List BtfType
  ptrSize : ℕ

/-- `u32` arithmetic. -/
def wrap32 (n : ℕ) : ℕ := n % 2 ^ 32

theorem wrap32_of_lt {n : ℕ} (h : n < 2 ^ 32) : wrap32 n = n := Nat.mod_eq_of_lt h

/-- The bytes of an integer, `(t.bits + 7) / 8` in `u8`. -/
def BtfInt.bytes (t : BtfInt) : ℕ := (t.bits + 7) % 256 / 8

namespace Btf

/-- `type_by_id`. -/
def typeById (btf : Btf) (typeId : ℕ) : Except Error BtfType :=
  match btf.types[typeId]? with
  | some t => .ok t
  | none => .error (.invalidTypeId typeId)

@[simp]
theorem typeById_eq_ok {btf : Btf} {typeId : ℕ} {t : BtfType} :
    btf.typeById typeId = .ok t ↔ btf.types[typeId]? = some t := by
  unfold typeById
  split <;> simp_all

/-- `skip_mods_and_typedefs`. -/
def skipModsAndTypedefs (btf : Btf) : ℕ → ℕ → Except Error ℕ
  | 0, _ => .error .outOfFuel
  | fuel + 1, typeId => do
    match ← btf.typeById typeId with
    | .volatile next | .const next | .restrict next | .typedef _ next | .typeTag _ next =>
      skipModsAndTypedefs btf fuel next
    | _ => .ok typeId

/-- `size_of`. -/
def sizeOf (btf : Btf) : ℕ → ℕ → Except Error ℕ
  | 0, _ => .error .outOfFuel
  | fuel + 1, typeId => do
    let skippedTypeId ← btf.skipModsAndTypedefs fuel typeId
    match ← btf.typeById skippedTypeId with
    | .int t => .ok t.bytes
    | .ptr _ => .ok btf.ptrSize
    | .array t => do
      let size ← sizeOf btf fuel t.valTypeId
      .ok (wrap32 (t.nelems * size))
    | .struct t => .ok t.size
    | .union t => .ok t.size
    | .enum t => .ok t.size
    | .var t => sizeOf btf fuel t.typeId
    | .datasec t => .ok t.size
    | .float _ size => .ok size
    | _ => .error (.noSize skippedTypeId)

/-- `align_of`. -/
def alignOf (btf : Btf) : ℕ → ℕ → Except Error ℕ
  | 0, _ => .error .outOfFuel
  | fuel + 1, typeId => do
    let skippedTypeId ← btf.skipModsAndTypedefs fuel typeId
    match ← btf.typeById skippedTypeId with
    | .int t => .ok (min btf.ptrSize t.bytes)
    | .ptr _ => .ok btf.ptrSize
    | .array t => alignOf btf fuel t.valTypeId
    | .struct t | .union t =>
      t.members.foldlM (fun align m ↦ do
        let memberAlign ← alignOf btf fuel m.typeId
        .ok (max align memberAlign)) 1
    | .enum t => .ok (min btf.ptrSize t.size)
    | .var t => alignOf btf fuel t.typeId
    | .datasec t => .ok t.size
    | .float _ size => .ok (min btf.ptrSize size)
    | _ => .error (.noAlignment skippedTypeId)

/-! ## More fuel -/

theorem extends_skipModsAndTypedefs (btf : Btf) (fuel typeId : ℕ) :
    Extends .outOfFuel (btf.skipModsAndTypedefs fuel typeId) (btf.skipModsAndTypedefs (fuel + 1) typeId) := by
  induction fuel generalizing typeId with
  | zero => exact .ofCutOff _
  | succ fuel ih =>
    refine .bind_right _ fun t ↦ ?_
    cases t with
    | volatile next | const next | restrict next | typedef _ next | typeTag _ next => exact ih next
    | _ => exact .refl _

theorem extends_sizeOf (btf : Btf) (fuel typeId : ℕ) :
    Extends .outOfFuel (btf.sizeOf fuel typeId) (btf.sizeOf (fuel + 1) typeId) := by
  induction fuel generalizing typeId with
  | zero => exact .ofCutOff _
  | succ fuel ih =>
    refine (btf.extends_skipModsAndTypedefs fuel typeId).bind fun _ ↦ .bind_right _ fun t ↦ ?_
    cases t with
    | array t => exact (ih t.valTypeId).bind fun _ ↦ .refl _
    | var t => exact ih t.typeId
    | _ => exact .refl _

theorem extends_alignOf (btf : Btf) (fuel typeId : ℕ) :
    Extends .outOfFuel (btf.alignOf fuel typeId) (btf.alignOf (fuel + 1) typeId) := by
  induction fuel generalizing typeId with
  | zero => exact .ofCutOff _
  | succ fuel ih =>
    refine (btf.extends_skipModsAndTypedefs fuel typeId).bind fun _ ↦ .bind_right _ fun t ↦ ?_
    cases t with
    | array t => exact ih t.valTypeId
    | struct t | union t => exact .foldlM (fun _ (m : BtfMember) ↦ (ih m.typeId).bind fun _ ↦ .refl _) _ _
    | var t => exact ih t.typeId
    | _ => exact .refl _

variable {btf : Btf}

theorem skip_unique {fuel more typeId stripped stripped' : ℕ}
    (h : btf.skipModsAndTypedefs fuel typeId = .ok stripped)
    (h' : btf.skipModsAndTypedefs more typeId = .ok stripped') : stripped = stripped' :=
  Extends.unique (x := fun fuel ↦ btf.skipModsAndTypedefs fuel typeId)
    (fun fuel ↦ btf.extends_skipModsAndTypedefs fuel typeId) h h'

theorem sizeOf_unique {fuel more typeId size size' : ℕ} (h : btf.sizeOf fuel typeId = .ok size)
    (h' : btf.sizeOf more typeId = .ok size') : size = size' :=
  Extends.unique (x := fun fuel ↦ btf.sizeOf fuel typeId) (fun fuel ↦ btf.extends_sizeOf fuel typeId) h h'

theorem alignOf_unique {fuel more typeId align align' : ℕ} (h : btf.alignOf fuel typeId = .ok align)
    (h' : btf.alignOf more typeId = .ok align') : align = align' :=
  Extends.unique (x := fun fuel ↦ btf.alignOf fuel typeId) (fun fuel ↦ btf.extends_alignOf fuel typeId) h h'

/-! ## Behind the modifiers -/

/-- A computation that skips the modifiers and goes on with the type behind them. -/
theorem skip_bind {α : Type} {fuel typeId stripped : ℕ} {t : BtfType} {f : ℕ → BtfType → Except Error α}
    {a : α} (hskip : btf.skipModsAndTypedefs fuel typeId = .ok stripped)
    (ht : btf.typeById stripped = .ok t) (h : f stripped t = .ok a) :
    (btf.skipModsAndTypedefs fuel typeId >>= fun stripped ↦ btf.typeById stripped >>= f stripped) = .ok a :=
  bind_eq_ok.mpr ⟨stripped, hskip, bind_eq_ok.mpr ⟨t, ht, h⟩⟩

/-- Where the modifiers end, there is nothing to skip. -/
theorem skip_skipped {fuel more typeId stripped stripped' : ℕ}
    (h : btf.skipModsAndTypedefs fuel typeId = .ok stripped)
    (h' : btf.skipModsAndTypedefs more stripped = .ok stripped') : stripped' = stripped := by
  induction fuel generalizing typeId with
  | zero => cases h
  | succ fuel ih =>
    obtain ⟨t, ht, hrest⟩ := bind_eq_ok.mp h
    cases t with
    | volatile next | const next | restrict next | typedef _ next | typeTag _ next => exact ih hrest
    | _ =>
      obtain rfl := Except.ok.inj hrest
      cases more with
      | zero => cases h'
      | succ more =>
        obtain ⟨t', ht', hrest'⟩ := bind_eq_ok.mp h'
        obtain rfl := Except.ok.inj (ht.symm.trans ht')
        exact (Except.ok.inj hrest').symm

theorem skip_self {fuel typeId stripped : ℕ} (h : btf.skipModsAndTypedefs fuel typeId = .ok stripped) :
    btf.skipModsAndTypedefs fuel stripped = .ok stripped := by
  induction fuel generalizing typeId with
  | zero => cases h
  | succ fuel ih =>
    obtain ⟨t, -, hrest⟩ := bind_eq_ok.mp h
    cases t with
    | volatile next | const next | restrict next | typedef _ next | typeTag _ next =>
      exact (btf.extends_skipModsAndTypedefs fuel stripped).eq_ok (ih hrest)
    | _ =>
      obtain rfl := Except.ok.inj hrest
      exact h

theorem sizeOf_of_skip {fuel typeId stripped size : ℕ}
    (hskip : btf.skipModsAndTypedefs fuel typeId = .ok stripped)
    (h : btf.sizeOf fuel stripped = .ok size) : btf.sizeOf (fuel + 1) typeId = .ok size := by
  obtain ⟨stripped', hskip', hrest⟩ := bind_eq_ok.mp ((btf.extends_sizeOf fuel stripped).eq_ok h)
  obtain rfl := skip_skipped hskip hskip'
  exact bind_eq_ok.mpr ⟨stripped', hskip, hrest⟩

/-- What has an alignment has a size. -/
theorem exists_sizeOf_of_alignOf {fuel typeId align : ℕ} (h : btf.alignOf fuel typeId = .ok align) :
    ∃ size, btf.sizeOf fuel typeId = .ok size := by
  induction fuel generalizing typeId align with
  | zero => cases h
  | succ fuel ih =>
    obtain ⟨stripped, hskip, hbody⟩ := bind_eq_ok.mp h
    obtain ⟨t, ht, hbody⟩ := bind_eq_ok.mp hbody
    cases t with
    | array t =>
      obtain ⟨size, hsize⟩ := ih hbody
      exact ⟨_, skip_bind hskip ht (bind_eq_ok.mpr ⟨size, hsize, rfl⟩)⟩
    | var t =>
      obtain ⟨size, hsize⟩ := ih hbody
      exact ⟨size, skip_bind hskip ht hsize⟩
    | int _ | ptr _ | struct _ | union _ | enum _ | datasec _ | float _ _ =>
      exact ⟨_, skip_bind hskip ht rfl⟩
    | _ => cases hbody

end Btf

end EbpfPlayground.LibbpfCargo
