import EbpfPlayground.LibbpfCargo.Closure

/-!
# Shapes of BTF types and of Rust types

A type of the table consists of scalars at the offsets that the table gives; a Rust type consists of
scalars at the offsets that its representation gives.  What a C compiler guarantees about the table,
and what the target's alignments are, is stated here.
-/

namespace EbpfPlayground.LibbpfCargo

open Fallible
open Layout (IsAlignment Shape alignUp shift)

inductive Scalar where
  | int (signed : Bool) (bytes : ℕ)
  | bool
  | float (bytes : ℕ)
  | pointer
  deriving DecidableEq

/-! ## Shapes of Rust types -/

/-- The architecture that the Rust code is compiled for. -/
structure Target where
  ptrSize : ℕ
  /-- The greatest alignment of a scalar; a smaller scalar is aligned to its size. -/
  word : ℕ

def Target.scalar (target : Target) (size : ℕ) (kind : Scalar) : Shape Scalar :=
  .scalar size (min target.word size) kind

/-- The shape of a Rust type, given those of the items. -/
def RustType.shape (target : Target) (itemShape : ℕ → Option (Shape Scalar)) :
    RustType → Option (Shape Scalar)
  | .cVoid => some ⟨1, 1, []⟩
  | .int signed bytes => some (target.scalar bytes (.int signed bytes))
  | .bool => some (target.scalar 1 .bool)
  | .float bytes => some (target.scalar bytes (.float bytes))
  | .pointer _ => some (target.scalar target.ptrSize .pointer)
  | .array elem len => (elem.shape target itemShape).map (.array len)
  | .named typeId _ => itemShape typeId

/-- The shape of a field.  Nothing is read from padding. -/
def RustField.shape (target : Target) (itemShape : ℕ → Option (Shape Scalar)) (field : RustField) :
    Option (Shape Scalar) :=
  (field.ty.shape target itemShape).map fun shape ↦
    if field.isPub then shape else { shape with cells := [] }

/-- `repr(C)` or `repr(C, packed)` of a struct or union, `repr(u..)` or `repr(i..)` of an enum. -/
def RustItem.shape (target : Target) (itemShape : ℕ → Option (Shape Scalar)) :
    RustItem → Option (Shape Scalar)
  | .composite item => (item.fields.mapM (RustField.shape target itemShape)).map fun shapes ↦
    if item.isStruct then .record item.packed shapes else .union shapes
  | .enum item => some (target.scalar item.bytes (.int item.signed item.bytes))

/-- The shape of an item that others are nested in as deep as given. -/
def itemShape (target : Target) (items : List (ℕ × RustItem)) : ℕ → ℕ → Option (Shape Scalar)
  | 0, _ => none
  | depth + 1, typeId => (items.lookup typeId).bind (RustItem.shape target (itemShape target items depth))

/-! ## Scalars of BTF types -/

def BtfInt.scalar (t : BtfInt) : Scalar :=
  match t.encoding with
  | .signed => .int true t.bytes
  | .bool => .bool
  | .char | .none => .int false t.bytes

def BtfEnum.scalar (t : BtfEnum) : Scalar := .int (t.values.any fun value ↦ value.value < 0) t.size

namespace Btf

/-- The scalars that a type consists of: those of a member begin at the offset that the table gives. -/
def cellsOf (btf : Btf) : ℕ → ℕ → Except Error (List (ℕ × Scalar))
  | 0, _ => .error .outOfFuel
  | fuel + 1, typeId => do
    let skippedTypeId ← btf.skipModsAndTypedefs fuel typeId
    match ← btf.typeById skippedTypeId with
    | .int t => .ok [(0, t.scalar)]
    | .ptr _ => .ok [(0, .pointer)]
    | .array t => do
      let size ← btf.sizeOf fuel t.valTypeId
      let cells ← cellsOf btf fuel t.valTypeId
      .ok (Shape.arrayCells t.nelems size cells)
    | .struct t | .union t =>
      t.members.foldlM (fun cells m ↦ do
        let memberCells ← cellsOf btf fuel m.typeId
        .ok (cells ++ shift (m.bitOffset / 8) memberCells)) []
    | .enum t => .ok [(0, t.scalar)]
    | .var t => cellsOf btf fuel t.typeId
    | .float _ size => .ok [(0, .float size)]
    | _ => .error (.noSize skippedTypeId)

/-- The end of the members. -/
def extent (btf : Btf) (fuel : ℕ) (members : List BtfMember) : Except Error ℕ :=
  members.foldlM (fun extent m ↦ do
    let size ← btf.sizeOf fuel m.typeId
    .ok (max extent (m.bitOffset / 8 + size))) 0

/-- The size of the Rust definition of a struct or union: the end of the members, rounded up to the
alignment that they have on the target, or as it is if the definition is packed. -/
def generatedSize (btf : Btf) (target : Target) (fuel typeId : ℕ) (t : BtfComposite) :
    Except Error ℕ := do
  let packed ← btf.isStructPacked fuel typeId t
  let align ← btf.alignOf fuel typeId
  let extent ← btf.extent fuel t.members
  .ok (alignUp extent (if packed then 1 else min target.word align))

/-- What BTF itself makes sure of in a table. -/
@[mk_iff]
structure WellFormed (btf : Btf) : Prop where
  isStruct : ∀ (typeId : ℕ) (t : BtfComposite), btf.types[typeId]? = some (.struct t) → t.isStruct = true
  isUnion : ∀ (typeId : ℕ) (t : BtfComposite), btf.types[typeId]? = some (.union t) →
    t.isStruct = false ∧ ∀ m ∈ t.members, m.bitOffset = 0
  array : ∀ (typeId : ℕ) (t : BtfArray) more size, btf.types[typeId]? = some (.array t) →
    btf.sizeOf more t.valTypeId = .ok size → t.nelems * size < 2 ^ 32
  within : ∀ (typeId : ℕ) (t : BtfComposite), btf.IsComposite typeId t → ∀ m ∈ t.members, ∀ more size,
    btf.sizeOf more m.typeId = .ok size → m.bitOffset / 8 + size ≤ t.size
  size_lt : ∀ (typeId : ℕ) (t : BtfComposite), btf.IsComposite typeId t → t.size < 2 ^ 32
  vars : btf.VarsInSections

end Btf

/-- An item lies inside another one, by itself or in an array. -/
def EmbeddedIn (items : List (ℕ × RustItem)) (typeId : ℕ) : Prop :=
  ∃ outer c, (outer, .composite c) ∈ items ∧ ∃ field ∈ c.fields, field.ty.embeds = some typeId

/-- What lies inside other items is as large in Rust as in the table, and did not have to be packed. -/
structure Btf.PartsFit (btf : Btf) (target : Target) (fuel : ℕ) (items : List (ℕ × RustItem)) : Prop where
  size_eq : ∀ (typeId : ℕ) (t : BtfComposite), btf.IsComposite typeId t → EmbeddedIn items typeId →
    btf.generatedSize target fuel typeId t = .ok t.size
  unpacked : ∀ (typeId : ℕ) (c : RustComposite), EmbeddedIn items typeId →
    (typeId, .composite c) ∈ items → c.packed = false

/-- The target has the pointers of the table, and words of four bytes or of a pointer. -/
structure Target.Suits (target : Target) (btf : Btf) : Prop where
  ptrSize : target.ptrSize = btf.ptrSize
  ptrSize_eq : btf.ptrSize = 4 ∨ btf.ptrSize = 8
  word_eq : target.word = 4 ∨ target.word = btf.ptrSize

namespace Target.Suits

variable {btf : Btf} {target : Target}

theorem isAlignment_ptrSize (h : target.Suits btf) : IsAlignment btf.ptrSize := by
  rcases h.ptrSize_eq with heq | heq
  exacts [⟨2, heq⟩, ⟨3, heq⟩]

theorem isAlignment_word (h : target.Suits btf) : IsAlignment target.word := by
  rcases h.word_eq with heq | heq
  exacts [⟨2, heq⟩, heq ▸ h.isAlignment_ptrSize]

theorem word_bounds (h : target.Suits btf) : 4 ≤ target.word ∧ target.word ≤ btf.ptrSize := by
  have hptr := h.ptrSize_eq
  have hword := h.word_eq
  omega

end Target.Suits

/-- A 64-bit target. -/
def target64 : Target := ⟨8, 8⟩

theorem suits_podsnoopBtf : target64.Suits podsnoopBtf := ⟨rfl, .inr rfl, .inr rfl⟩

/-- The table has one struct. -/
theorem isComposite_podsnoopBtf {typeId : ℕ} {t : BtfComposite} (h : podsnoopBtf.IsComposite typeId t) :
    t = ⟨"pod_exec_event".toList, true, 48, [⟨"cgroup_id".toList, 3, 0, 0⟩,
      ⟨"cgroup_pid".toList, 6, 64, 0⟩, ⟨"cgroup_cmd".toList, 11, 96, 0⟩]⟩ := by
  rcases h with h | h <;> have hmem := List.mem_of_getElem? h
  · simpa only [podsnoopBtf, typedefOf, List.mem_cons, List.not_mem_nil, reduceCtorEq, or_false, false_or,
      BtfType.struct.injEq] using hmem
  · simp [podsnoopBtf, typedefOf] at hmem

theorem wellFormed_podsnoopBtf : podsnoopBtf.WellFormed where
  isStruct typeId t ht := by rw [isComposite_podsnoopBtf (.inl ht)]
  isUnion typeId t ht := by
    have hmem := List.mem_of_getElem? ht
    simp [podsnoopBtf, typedefOf] at hmem
  array typeId t more size ht hsize := by
    have hmem := List.mem_of_getElem? ht
    simp only [podsnoopBtf, typedefOf, List.mem_cons, List.not_mem_nil, reduceCtorEq, or_false, false_or,
      BtfType.array.injEq] at hmem
    rw [hmem] at hsize ⊢
    have hbyte : podsnoopBtf.sizeOf 9 9 = .ok 1 := rfl
    obtain rfl := Btf.sizeOf_unique hsize hbyte
    decide
  within typeId t ht m hm more size hsize := by
    obtain rfl := isComposite_podsnoopBtf ht
    have hid : podsnoopBtf.sizeOf 9 3 = .ok 8 := rfl
    have hpid : podsnoopBtf.sizeOf 9 6 = .ok 4 := rfl
    have hcmd : podsnoopBtf.sizeOf 9 11 = .ok 32 := rfl
    simp only [List.mem_cons, List.not_mem_nil, or_false] at hm
    rcases hm with rfl | rfl | rfl
    · rw [Btf.sizeOf_unique hsize hid]
      decide
    · rw [Btf.sizeOf_unique hsize hpid]
      decide
    · rw [Btf.sizeOf_unique hsize hcmd]
      decide
  size_lt typeId t ht := by
    rw [isComposite_podsnoopBtf ht]
    decide
  vars := varsInSections_podsnoopBtf

theorem partsFit_podsnoopBtf : podsnoopBtf.PartsFit target64 9 podsnoopItems where
  size_eq typeId t ht hembedded := by
    obtain ⟨outer, c, hitem, field, hfield, hembeds⟩ := hembedded
    simp only [podsnoopItems, List.mem_cons, List.not_mem_nil, or_false, Prod.mk.injEq,
      RustItem.composite.injEq] at hitem
    rcases hitem with ⟨-, rfl⟩ | ⟨-, rfl⟩
    · obtain rfl := List.mem_singleton.mp hfield
      obtain rfl := Option.some.inj hembeds
      obtain rfl := isComposite_podsnoopBtf ht
      rfl
    · simp only [List.mem_cons, List.not_mem_nil, or_false] at hfield
      rcases hfield with rfl | rfl | rfl <;> cases hembeds
  unpacked _ inner _ hinner := by
    simp only [podsnoopItems, List.mem_cons, List.not_mem_nil, or_false, Prod.mk.injEq,
      RustItem.composite.injEq] at hinner
    rcases hinner with ⟨-, rfl⟩ | ⟨-, rfl⟩ <;> rfl

end EbpfPlayground.LibbpfCargo
