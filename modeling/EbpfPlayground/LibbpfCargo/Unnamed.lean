import EbpfPlayground.LibbpfCargo.Preservation
import EbpfPlayground.LibbpfCargo.Section

/-!
# Layouts and names

Sizes, alignments and offsets do not depend on the names of structs, unions and enums.  So the Rust
definitions have the layout that the compiler wrote into the section, whatever names the reader made up.
-/

namespace EbpfPlayground.LibbpfCargo

open Fallible (ensure bind_eq_ok ok_bind)

/-- A type without the name that it is defined under. -/
def BtfType.unnamed : BtfType → BtfType
  | .struct t => .struct { t with name := [] }
  | .union t => .union { t with name := [] }
  | .enum t => .enum { t with name := [] }
  | t => t

theorem BtfType.hasTag_unnamed (t : BtfType) : t.unnamed.hasTag = t.hasTag := by
  cases t <;> rfl

theorem BtfType.unnamed_of_hasTag {t : BtfType} (h : t.hasTag = false) : t.unnamed = t := by
  cases t with
  | struct t | union t | enum t => cases h
  | _ => rfl

/-- The table without these names. -/
def Btf.unnamed (btf : Btf) : Btf := ⟨btf.types.map BtfType.unnamed, btf.ptrSize⟩

theorem map_bind {ε α β γ : Type} (f : α → β) (x : Except ε α) (g : β → Except ε γ) :
    x.map f >>= g = x >>= fun a ↦ g (f a) := by
  cases x <;> rfl

namespace Btf

section

variable (btf : Btf)

theorem typeById_unnamed (typeId : ℕ) :
    btf.unnamed.typeById typeId = (btf.typeById typeId).map BtfType.unnamed := by
  rw [typeById, typeById, unnamed, List.getElem?_map]
  cases btf.types[typeId]? <;> rfl

@[simp]
theorem skip_unnamed (fuel typeId : ℕ) :
    btf.unnamed.skipModsAndTypedefs fuel typeId = btf.skipModsAndTypedefs fuel typeId := by
  induction fuel generalizing typeId with
  | zero => rfl
  | succ fuel ih =>
    rw [skipModsAndTypedefs, skipModsAndTypedefs, typeById_unnamed, map_bind]
    refine bind_congr fun t ↦ ?_
    cases t with
    | volatile next | const next | restrict next | typedef _ next | typeTag _ next => exact ih next
    | _ => rfl

@[simp]
theorem sizeOf_unnamed (fuel typeId : ℕ) : btf.unnamed.sizeOf fuel typeId = btf.sizeOf fuel typeId := by
  induction fuel generalizing typeId with
  | zero => rfl
  | succ fuel ih =>
    rw [sizeOf, sizeOf, skip_unnamed]
    refine bind_congr fun stripped ↦ ?_
    rw [typeById_unnamed, map_bind]
    refine bind_congr fun t ↦ ?_
    cases t with
    | array t => simp only [BtfType.unnamed, ih]
    | var t => exact ih t.typeId
    | _ => rfl

@[simp]
theorem alignOf_unnamed (fuel typeId : ℕ) : btf.unnamed.alignOf fuel typeId = btf.alignOf fuel typeId := by
  induction fuel generalizing typeId with
  | zero => rfl
  | succ fuel ih =>
    rw [alignOf, alignOf, skip_unnamed]
    refine bind_congr fun stripped ↦ ?_
    rw [typeById_unnamed, map_bind]
    refine bind_congr fun t ↦ ?_
    cases t with
    | array t => exact ih t.valTypeId
    | struct t | union t => simp only [BtfType.unnamed, ih]
    | var t => exact ih t.typeId
    | _ => rfl

@[simp]
theorem cellsOf_unnamed (fuel typeId : ℕ) : btf.unnamed.cellsOf fuel typeId = btf.cellsOf fuel typeId := by
  induction fuel generalizing typeId with
  | zero => rfl
  | succ fuel ih =>
    rw [cellsOf, cellsOf, skip_unnamed]
    refine bind_congr fun stripped ↦ ?_
    rw [typeById_unnamed, map_bind]
    refine bind_congr fun t ↦ ?_
    cases t with
    | array t => simp only [BtfType.unnamed, sizeOf_unnamed, ih]
    | struct t | union t => simp only [BtfType.unnamed, ih]
    | var t => exact ih t.typeId
    | _ => rfl

theorem anyMisaligned_unnamed (fuel : ℕ) (members : List BtfMember) :
    btf.unnamed.anyMisaligned fuel members = btf.anyMisaligned fuel members := by
  induction members with
  | nil => rfl
  | cons m members ih => rw [anyMisaligned, anyMisaligned, alignOf_unnamed, ih]

theorem extent_unnamed (fuel : ℕ) (members : List BtfMember) :
    btf.unnamed.extent fuel members = btf.extent fuel members := by
  simp only [extent, sizeOf_unnamed]

/-- The size of the Rust definition does not depend on names, its own among them. -/
theorem generatedSize_unnamed (target : Target) (fuel typeId : ℕ) (t : BtfComposite) (name : Text) :
    btf.unnamed.generatedSize target fuel typeId { t with name := name } =
      btf.generatedSize target fuel typeId t := by
  simp only [generatedSize, isStructPacked, extent_unnamed, alignOf_unnamed, anyMisaligned_unnamed]

/-! ## What the table says of the types -/

theorem getElem_unnamed (typeId : ℕ) :
    btf.unnamed.types[typeId]? = (btf.types[typeId]?).map BtfType.unnamed := List.getElem?_map

section Composites

variable {btf} {mk : BtfComposite → BtfType} (hmk : mk = .struct ∨ mk = .union)

include hmk

theorem unnamed_eq_mk {t : BtfType} {c : BtfComposite} :
    t.unnamed = mk c ↔ c.name = [] ∧ ∃ name, t = mk { c with name := name } := by
  constructor
  · intro h
    rcases hmk with rfl | rfl
    · cases t with
      | struct t =>
        obtain rfl := BtfType.struct.inj h
        exact ⟨rfl, t.name, rfl⟩
      | _ => cases h
    · cases t with
      | union t =>
        obtain rfl := BtfType.union.inj h
        exact ⟨rfl, t.name, rfl⟩
      | _ => cases h
  · rintro ⟨hname, name, rfl⟩
    rcases hmk with rfl | rfl <;> simp only [BtfType.unnamed, ← hname]

theorem getElem_unnamed_mk {typeId : ℕ} {c : BtfComposite} :
    btf.unnamed.types[typeId]? = some (mk c) ↔
      c.name = [] ∧ ∃ name, btf.types[typeId]? = some (mk { c with name := name }) := by
  rw [getElem_unnamed, Option.map_eq_some_iff]
  constructor
  · rintro ⟨t, ht, hc⟩
    obtain ⟨hname, name, rfl⟩ := (unnamed_eq_mk hmk).mp hc
    exact ⟨hname, name, ht⟩
  · rintro ⟨hname, name, ht⟩
    exact ⟨_, ht, (unnamed_eq_mk hmk).mpr ⟨hname, name, rfl⟩⟩

/-- What does not depend on the name holds of the structs, or unions, of both tables. -/
theorem forall_getElem_unnamed_mk {typeId : ℕ} {P : BtfComposite → Prop}
    (hP : ∀ t name, P { t with name := name } ↔ P t) :
    (∀ t, btf.unnamed.types[typeId]? = some (mk t) → P t) ↔
      ∀ t, btf.types[typeId]? = some (mk t) → P t := by
  constructor
  · intro h t ht
    exact (hP t []).mp (h _ ((getElem_unnamed_mk hmk).mpr ⟨rfl, t.name, ht⟩))
  · intro h t ht
    obtain ⟨-, name, ht⟩ := (getElem_unnamed_mk hmk).mp ht
    exact (hP t name).mp (h _ ht)

end Composites

variable {btf}

theorem isComposite_unnamed {typeId : ℕ} {c : BtfComposite} :
    btf.unnamed.IsComposite typeId c ↔
      c.name = [] ∧ ∃ name, btf.IsComposite typeId { c with name := name } := by
  rw [IsComposite, getElem_unnamed_mk (.inl rfl), getElem_unnamed_mk (.inr rfl), ← and_or_left, ← exists_or]
  rfl

theorem forall_isComposite_unnamed {typeId : ℕ} {P : BtfComposite → Prop}
    (hP : ∀ t name, P { t with name := name } ↔ P t) :
    (∀ t, btf.unnamed.IsComposite typeId t → P t) ↔ ∀ t, btf.IsComposite typeId t → P t := by
  simp only [IsComposite, or_imp, forall_and, forall_getElem_unnamed_mk (.inl rfl) hP,
    forall_getElem_unnamed_mk (.inr rfl) hP]

/-- A type without a tag is the same without the names. -/
theorem getElem_unnamed_of {typeId : ℕ} {t : BtfType} (hkind : t.hasTag = false) :
    btf.unnamed.types[typeId]? = some t ↔ btf.types[typeId]? = some t := by
  rw [getElem_unnamed, Option.map_eq_some_iff]
  constructor
  · rintro ⟨t', ht', rfl⟩
    rwa [BtfType.unnamed_of_hasTag (t'.hasTag_unnamed ▸ hkind)]
  · intro ht
    exact ⟨t, ht, BtfType.unnamed_of_hasTag hkind⟩

theorem globalType_unnamed (datasecVar : BtfDatasecVar) :
    btf.unnamed.globalType datasecVar = btf.globalType datasecVar := by
  rw [globalType, globalType, getElem_unnamed]
  cases btf.types[datasecVar.typeId]? with
  | none => rfl
  | some t => cases t <;> rfl

theorem references_unnamed (t : BtfType) : btf.unnamed.references t.unnamed = btf.references t := by
  cases t with
  | datasec t => exact congrArg (fun f ↦ t.vars.filterMap f) (funext globalType_unnamed)
  | _ => rfl

theorem refers_unnamed {typeId next : ℕ} : btf.unnamed.Refers typeId next ↔ btf.Refers typeId next := by
  constructor
  · rintro ⟨t, ht, hnext⟩
    rw [getElem_unnamed, Option.map_eq_some_iff] at ht
    obtain ⟨t, ht, rfl⟩ := ht
    exact ⟨t, ht, references_unnamed t ▸ hnext⟩
  · rintro ⟨t, ht, hnext⟩
    refine ⟨t.unnamed, ?_, (references_unnamed t).symm ▸ hnext⟩
    rw [getElem_unnamed, ht, Option.map_some]

theorem varsInSections_unnamed : btf.unnamed.VarsInSections ↔ btf.VarsInSections := by
  have hvar (typeId : ℕ) (v : BtfVar) :
      btf.unnamed.types[typeId]? = some (.var v) ↔ btf.types[typeId]? = some (.var v) :=
    getElem_unnamed_of rfl
  have htag (typeId : ℕ) (name : Text) (next : ℕ) (index : ℤ) :
      btf.unnamed.types[typeId]? = some (.declTag name next index) ↔
        btf.types[typeId]? = some (.declTag name next index) := getElem_unnamed_of rfl
  simp only [VarsInSections, refers_unnamed, hvar, htag]

/-- Whether a table is well-formed does not depend on the names. -/
theorem wellFormed_unnamed : btf.unnamed.WellFormed ↔ btf.WellFormed := by
  have harray (typeId : ℕ) (t : BtfArray) :
      btf.unnamed.types[typeId]? = some (.array t) ↔ btf.types[typeId]? = some (.array t) :=
    getElem_unnamed_of rfl
  simp only [wellFormed_iff, sizeOf_unnamed, varsInSections_unnamed, harray]
  refine and_congr (forall_congr' fun _ ↦ forall_getElem_unnamed_mk (.inl rfl) fun _ _ ↦ Iff.rfl) ?_
  refine and_congr (forall_congr' fun _ ↦ forall_getElem_unnamed_mk (.inr rfl) fun _ _ ↦ Iff.rfl) ?_
  refine and_congr_right' (and_congr ?_ (and_congr_left' ?_))
  · exact forall_congr' fun _ ↦ forall_isComposite_unnamed fun _ _ ↦ Iff.rfl
  · exact forall_congr' fun _ ↦ forall_isComposite_unnamed fun _ _ ↦ Iff.rfl

theorem partsFit_unnamed {target : Target} {fuel : ℕ} {items : List (ℕ × RustItem)} :
    btf.unnamed.PartsFit target fuel items ↔ btf.PartsFit target fuel items := by
  have hsize : (∀ (typeId : ℕ) (t : BtfComposite), btf.unnamed.IsComposite typeId t →
      EmbeddedIn items typeId → btf.unnamed.generatedSize target fuel typeId t = .ok t.size) ↔
      ∀ (typeId : ℕ) (t : BtfComposite), btf.IsComposite typeId t → EmbeddedIn items typeId →
        btf.generatedSize target fuel typeId t = .ok t.size := by
    refine forall_congr' fun typeId ↦ ?_
    rw [← forall_isComposite_unnamed (P := fun t ↦ EmbeddedIn items typeId →
      btf.generatedSize target fuel typeId t = .ok t.size) fun t name ↦ Iff.rfl]
    refine forall_congr' fun t ↦ ?_
    rw [generatedSize_unnamed btf target fuel typeId t t.name]
  exact ⟨fun h ↦ ⟨hsize.mp h.size_eq, h.unpacked⟩, fun h ↦ ⟨hsize.mpr h.size_eq, h.unpacked⟩⟩

end

end Btf

/-! ## From the bytes of the section -/

theorem unnamed_withAnon (t : BtfType) (anonCount : ℕ) : (t.withAnon anonCount).1.unnamed = t.unnamed := by
  cases t <;> rfl

/-- The table as it is read is the one that was written, but for names. -/
theorem unnamed_nameAll (types : List BtfType) (ptrSize anonCount : ℕ) :
    (⟨.void :: nameAll anonCount types, ptrSize⟩ : Btf).unnamed =
      (⟨.void :: types, ptrSize⟩ : Btf).unnamed := by
  have hmap : (nameAll anonCount types).map BtfType.unnamed = types.map BtfType.unnamed := by
    induction types generalizing anonCount with
    | nil => rfl
    | cons t types ih => rw [nameAll, List.map_cons, List.map_cons, unnamed_withAnon, ih]
  simp only [Btf.unnamed, List.map_cons, hmap]

end EbpfPlayground.LibbpfCargo
