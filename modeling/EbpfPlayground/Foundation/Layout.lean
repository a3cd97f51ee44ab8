import Mathlib.Data.List.Basic
import Mathlib.Algebra.Order.Group.Nat
import Mathlib.Order.Lattice

/-!
# Layouts of records

The C representation puts each field at the first offset behind the field before it that its
alignment allows, and rounds the size of the record up to its alignment.  The packed representation
takes every alignment to be one.  The shape of a type is its size, its alignment and the scalars in
it with their offsets.
-/

namespace EbpfPlayground.Layout

/-- The first multiple of the alignment that is not below the offset. -/
def alignUp (offset align : ℕ) : ℕ := (offset + align - 1) / align * align

theorem dvd_alignUp (offset align : ℕ) : align ∣ alignUp offset align := Nat.dvd_mul_left _ _

theorem le_alignUp (offset : ℕ) {align : ℕ} (h : 0 < align) : offset ≤ alignUp offset align := by
  have hlt : offset + align - 1 < align * ((offset + align - 1) / align) + align :=
    Nat.lt_mul_div_succ _ h
  rw [alignUp, Nat.mul_comm]
  omega

theorem alignUp_lt (offset : ℕ) {align : ℕ} (h : 0 < align) : alignUp offset align < offset + align := by
  have hle : (offset + align - 1) / align * align ≤ offset + align - 1 := Nat.div_mul_le_self _ _
  rw [alignUp]
  omega

/-- What a rounded offset is. -/
theorem alignUp_eq_iff {offset align n : ℕ} (h : 0 < align) :
    alignUp offset align = n ↔ offset ≤ n ∧ n < offset + align ∧ align ∣ n := by
  constructor
  · rintro rfl
    exact ⟨le_alignUp offset h, alignUp_lt offset h, dvd_alignUp offset align⟩
  · rintro ⟨hle, hlt, hdvd⟩
    obtain ⟨k, rfl⟩ := hdvd
    obtain ⟨j, hj⟩ := dvd_alignUp offset align
    have hlow := le_alignUp offset h
    have hhigh := alignUp_lt offset h
    rw [hj] at hlow hhigh ⊢
    have hjk : j < k + 1 := Nat.lt_of_mul_lt_mul_left (a := align) (by rw [Nat.mul_succ]; omega)
    have hkj : k < j + 1 := Nat.lt_of_mul_lt_mul_left (a := align) (by rw [Nat.mul_succ]; omega)
    rw [show j = k by omega]

theorem alignUp_of_dvd {offset align : ℕ} (h : 0 < align) (hdvd : align ∣ offset) :
    alignUp offset align = offset :=
  (alignUp_eq_iff h).mpr ⟨le_rfl, Nat.lt_add_of_pos_right h, hdvd⟩

@[simp]
theorem alignUp_one (offset : ℕ) : alignUp offset 1 = offset :=
  alignUp_of_dvd Nat.one_pos (Nat.one_dvd _)

/-- Where a coarser rounding already ends at a multiple of the finer one's multiple, they agree. -/
theorem alignUp_eq_of_dvd {offset align align' n : ℕ} (h : 0 < align') (halign : align ∣ align')
    (hround : alignUp offset align = n) (hdvd : align' ∣ n) : alignUp offset align' = n := by
  have hpos : 0 < align := Nat.pos_of_dvd_of_pos halign h
  obtain ⟨hle, hlt, -⟩ := (alignUp_eq_iff hpos).mp hround
  exact (alignUp_eq_iff h).mpr ⟨hle, hlt.trans_le (Nat.add_le_add_left (Nat.le_of_dvd h halign) _), hdvd⟩

/-- The padding in front of a field that is to be at an offset: none where an alignment brings the
field there by itself.  It does so for every coarser alignment that the offset is a multiple of. -/
theorem alignUp_add_padding {current required align align' : ℕ} (h : 0 < align')
    (halign : align ∣ align') (hle : current ≤ required) (hdvd : align' ∣ required) :
    alignUp (current + if alignUp current align = required then 0 else required - current) align' =
      required := by
  split
  · next hround => exact alignUp_eq_of_dvd h halign hround hdvd
  · rw [Nat.add_sub_cancel' hle]
    exact alignUp_of_dvd h hdvd

/-! ## Powers of two -/

/-- Alignments are powers of two. -/
def IsAlignment (align : ℕ) : Prop := ∃ k, align = 2 ^ k

theorem IsAlignment.pos {align : ℕ} (h : IsAlignment align) : 0 < align := by
  obtain ⟨k, rfl⟩ := h
  exact Nat.two_pow_pos k

theorem IsAlignment.dvd_iff_le {align align' : ℕ} (h : IsAlignment align) (h' : IsAlignment align') :
    align ∣ align' ↔ align ≤ align' := by
  obtain ⟨k, rfl⟩ := h
  obtain ⟨k', rfl⟩ := h'
  rw [Nat.pow_dvd_pow_iff_le_right (by decide), Nat.pow_le_pow_iff_right (by decide)]

theorem isAlignment_one : IsAlignment 1 := ⟨0, rfl⟩

theorem IsAlignment.max {align align' : ℕ} (h : IsAlignment align) (h' : IsAlignment align') :
    IsAlignment (max align align') := by
  rcases max_choice align align' with hmax | hmax <;> rwa [hmax]

theorem IsAlignment.min {align align' : ℕ} (h : IsAlignment align) (h' : IsAlignment align') :
    IsAlignment (min align align') := by
  rcases min_choice align align' with hmin | hmin <;> rwa [hmin]

/-! ## Records -/

structure Field where
  size : ℕ
  align : ℕ

/-- The offsets of the fields. -/
def offsets : ℕ → List Field → List ℕ
  | _, [] => []
  | offset, field :: fields =>
    alignUp offset field.align :: offsets (alignUp offset field.align + field.size) fields

/-- The end of the last field. -/
def fieldsEnd : ℕ → List Field → ℕ
  | offset, [] => offset
  | offset, field :: fields => fieldsEnd (alignUp offset field.align + field.size) fields

/-- The greatest alignment of a field. -/
def alignment : List Field → ℕ
  | [] => 1
  | field :: fields => max field.align (alignment fields)

def recordSize (fields : List Field) : ℕ := alignUp (fieldsEnd 0 fields) (alignment fields)

/-- The greatest size of a field. -/
def largest : List Field → ℕ
  | [] => 0
  | field :: fields => max field.size (largest fields)

/-- All fields at offset zero. -/
def unionSize (fields : List Field) : ℕ := alignUp (largest fields) (alignment fields)

/-- `packed`. -/
def pack (fields : List Field) : List Field := fields.map fun field ↦ { field with align := 1 }

theorem alignment_pos (fields : List Field) : 0 < alignment fields := by
  induction fields with
  | nil => exact Nat.one_pos
  | cons field fields ih => exact lt_max_of_lt_right ih

@[simp]
theorem fieldsEnd_append (offset : ℕ) (first second : List Field) :
    fieldsEnd offset (first ++ second) = fieldsEnd (fieldsEnd offset first) second := by
  induction first generalizing offset with
  | nil => rfl
  | cons field first ih => exact ih _

@[simp]
theorem offsets_append (offset : ℕ) (first second : List Field) :
    offsets offset (first ++ second) =
      offsets offset first ++ offsets (fieldsEnd offset first) second := by
  induction first generalizing offset with
  | nil => rfl
  | cons field first ih => exact congrArg (_ :: ·) (ih _)

@[simp]
theorem alignment_append (first second : List Field) :
    alignment (first ++ second) = max (alignment first) (alignment second) := by
  induction first with
  | nil => exact (max_eq_right (alignment_pos second)).symm
  | cons field first ih => rw [List.cons_append, alignment, alignment, ih, max_assoc]

@[simp]
theorem largest_append (first second : List Field) :
    largest (first ++ second) = max (largest first) (largest second) := by
  induction first with
  | nil => exact (max_eq_right (Nat.zero_le _)).symm
  | cons field first ih => rw [List.cons_append, largest, largest, ih, max_assoc]

@[simp]
theorem alignment_singleton (field : Field) (h : 0 < field.align) : alignment [field] = field.align :=
  max_eq_left h

/-! ## Shapes -/

/-- The size and the alignment of a type, and its scalars at their offsets. -/
structure Shape (σ : Type) where
  size : ℕ
  align : ℕ
  cells : List (ℕ × σ)

variable {σ : Type}

/-- Scalars at offsets behind a given one. -/
def shift (offset : ℕ) (cells : List (ℕ × σ)) : List (ℕ × σ) :=
  cells.map fun cell ↦ (offset + cell.1, cell.2)

@[simp]
theorem shift_zero (cells : List (ℕ × σ)) : shift 0 cells = cells := by
  simp [shift]

namespace Shape

def field (shape : Shape σ) : Field := ⟨shape.size, shape.align⟩

/-- One scalar. -/
def scalar (size align : ℕ) (kind : σ) : Shape σ := ⟨size, align, [(0, kind)]⟩

/-- The scalars of the elements of an array. -/
def arrayCells (len stride : ℕ) (cells : List (ℕ × σ)) : List (ℕ × σ) :=
  (List.range len).flatMap fun i ↦ shift (i * stride) cells

def array (len : ℕ) (elem : Shape σ) : Shape σ :=
  ⟨len * elem.size, elem.align, arrayCells len elem.size elem.cells⟩

/-- The scalars of fields at their offsets. -/
def placed (fields : List Field) (shapes : List (Shape σ)) : List (ℕ × σ) :=
  (List.zipWith (fun offset shape ↦ shift offset shape.cells) (offsets 0 fields) shapes).flatten

/-- The fields of a record, which is packed or not. -/
def fields (packed : Bool) (shapes : List (Shape σ)) : List Field :=
  if packed then pack (shapes.map field) else shapes.map field

def record (packed : Bool) (shapes : List (Shape σ)) : Shape σ :=
  ⟨recordSize (fields packed shapes), alignment (fields packed shapes),
    placed (fields packed shapes) shapes⟩

def union (shapes : List (Shape σ)) : Shape σ :=
  ⟨unionSize (shapes.map field), alignment (shapes.map field), shapes.flatMap cells⟩

/-- The alignment of a shape in a record. -/
def alignIn (packed : Bool) (shape : Shape σ) : ℕ := if packed then 1 else shape.align

@[simp]
theorem fields_append (packed : Bool) (first second : List (Shape σ)) :
    fields packed (first ++ second) = fields packed first ++ fields packed second := by
  cases packed <;> simp [fields, pack]

@[simp]
theorem fields_cons (packed : Bool) (shape : Shape σ) (shapes : List (Shape σ)) :
    fields packed (shape :: shapes) = ⟨shape.size, shape.alignIn packed⟩ :: fields packed shapes := by
  cases packed <;> rfl

@[simp]
theorem fields_nil (packed : Bool) : fields packed ([] : List (Shape σ)) = [] := by
  cases packed <;> rfl

theorem length_offsets (offset : ℕ) (fields : List Field) :
    (offsets offset fields).length = fields.length := by
  induction fields generalizing offset with
  | nil => rfl
  | cons field fields ih => exact congrArg (· + 1) (ih _)

@[simp]
theorem length_fields (packed : Bool) (shapes : List (Shape σ)) :
    (fields packed shapes).length = shapes.length := by
  cases packed <;> simp [fields, pack]

/-- The scalars of one more field. -/
theorem placed_concat (packed : Bool) (shapes : List (Shape σ)) (shape : Shape σ) :
    placed (fields packed (shapes ++ [shape])) (shapes ++ [shape]) =
      placed (fields packed shapes) shapes ++
        shift (alignUp (fieldsEnd 0 (fields packed shapes)) (shape.alignIn packed)) shape.cells := by
  have hlength : (offsets 0 (fields packed shapes)).length = shapes.length := by
    rw [length_offsets, length_fields]
  rw [placed, fields_append, offsets_append, List.zipWith_append hlength, List.flatten_append]
  simp [placed, offsets]

/-- Bytes that no field takes, if any. -/
def padding (size : ℕ) : List (Shape σ) := if size = 0 then [] else [⟨size, 1, []⟩]

theorem fieldsEnd_padding (packed : Bool) (shapes : List (Shape σ)) (size : ℕ) :
    fieldsEnd 0 (fields packed (shapes ++ padding size)) = fieldsEnd 0 (fields packed shapes) + size := by
  rw [padding]
  split
  · next hsize => rw [List.append_nil, hsize, Nat.add_zero]
  · cases packed <;> simp [fieldsEnd, alignIn]

theorem alignment_padding (packed : Bool) (shapes : List (Shape σ)) (size : ℕ) :
    alignment (fields packed (shapes ++ padding size)) = alignment (fields packed shapes) := by
  rw [padding]
  split
  · rw [List.append_nil]
  · have hone : alignIn packed (⟨size, 1, []⟩ : Shape σ) = 1 := by cases packed <;> rfl
    rw [fields_append, alignment_append, fields_cons, fields_nil, hone, alignment_singleton _ Nat.one_pos]
    exact max_eq_left (alignment_pos _)

theorem placed_padding (packed : Bool) (shapes : List (Shape σ)) (size : ℕ) :
    placed (fields packed (shapes ++ padding size)) (shapes ++ padding size) =
      placed (fields packed shapes) shapes := by
  rw [padding]
  split
  · rw [List.append_nil]
  · rw [placed_concat]
    exact List.append_nil _

section

variable {packed : Bool} {shapes : List (Shape σ)} {shape : Shape σ} {required align : ℕ}

/-- The padding in front of a field that is to be at an offset. -/
def paddingTo (packed : Bool) (shapes : List (Shape σ)) (required align : ℕ) : ℕ :=
  if alignUp (fieldsEnd 0 (fields packed shapes)) align = required then 0
  else required - fieldsEnd 0 (fields packed shapes)

theorem alignUp_fieldsEnd_paddingTo (hpos : 0 < shape.alignIn packed)
    (halign : align ∣ shape.alignIn packed) (hle : fieldsEnd 0 (fields packed shapes) ≤ required)
    (hdvd : shape.alignIn packed ∣ required) :
    alignUp (fieldsEnd 0 (fields packed (shapes ++ padding (paddingTo packed shapes required align))))
      (shape.alignIn packed) = required := by
  rw [fieldsEnd_padding]
  exact alignUp_add_padding hpos halign hle hdvd

/-- Behind the padding, a field lies where it is to be. -/
theorem fieldsEnd_paddingTo (hpos : 0 < shape.alignIn packed)
    (halign : align ∣ shape.alignIn packed) (hle : fieldsEnd 0 (fields packed shapes) ≤ required)
    (hdvd : shape.alignIn packed ∣ required) :
    fieldsEnd 0 (fields packed (shapes ++ padding (paddingTo packed shapes required align) ++ [shape])) =
      required + shape.size := by
  rw [fields_append, fieldsEnd_append, fields_cons, fields_nil, fieldsEnd, fieldsEnd,
    alignUp_fieldsEnd_paddingTo hpos halign hle hdvd]

theorem placed_paddingTo (hpos : 0 < shape.alignIn packed)
    (halign : align ∣ shape.alignIn packed) (hle : fieldsEnd 0 (fields packed shapes) ≤ required)
    (hdvd : shape.alignIn packed ∣ required) :
    placed (fields packed (shapes ++ padding (paddingTo packed shapes required align) ++ [shape]))
        (shapes ++ padding (paddingTo packed shapes required align) ++ [shape]) =
      placed (fields packed shapes) shapes ++ shift required shape.cells := by
  rw [placed_concat, alignUp_fieldsEnd_paddingTo hpos halign hle hdvd, placed_padding]

theorem alignment_paddingTo (hpos : 0 < shape.alignIn packed) :
    alignment (fields packed (shapes ++ padding (paddingTo packed shapes required align) ++ [shape])) =
      max (alignment (fields packed shapes)) (shape.alignIn packed) := by
  rw [fields_append, alignment_append, alignment_padding, fields_cons, fields_nil,
    alignment_singleton _ hpos]

end

end Shape

end EbpfPlayground.Layout
