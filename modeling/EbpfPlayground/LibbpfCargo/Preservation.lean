import EbpfPlayground.LibbpfCargo.Shapes

/-!
# The layout of the generated types

A type of the table and the Rust type that stands for it are the same bytes: they have the same size
and hold the same scalars at the same offsets.
-/

namespace EbpfPlayground.LibbpfCargo

open Fallible
open Layout (IsAlignment Shape alignUp shift)

/-- The type of the table has this size, this alignment and these scalars, and the Rust type has the
same ones, but for alignments above a word of the target. -/
structure Agrees (btf : Btf) (target : Target) (items : List (ℕ × RustItem)) (fuel typeId : ℕ)
    (ty : RustType) (size align : ℕ) (cells : List (ℕ × Scalar)) : Prop where
  sizeOf_eq : btf.sizeOf fuel typeId = .ok size
  cellsOf_eq : btf.cellsOf fuel typeId = .ok cells
  isAlignment : IsAlignment align
  le_ptrSize : align ≤ btf.ptrSize
  shape_eq : ∀ depth, fuel ≤ depth →
    ty.shape target (itemShape target items depth) = some ⟨size, min target.word align, cells⟩

/-- The items that a type embeds are there, as parts of another one. -/
def Ready (items : List (ℕ × RustItem)) (ty : RustType) : Prop :=
  ∀ typeId, ty.embeds = some typeId →
    EmbeddedIn items typeId ∧ ∃ item, items.lookup typeId = some item

section

variable {btf : Btf} {target : Target} {items : List (ℕ × RustItem)}

theorem isAlignment_of_mem_integerWidths {size : ℕ} (h : size ∈ integerWidths) : IsAlignment size := by
  simp only [integerWidths, List.mem_cons, List.not_mem_nil, or_false] at h
  rcases h with rfl | rfl | rfl | rfl | rfl
  exacts [⟨0, rfl⟩, ⟨1, rfl⟩, ⟨2, rfl⟩, ⟨3, rfl⟩, ⟨4, rfl⟩]

/-- Scalars that are aligned to their size, up to a pointer. -/
theorem agrees_scalar (hsuits : target.Suits btf) {fuel typeId size : ℕ} {ty : RustType} {kind : Scalar}
    (hsize : btf.sizeOf fuel typeId = .ok size) (hcells : btf.cellsOf fuel typeId = .ok [(0, kind)])
    (halign : IsAlignment size)
    (hshape : ∀ depth, fuel ≤ depth →
      ty.shape target (itemShape target items depth) = some (target.scalar size kind)) :
    Agrees btf target items fuel typeId ty size (min btf.ptrSize size) [(0, kind)] where
  sizeOf_eq := hsize
  cellsOf_eq := hcells
  isAlignment := hsuits.isAlignment_ptrSize.min halign
  le_ptrSize := min_le_left _ _
  shape_eq depth hdepth := by
    rw [hshape depth hdepth, ← min_assoc, min_eq_left hsuits.word_bounds.2]
    rfl

theorem BtfInt.declaration_shape {t : BtfInt} {ty : RustType} (h : t.declaration = .ok ty) :
    t.bytes ∈ integerWidths ∧
      ∀ itemShape, ty.shape target itemShape = some (target.scalar t.bytes t.scalar) := by
  simp only [BtfInt.declaration, bind_eq_ok, ensure_eq_ok] at h
  obtain ⟨_, hwidth, h⟩ := h
  refine ⟨hwidth, fun itemShape ↦ ?_⟩
  rw [BtfInt.scalar]
  cases hencoding : t.encoding with
  | bool =>
    rw [hencoding] at h
    simp only [bind_eq_ok, ensure_eq_ok] at h
    obtain ⟨_, hbits, heq⟩ := h
    obtain rfl := Except.ok.inj heq
    have hbytes : t.bytes = 1 := by rw [BtfInt.bytes, hbits]
    rw [hbytes]
    rfl
  | signed | char | none =>
    rw [hencoding] at h
    obtain rfl := Except.ok.inj h
    rfl

/-! ## The members of a struct or union -/

/-- One step of `align_of` on a struct or union. -/
def Btf.alignStep (btf : Btf) (fuel align : ℕ) (m : BtfMember) : Except Error ℕ := do
  let memberAlign ← btf.alignOf fuel m.typeId
  .ok (max align memberAlign)

/-- One step of `cellsOf` on a struct or union. -/
def Btf.cellsStep (btf : Btf) (fuel : ℕ) (cells : List (ℕ × Scalar)) (m : BtfMember) :
    Except Error (List (ℕ × Scalar)) := do
  let memberCells ← btf.cellsOf fuel m.typeId
  .ok (cells ++ shift (m.bitOffset / 8) memberCells)

theorem requiredPadding_eq_ok {fuel current required typeId padding : ℕ} {packed : Bool}
    (h : btf.requiredPadding fuel current required typeId packed = .ok padding) :
    current ≤ required ∧ ∃ align, btf.paddingAlign fuel typeId packed = .ok align ∧
      padding = if alignUp current align = required then 0 else required - current := by
  simp only [Btf.requiredPadding, bind_eq_ok, ensure_eq_ok] at h
  obtain ⟨_, hle, align, halign, h⟩ := h
  refine ⟨hle, align, halign, ?_⟩
  split at h <;> simp_all

/-- A struct that is not packed has its members where their alignments want them. -/
theorem dvd_of_not_packed {fuel typeId : ℕ} {t : BtfComposite} (hstruct : t.isStruct = true)
    (h : btf.isStructPacked fuel typeId t = .ok false) {m : BtfMember} (hm : m ∈ t.members)
    (hbits : m.bitSize = 0) {align : ℕ} (halign : btf.alignOf fuel m.typeId = .ok align)
    (hsmall : align * 8 < 2 ^ 32) : align * 8 ∣ m.bitOffset := by
  rw [Btf.isStructPacked, if_neg (not_not.mpr hstruct)] at h
  simp only [bind_eq_ok, ensure_eq_ok] at h
  obtain ⟨_, -, _, -, h⟩ := h
  split at h
  · cases h
  generalize t.members = members at h hm
  induction members with
  | nil => cases hm
  | cons first members ih =>
    simp only [Btf.anyMisaligned, bind_eq_ok, ensure_eq_ok] at h
    obtain ⟨firstAlign, hfirst, _, -, h⟩ := h
    split at h
    · cases h
    · next hnot =>
      rcases List.mem_cons.mp hm with rfl | hrest
      · obtain rfl := Except.ok.inj (halign.symm.trans hfirst)
        rw [not_and, not_not, wrap32_of_lt hsmall] at hnot
        exact Nat.dvd_of_mod_eq_zero (hnot hbits)
      · exact ih h hrest

/-- The shapes of the padding in front of a field. -/
theorem mapM_padField (hsuits : target.Suits btf) (itemShape : ℕ → Option (Shape Scalar))
    (offset padding : ℕ) :
    (padField offset padding).mapM (RustField.shape target itemShape) =
      some (Shape.padding padding) := by
  have hbyte : min target.word 1 = 1 := min_eq_right (by have := hsuits.word_bounds; omega)
  rw [padField, Shape.padding]
  split
  · rfl
  · simp [RustField.shape, RustType.shape, Target.scalar, Shape.scalar, Shape.array, hbyte]

/-- The shapes of the fields after a turn of the loop over the members. -/
theorem mapM_concat (hsuits : target.Suits btf) {itemShape : ℕ → Option (Shape Scalar)}
    {content : List RustField} {shapes : List (Shape Scalar)} {ty : RustType} {shape : Shape Scalar}
    (offset padding : ℕ) (name : Text)
    (hcontent : content.mapM (RustField.shape target itemShape) = some shapes)
    (hshape : ty.shape target itemShape = some shape) :
    (content ++ padField offset padding ++ [(⟨name, ty, true⟩ : RustField)]).mapM
        (RustField.shape target itemShape) =
      some (shapes ++ Shape.padding padding ++ [shape]) := by
  simp [List.mapM_append, hcontent, mapM_padField hsuits, RustField.shape, hshape]

theorem le_extent {fuel extent : ℕ} {members : List BtfMember} (h : btf.extent fuel members = .ok extent)
    {m : BtfMember} (hm : m ∈ members) {size : ℕ} (hsize : btf.sizeOf fuel m.typeId = .ok size) :
    m.bitOffset / 8 + size ≤ extent := by
  refine foldlM_induction (fun done extent ↦ ∀ m ∈ done, ∀ size, btf.sizeOf fuel m.typeId = .ok size →
    m.bitOffset / 8 + size ≤ extent) h (fun _ hm ↦ absurd hm List.not_mem_nil) ?_ m hm size hsize
  intro done last mid next _ hmid hstep
  obtain ⟨lastSize, hlast, heq⟩ := bind_eq_ok.mp hstep
  obtain rfl := Except.ok.inj heq
  refine List.forall_mem_append.mpr ⟨fun m hm size hsize ↦ ?_, fun m hm size hsize ↦ ?_⟩
  · exact (hmid m hm size hsize).trans (le_max_left _ _)
  · obtain rfl := List.mem_singleton.mp hm
    obtain rfl := Except.ok.inj (hlast.symm.trans hsize)
    exact le_max_right _ _

/-- The members end where the last of them does. -/
theorem extent_le {fuel extent bound : ℕ} {members : List BtfMember}
    (h : btf.extent fuel members = .ok extent)
    (hbound : ∀ m ∈ members, ∀ size, btf.sizeOf fuel m.typeId = .ok size →
      m.bitOffset / 8 + size ≤ bound) : extent ≤ bound := by
  refine foldlM_induction (fun _ extent ↦ extent ≤ bound) h (Nat.zero_le _) ?_
  intro _ m mid next hm hmid hstep
  obtain ⟨size, hsize, heq⟩ := bind_eq_ok.mp hstep
  obtain rfl := Except.ok.inj heq
  exact max_le hmid (hbound m hm size hsize)

theorem exists_extent {fuel align : ℕ} {members : List BtfMember}
    (h : members.foldlM (btf.alignStep fuel) 1 = .ok align) :
    ∃ extent, btf.extent (fuel + 1) members = .ok extent := by
  refine foldlM_induction (fun done _ ↦ ∃ extent, btf.extent (fuel + 1) done = .ok extent) h ⟨0, rfl⟩ ?_
  intro _ m mid next _ hmid hstep
  obtain ⟨extent, hextent⟩ := hmid
  obtain ⟨memberAlign, hmemberAlign, -⟩ := bind_eq_ok.mp hstep
  obtain ⟨size, hsize⟩ := Btf.exists_sizeOf_of_alignOf hmemberAlign
  have hmore := (btf.extends_sizeOf fuel m.typeId).eq_ok hsize
  exact ⟨_, foldlM_concat_eq_ok.mpr ⟨extent, hextent, bind_eq_ok.mpr ⟨size, hmore, rfl⟩⟩⟩

/-- Members that agree with the declarations of their types. -/
def MembersAgree (btf : Btf) (target : Target) (items : List (ℕ × RustItem)) (depth : ℕ)
    (members : List BtfMember) : Prop :=
  ∀ m ∈ members, ∀ align ty more, btf.alignOf depth m.typeId = .ok align →
    btf.typeDeclaration more m.typeId = .ok ty →
      ∃ size cells, Agrees btf target items depth m.typeId ty size align cells

/-- What holds of the fields of a struct after some of its members. -/
structure StructPlaced (btf : Btf) (target : Target) (items : List (ℕ × RustItem)) (depth : ℕ)
    (packed : Bool) (done : List BtfMember) (content : List RustField) (extent align : ℕ)
    (cells : List (ℕ × Scalar)) (shapes : List (Shape Scalar)) : Prop where
  mapM_eq : ∀ more, depth ≤ more →
    content.mapM (RustField.shape target (itemShape target items more)) = some shapes
  cells_eq : done.foldlM (btf.cellsStep depth) [] = .ok cells
  isAlignment : IsAlignment align
  le_ptrSize : align ≤ btf.ptrSize
  fieldsEnd_eq : Layout.fieldsEnd 0 (Shape.fields packed shapes) = extent
  alignment_eq : Layout.alignment (Shape.fields packed shapes) =
    if packed then 1 else min target.word align
  placed_eq : Shape.placed (Shape.fields packed shapes) shapes = cells

theorem StructPlaced.nil (hsuits : target.Suits btf) (depth : ℕ) (packed : Bool) :
    StructPlaced btf target items depth packed [] [] 0 1 [] [] where
  mapM_eq _ _ := rfl
  cells_eq := rfl
  isAlignment := Layout.isAlignment_one
  le_ptrSize := by have := hsuits.word_bounds; omega
  fieldsEnd_eq := by rw [Shape.fields_nil]; rfl
  alignment_eq := by
    have := hsuits.word_bounds
    rw [Shape.fields_nil, Layout.alignment, min_eq_right (by omega), ite_self]
  placed_eq := by rw [Shape.fields_nil]; rfl

/-- One more member. -/
theorem StructPlaced.concat (hsuits : target.Suits btf) {depth : ℕ} {packed : Bool}
    {done : List BtfMember} {content : List RustField} {extent align : ℕ}
    {cells : List (ℕ × Scalar)} {shapes : List (Shape Scalar)}
    (h : StructPlaced btf target items depth packed done content extent align cells shapes)
    {m : BtfMember} {ty : RustType} {size memberAlign padAlign : ℕ}
    {memberCells : List (ℕ × Scalar)} (offset : ℕ) (name : Text)
    (hmember : Agrees btf target items depth m.typeId ty size memberAlign memberCells)
    (hle : extent ≤ m.bitOffset / 8)
    (hpad : padAlign = if packed then 1 else if 4 < memberAlign then 4 else memberAlign)
    (hdvd : packed = false → memberAlign ∣ m.bitOffset / 8) :
    ∃ shapes', StructPlaced btf target items depth packed (done ++ [m])
      (content ++ padField offset (if alignUp extent padAlign = m.bitOffset / 8 then 0
        else m.bitOffset / 8 - extent) ++ [⟨name, ty, true⟩])
      (m.bitOffset / 8 + size) (max align memberAlign)
      (cells ++ shift (m.bitOffset / 8) memberCells) shapes' := by
  have hword := hsuits.isAlignment_word
  have hbounds := hsuits.word_bounds
  -- the alignment on the target lies between the one that the padding counts on and the natural one
  have halignIn : Shape.alignIn packed (⟨size, min target.word memberAlign, memberCells⟩ : Shape Scalar) =
      if packed then 1 else min target.word memberAlign := rfl
  have hmin : IsAlignment (min target.word memberAlign) := hword.min hmember.isAlignment
  have hpos : 0 < Shape.alignIn packed
      (⟨size, min target.word memberAlign, memberCells⟩ : Shape Scalar) := by
    rw [halignIn]
    split
    exacts [Nat.one_pos, hmin.pos]
  have hfine : padAlign ∣ Shape.alignIn packed
      (⟨size, min target.word memberAlign, memberCells⟩ : Shape Scalar) := by
    rw [halignIn, hpad]
    split
    · exact dvd_rfl
    · split
      · next hlarge =>
        exact (Layout.IsAlignment.dvd_iff_le ⟨2, rfl⟩ hmin).mpr (le_min hbounds.1 hlarge.le)
      · next hsmall =>
        exact (hmember.isAlignment.dvd_iff_le hmin).mpr (le_min (by omega) le_rfl)
  have hcoarse : Shape.alignIn packed
      (⟨size, min target.word memberAlign, memberCells⟩ : Shape Scalar) ∣ m.bitOffset / 8 := by
    rw [halignIn]
    cases packed with
    | true => exact one_dvd _
    | false =>
      have hnatural := hdvd rfl
      exact ((hmin.dvd_iff_le hmember.isAlignment).mpr (min_le_right _ _)).trans hnatural
  have hend := h.fieldsEnd_eq
  refine ⟨shapes ++ Shape.padding (Shape.paddingTo packed shapes (m.bitOffset / 8) padAlign) ++
    [⟨size, min target.word memberAlign, memberCells⟩], ?_, ?_, ?_, ?_, ?_, ?_, ?_⟩
  · intro more hmore
    rw [Shape.paddingTo, hend]
    exact mapM_concat hsuits _ _ name (h.mapM_eq more hmore) (hmember.shape_eq more hmore)
  · exact foldlM_concat_eq_ok.mpr ⟨cells, h.cells_eq, bind_eq_ok.mpr ⟨_, hmember.cellsOf_eq, rfl⟩⟩
  · exact h.isAlignment.max hmember.isAlignment
  · exact max_le h.le_ptrSize hmember.le_ptrSize
  · exact Shape.fieldsEnd_paddingTo hpos hfine (hend.trans_le hle) hcoarse
  · rw [Shape.alignment_paddingTo hpos, h.alignment_eq, halignIn]
    split
    · rfl
    · exact (min_max_distrib_left _ _ _).symm
  · rw [Shape.placed_paddingTo hpos hfine (hend.trans_le hle) hcoarse, h.placed_eq]

theorem paddingAlign_eq_ok {fuel depth typeId align padAlign : ℕ} {packed : Bool}
    (h : btf.paddingAlign fuel typeId packed = .ok padAlign)
    (halign : btf.alignOf depth typeId = .ok align) :
    padAlign = if packed then 1 else if 4 < align then 4 else align := by
  cases packed with
  | true => exact (Except.ok.inj h).symm
  | false =>
    simp only [Btf.paddingAlign, Bool.false_eq_true, if_false, bind_eq_ok] at h
    obtain ⟨align', halign', _, -, heq⟩ := h
    rw [Btf.alignOf_unique halign halign', ← Except.ok.inj heq]
    rfl

/-- The members of a struct lie where the table says. -/
theorem exists_structPlaced (hsuits : target.Suits btf) {fuel typeId depth : ℕ} {t : BtfComposite}
    {packed : Bool} {fields : Fields} {extent align : ℕ} (hstruct : t.isStruct = true)
    (hpacked : btf.isStructPacked fuel typeId t = .ok packed)
    (hagree : MembersAgree btf target items depth t.members)
    (hfields : t.members.foldlM (btf.addMember fuel true packed) Fields.empty = .ok fields)
    (hextent : btf.extent fuel t.members = .ok extent) (hsmall : extent < 2 ^ 32)
    (halign : t.members.foldlM (btf.alignStep depth) 1 = .ok align) :
    ∃ cells shapes, StructPlaced btf target items depth packed t.members fields.aggContent extent align
      cells shapes := by
  refine (foldlM_induction (fun done fields ↦ ∀ extent align, btf.extent fuel done = .ok extent →
    done.foldlM (btf.alignStep depth) 1 = .ok align → fields.offset = extent ∧
      ∃ cells shapes, StructPlaced btf target items depth packed done fields.aggContent extent align
        cells shapes) hfields ?_ ?_ extent align hextent halign).2
  · intro extent align hextent halign
    obtain rfl := Except.ok.inj hextent
    obtain rfl := Except.ok.inj halign
    exact ⟨rfl, [], [], .nil hsuits depth packed⟩
  · intro done m mid next hm hmid hadd extent' align' hextent' halign'
    obtain ⟨midExtent, hmidExtent, hstep⟩ := foldlM_concat_eq_ok.mp hextent'
    obtain ⟨size, hsize, heq⟩ := bind_eq_ok.mp hstep
    obtain rfl := Except.ok.inj heq
    obtain ⟨midAlign, hmidAlign, hstep⟩ := foldlM_concat_eq_ok.mp halign'
    obtain ⟨memberAlign, hmemberAlign, heq⟩ := bind_eq_ok.mp hstep
    obtain rfl := Except.ok.inj heq
    obtain ⟨hoffset, cells, shapes, hplaced⟩ := hmid midExtent midAlign hmidExtent hmidAlign
    obtain ⟨padding, size', ty, ⟨hbits, -⟩, hpadding, hsize', hty, hcontent, hend⟩ := Btf.addMember_spec hadd
    obtain rfl := Btf.sizeOf_unique hsize' hsize
    obtain ⟨hle, padAlign, hpadAlign, rfl⟩ := requiredPadding_eq_ok hpadding
    rw [hoffset] at hle hcontent
    obtain ⟨size, memberCells, hmember⟩ := hagree m hm memberAlign ty _ hmemberAlign hty
    obtain rfl := Btf.sizeOf_unique hsize hmember.sizeOf_eq
    have hdvd : packed = false → memberAlign ∣ m.bitOffset / 8 := by
      rintro rfl
      have hptr := hsuits.ptrSize_eq
      have hlow := hmember.le_ptrSize
      rw [Btf.paddingAlign] at hpadAlign
      obtain ⟨align'', halign'', -⟩ := bind_eq_ok.mp hpadAlign
      obtain rfl := Btf.alignOf_unique hmemberAlign halign''
      have hbitsDvd := dvd_of_not_packed hstruct hpacked hm hbits halign'' (by omega)
      exact Nat.dvd_div_of_mul_dvd (by rwa [Nat.mul_comm])
    have hmax : max midExtent (m.bitOffset / 8 + size') = m.bitOffset / 8 + size' :=
      max_eq_right (hle.trans (Nat.le_add_right _ _))
    have hfits := (le_extent hextent hm hsize).trans_lt hsmall
    rw [hmax, hend, wrap32_of_lt hfits]
    obtain ⟨shapes', hnext⟩ := hplaced.concat hsuits midExtent (m.fieldName ty) hmember hle
      (paddingAlign_eq_ok hpadAlign hmemberAlign) hdvd
    rw [hcontent]
    exact ⟨rfl, _, shapes', hnext⟩

/-- What holds of the fields of a union after some of its members. -/
structure UnionPlaced (btf : Btf) (target : Target) (items : List (ℕ × RustItem)) (depth : ℕ)
    (done : List BtfMember) (content : List RustField) (extent align : ℕ)
    (cells : List (ℕ × Scalar)) (shapes : List (Shape Scalar)) : Prop where
  mapM_eq : ∀ more, depth ≤ more →
    content.mapM (RustField.shape target (itemShape target items more)) = some shapes
  cells_eq : done.foldlM (btf.cellsStep depth) [] = .ok cells
  isAlignment : IsAlignment align
  le_ptrSize : align ≤ btf.ptrSize
  largest_eq : Layout.largest (shapes.map Shape.field) = extent
  alignment_eq : Layout.alignment (shapes.map Shape.field) = min target.word align
  flatMap_eq : shapes.flatMap Shape.cells = cells

/-- The members of a union lie at its beginning. -/
theorem exists_unionPlaced (hsuits : target.Suits btf) {fuel depth : ℕ} {t : BtfComposite}
    {packed : Bool} {fields : Fields} {extent align : ℕ} (hzero : ∀ m ∈ t.members, m.bitOffset = 0)
    (hagree : MembersAgree btf target items depth t.members)
    (hfields : t.members.foldlM (btf.addMember fuel false packed) Fields.empty = .ok fields)
    (hextent : btf.extent fuel t.members = .ok extent)
    (halign : t.members.foldlM (btf.alignStep depth) 1 = .ok align) :
    ∃ cells shapes, UnionPlaced btf target items depth t.members fields.aggContent extent align
      cells shapes := by
  have hbounds := hsuits.word_bounds
  refine foldlM_induction (fun done fields ↦ ∀ extent align, btf.extent fuel done = .ok extent →
    done.foldlM (btf.alignStep depth) 1 = .ok align → ∃ cells shapes,
      UnionPlaced btf target items depth done fields.aggContent extent align cells shapes)
    hfields ?_ ?_ extent align hextent halign
  · intro extent align hextent halign
    obtain rfl := Except.ok.inj hextent
    obtain rfl := Except.ok.inj halign
    have hone : min target.word 1 = 1 := min_eq_right (by omega)
    exact ⟨[], [], fun _ _ ↦ rfl, rfl, Layout.isAlignment_one, by omega, rfl, hone.symm, rfl⟩
  · intro done m mid next hm hmid hadd extent' align' hextent' halign'
    obtain ⟨midExtent, hmidExtent, hstep⟩ := foldlM_concat_eq_ok.mp hextent'
    obtain ⟨size, hsize, heq⟩ := bind_eq_ok.mp hstep
    obtain rfl := Except.ok.inj heq
    obtain ⟨midAlign, hmidAlign, hstep⟩ := foldlM_concat_eq_ok.mp halign'
    obtain ⟨memberAlign, hmemberAlign, heq⟩ := bind_eq_ok.mp hstep
    obtain rfl := Except.ok.inj heq
    obtain ⟨cells, shapes, hplaced⟩ := hmid midExtent midAlign hmidExtent hmidAlign
    obtain ⟨padding, size', ty, -, hpadding, hsize', hty, hcontent, -⟩ := Btf.addMember_spec hadd
    obtain rfl := Btf.sizeOf_unique hsize' hsize
    obtain rfl : 0 = padding := Except.ok.inj hpadding
    obtain ⟨size, memberCells, hmember⟩ := hagree m hm memberAlign ty _ hmemberAlign hty
    obtain rfl := Btf.sizeOf_unique hsize hmember.sizeOf_eq
    have hpos : 0 < min target.word memberAlign :=
      (hsuits.isAlignment_word.min hmember.isAlignment).pos
    have hnopad : Shape.padding 0 = ([] : List (Shape Scalar)) := rfl
    refine ⟨cells ++ memberCells, shapes ++ [⟨size', min target.word memberAlign, memberCells⟩],
      ?_, ?_, ?_, ?_, ?_, ?_, ?_⟩
    · intro more hmore
      rw [hcontent, mapM_concat hsuits _ 0 _ (hplaced.mapM_eq more hmore) (hmember.shape_eq more hmore),
        hnopad, List.append_nil]
    · refine foldlM_concat_eq_ok.mpr ⟨cells, hplaced.cells_eq, bind_eq_ok.mpr ⟨_, hmember.cellsOf_eq, ?_⟩⟩
      rw [hzero m hm, Nat.zero_div, Layout.shift_zero]
    · exact hplaced.isAlignment.max hmember.isAlignment
    · exact max_le hplaced.le_ptrSize hmember.le_ptrSize
    · rw [List.map_append, Layout.largest_append, hplaced.largest_eq, hzero m hm, Nat.zero_div,
        Nat.zero_add]
      exact congrArg (max midExtent) (max_eq_left (Nat.zero_le _))
    · rw [List.map_append, Layout.alignment_append, hplaced.alignment_eq, List.map_singleton,
        Layout.alignment_singleton _ hpos]
      exact (min_max_distrib_left _ _ _).symm
    · rw [List.flatMap_append, hplaced.flatMap_eq]
      simp

/-! ## Items -/

theorem skip_of_not_modifier {fuel typeId stripped : ℕ} {t : BtfType} (ht : btf.types[typeId]? = some t)
    (hdef : isDefinable t = true) (h : btf.skipModsAndTypedefs fuel typeId = .ok stripped) :
    stripped = typeId := by
  cases fuel with
  | zero => cases h
  | succ fuel =>
    obtain ⟨t', ht', hrest⟩ := bind_eq_ok.mp h
    obtain rfl := Option.some.inj (ht.symm.trans (Btf.typeById_eq_ok.mp ht'))
    cases t with
    | struct _ | union _ | enum _ | datasec _ => exact (Except.ok.inj hrest).symm
    | _ => cases hdef

theorem alignOf_composite {fuel typeId align : ℕ} {t : BtfComposite} (ht : btf.IsComposite typeId t)
    (h : btf.alignOf (fuel + 1) typeId = .ok align) :
    t.members.foldlM (btf.alignStep fuel) 1 = .ok align := by
  obtain ⟨stripped, hskip, h⟩ := bind_eq_ok.mp h
  obtain ⟨t', ht', h⟩ := bind_eq_ok.mp h
  rw [Btf.typeById_eq_ok] at ht'
  rcases ht with ht | ht
  all_goals
    obtain rfl := skip_of_not_modifier ht rfl hskip
    obtain rfl := Option.some.inj (ht.symm.trans ht')
    exact h

/-- A struct or union whose members agree with their declarations has the shape of its definition. -/
theorem composite_shape (hsuits : target.Suits btf) (hformed : btf.WellFormed) {fuel depth typeId align : ℕ}
    {t : BtfComposite} {item : RustItem} {dependentTypes : List ℕ}
    (ht : btf.IsComposite typeId t) (hlookup : items.lookup typeId = some item)
    (hdefine : btf.define fuel typeId = .ok (item, dependentTypes))
    (hagree : MembersAgree btf target items depth t.members)
    (halign : btf.alignOf (depth + 1) typeId = .ok align) {size : ℕ}
    (hsize : btf.generatedSize target fuel typeId t = .ok size) :
    ∃ c cells, item = .composite c ∧ t.members.foldlM (btf.cellsStep depth) [] = .ok cells ∧
      IsAlignment align ∧ align ≤ btf.ptrSize ∧
      ∀ more, depth < more → itemShape target items more typeId =
        some ⟨size, if c.packed then 1 else min target.word align, cells⟩ := by
  have hsteps := alignOf_composite ht halign
  simp only [Btf.generatedSize, bind_eq_ok] at hsize
  obtain ⟨packed, hpacked, align', halign', extent, hextent, hsize⟩ := hsize
  obtain rfl := Btf.alignOf_unique halign halign'
  obtain rfl := Except.ok.inj hsize
  obtain ⟨packed', fields, impl, hpacked', hfields, -, rfl⟩ := Btf.define_composite ht hdefine
  obtain rfl := Except.ok.inj (hpacked.symm.trans hpacked')
  -- the shape of an item is that of its fields one level below
  have hitem : ∀ shapes shape, (∀ more, depth ≤ more →
      fields.aggContent.mapM (RustField.shape target (itemShape target items more)) = some shapes) →
      (if t.isStruct then Shape.record packed shapes else Shape.union shapes) = shape →
      ∀ more, depth < more → itemShape target items more typeId = some shape := by
    intro shapes shape hshapes hshape more hmore
    obtain ⟨more, rfl⟩ := Nat.exists_eq_add_of_lt hmore
    rw [itemShape, hlookup, Option.bind_some, RustItem.shape, hshapes _ (by omega), Option.map_some, hshape]
  cases hstruct : t.isStruct with
  | true =>
    rw [hstruct] at hfields hitem
    have hextentSmall : extent < 2 ^ 32 :=
      (extent_le hextent fun m hm ↦ hformed.within typeId t ht m hm fuel).trans_lt
        (hformed.size_lt typeId t ht)
    obtain ⟨cells, shapes, hplaced⟩ := exists_structPlaced hsuits hstruct hpacked hagree hfields hextent
      hextentSmall hsteps
    refine ⟨_, cells, rfl, hplaced.cells_eq, hplaced.isAlignment, hplaced.le_ptrSize,
      hitem shapes _ hplaced.mapM_eq ?_⟩
    rw [if_pos rfl, Shape.record, hplaced.alignment_eq, hplaced.placed_eq, Layout.recordSize,
      hplaced.fieldsEnd_eq, hplaced.alignment_eq]
  | false =>
    rw [hstruct] at hfields hitem
    obtain rfl : false = packed := by
      rw [Btf.isStructPacked, hstruct] at hpacked
      exact Except.ok.inj hpacked
    have hzero : ∀ m ∈ t.members, m.bitOffset = 0 := by
      rcases ht with ht | ht
      · cases (hformed.isStruct typeId t ht).symm.trans hstruct
      · exact (hformed.isUnion typeId t ht).2
    obtain ⟨cells, shapes, hplaced⟩ := exists_unionPlaced hsuits hzero hagree hfields hextent hsteps
    refine ⟨_, cells, rfl, hplaced.cells_eq, hplaced.isAlignment, hplaced.le_ptrSize,
      hitem shapes _ hplaced.mapM_eq ?_⟩
    rw [if_neg (by decide), Shape.union, hplaced.alignment_eq, hplaced.flatMap_eq, Layout.unionSize,
      hplaced.largest_eq, hplaced.alignment_eq]
    rfl

/-! ## All types -/

/-- The type of a member is the declared type of a field. -/
theorem exists_field {fuel typeId : ℕ} {item : RustItem} {dependentTypes : List ℕ} {t : BtfComposite}
    (ht : btf.IsComposite typeId t) (h : btf.define fuel typeId = .ok (item, dependentTypes))
    {m : BtfMember} (hm : m ∈ t.members) {more : ℕ} {ty : RustType}
    (hty : btf.typeDeclaration more m.typeId = .ok ty) :
    ∃ c, item = .composite c ∧ ∃ field ∈ c.fields, field.ty = ty := by
  obtain ⟨packed, fields, impl, -, hfields, -, rfl⟩ := Btf.define_composite ht h
  refine ⟨_, rfl, ?_⟩
  refine foldlM_induction (fun done fields ↦ ∀ m ∈ done, ∀ more ty,
    btf.typeDeclaration more m.typeId = .ok ty → ∃ field ∈ fields.aggContent, field.ty = ty) hfields
    (fun _ hm ↦ absurd hm List.not_mem_nil) ?_ m hm more ty hty
  intro done last mid next _ hmid hadd
  obtain ⟨padding, size, lastTy, -, -, -, hlast, hcontent, -⟩ := Btf.addMember_spec hadd
  rw [hcontent]
  refine List.forall_mem_append.mpr ⟨fun m hm more ty hty ↦ ?_, fun m hm more ty hty ↦ ?_⟩
  · obtain ⟨field, hfield, heq⟩ := hmid m hm more ty hty
    exact ⟨field, List.mem_append_left _ (List.mem_append_left _ hfield), heq⟩
  · obtain rfl := List.mem_singleton.mp hm
    exact ⟨_, List.mem_append_right _ (List.mem_singleton_self _), Btf.typeDeclaration_unique hlast hty⟩

theorem ready_field {fuel turns root : ℕ} (hvars : btf.VarsInSections)
    (h : btf.typeDefinition fuel turns root = .ok items) {typeId : ℕ} {c : RustComposite}
    (hitem : (typeId, .composite c) ∈ items) {field : RustField} (hfield : field ∈ c.fields) :
    Ready items field.ty := by
  intro embedded hembeds
  obtain ⟨name, hmentions⟩ := Btf.mentions_of_embeds hembeds
  obtain ⟨inner, _, hinner, -⟩ := Btf.item_of_mentions hvars h hitem hfield hmentions
  exact ⟨⟨typeId, c, hitem, field, hfield, hembeds⟩, inner,
    Worklist.lookup_of_mem (Btf.nodup_items h) hinner⟩

theorem ready_member {fuel turns root : ℕ} (hvars : btf.VarsInSections)
    (h : btf.typeDefinition fuel turns root = .ok items) {typeId : ℕ} {item : RustItem}
    (hitem : (typeId, item) ∈ items) {t : BtfComposite} (ht : btf.IsComposite typeId t) {m : BtfMember}
    (hm : m ∈ t.members) {more : ℕ} {ty : RustType} (hty : btf.typeDeclaration more m.typeId = .ok ty) :
    Ready items ty := by
  obtain ⟨_, hdefine⟩ := Btf.define_of_mem h hitem
  obtain ⟨c, rfl, field, hfield, rfl⟩ := exists_field ht hdefine hm hty
  exact ready_field hvars h hitem hfield

theorem mem_of_lookup {typeId : ℕ} {item : RustItem} (h : items.lookup typeId = some item) :
    (typeId, item) ∈ items := by
  obtain ⟨before, behind, rfl, -⟩ := List.lookup_eq_some_iff.mp h
  exact List.mem_append_right _ List.mem_cons_self

/-- Every type that has an alignment agrees with its declaration, by induction on the depth to which
`align_of` goes. -/
theorem agrees_of_alignOf (hsuits : target.Suits btf) (hformed : btf.WellFormed)
    {fuel turns root : ℕ} (hparts : btf.PartsFit target fuel items)
    (hdef : btf.typeDefinition fuel turns root = .ok items) {depth typeId align : ℕ}
    (halign : btf.alignOf depth typeId = .ok align) {more : ℕ} {ty : RustType}
    (hty : btf.typeDeclaration more typeId = .ok ty) (hready : Ready items ty) :
    ∃ size cells, Agrees btf target items depth typeId ty size align cells := by
  induction depth generalizing typeId align more ty with
  | zero => cases halign
  | succ depth ih =>
    obtain ⟨stripped, hskip, halign'⟩ := bind_eq_ok.mp halign
    obtain ⟨t, ht, hbody⟩ := bind_eq_ok.mp halign'
    cases more with
    | zero => cases hty
    | succ more =>
    obtain ⟨stripped', hskip', hty⟩ := bind_eq_ok.mp hty
    obtain rfl := Btf.skip_unique hskip hskip'
    obtain ⟨t', ht', hty⟩ := bind_eq_ok.mp hty
    obtain rfl := Except.ok.inj (ht.symm.trans ht')
    have htype := Btf.typeById_eq_ok.mp ht
    cases t with
    | int t =>
      obtain ⟨hwidth, hshape⟩ := BtfInt.declaration_shape hty
      obtain rfl := Except.ok.inj hbody
      exact ⟨_, _, agrees_scalar hsuits (Btf.skip_bind hskip ht rfl)
        (Btf.skip_bind hskip ht rfl)
        (isAlignment_of_mem_integerWidths hwidth) fun _ _ ↦ hshape _⟩
    | float name size =>
      obtain ⟨hsize, rfl⟩ := floatDeclaration_eq_ok hty
      have hwidth : IsAlignment size := by
        rcases hsize with rfl | rfl
        exacts [⟨2, rfl⟩, ⟨3, rfl⟩]
      obtain rfl := Except.ok.inj hbody
      exact ⟨_, _, agrees_scalar hsuits (Btf.skip_bind hskip ht rfl)
        (Btf.skip_bind hskip ht rfl) hwidth fun _ _ ↦ rfl⟩
    | ptr pointee =>
      obtain ⟨pointeeTy, -, hty⟩ := bind_eq_ok.mp hty
      obtain rfl := Except.ok.inj hty
      obtain rfl := Except.ok.inj hbody
      have hagrees : Agrees btf target items (depth + 1) typeId (.pointer pointeeTy) btf.ptrSize
          (min btf.ptrSize btf.ptrSize) [(0, .pointer)] := agrees_scalar hsuits
        (Btf.skip_bind hskip ht rfl)
        (Btf.skip_bind hskip ht rfl) hsuits.isAlignment_ptrSize
        fun _ _ ↦ by rw [← hsuits.ptrSize]; rfl
      rw [min_self] at hagrees
      exact ⟨_, _, hagrees⟩
    | enum t =>
      obtain rfl := Except.ok.inj hty
      obtain rfl := Except.ok.inj hbody
      obtain ⟨-, item, hlookup⟩ := hready stripped rfl
      obtain ⟨_, hdefine⟩ := Btf.define_of_mem hdef (mem_of_lookup hlookup)
      obtain ⟨hwidth, rfl⟩ := Btf.define_enum htype hdefine
      refine ⟨_, _, agrees_scalar hsuits (Btf.skip_bind hskip ht rfl)
        (Btf.skip_bind hskip ht rfl)
        (isAlignment_of_mem_integerWidths hwidth) fun deep hdeep ↦ ?_⟩
      obtain ⟨deep, rfl⟩ := Nat.exists_eq_add_of_lt hdeep
      rw [RustType.shape, itemShape, hlookup]
      rfl
    | array t =>
      obtain ⟨elemTy, helem, hty⟩ := bind_eq_ok.mp hty
      obtain rfl := Except.ok.inj hty
      obtain ⟨size, cells, hagrees⟩ := ih hbody helem hready
      have hsmall := hformed.array stripped t depth size htype hagrees.sizeOf_eq
      refine ⟨t.nelems * size, Shape.arrayCells t.nelems size cells, ?_, ?_, hagrees.isAlignment,
        hagrees.le_ptrSize, fun deep hdeep ↦ ?_⟩
      · refine Btf.skip_bind hskip ht (bind_eq_ok.mpr ⟨size, hagrees.sizeOf_eq, ?_⟩)
        rw [wrap32_of_lt hsmall]
      · exact Btf.skip_bind hskip ht (bind_eq_ok.mpr
          ⟨size, hagrees.sizeOf_eq, bind_eq_ok.mpr ⟨cells, hagrees.cellsOf_eq, rfl⟩⟩)
      · rw [RustType.shape, hagrees.shape_eq deep (by omega)]
        rfl
    | var v =>
      obtain ⟨size, cells, hagrees⟩ := ih hbody hty hready
      exact ⟨size, cells,
        Btf.skip_bind hskip ht hagrees.sizeOf_eq,
        Btf.skip_bind hskip ht hagrees.cellsOf_eq,
        hagrees.isAlignment, hagrees.le_ptrSize, fun deep hdeep ↦ hagrees.shape_eq deep (by omega)⟩
    | struct t | union t =>
      obtain rfl := Except.ok.inj hty
      obtain ⟨hembedded, item, hlookup⟩ := hready stripped rfl
      have hitem := mem_of_lookup hlookup
      obtain ⟨_, hdefine⟩ := Btf.define_of_mem hdef hitem
      have hcomposite : btf.IsComposite stripped t := by
        first | exact .inl htype | exact .inr htype
      have hagree : MembersAgree btf target items depth t.members := fun m hm align ty more halign hty ↦
        ih halign hty (ready_member hformed.vars hdef hitem hcomposite hm hty)
      obtain ⟨c, cells, rfl, hcells, hal, hle, hshape⟩ := composite_shape hsuits hformed hcomposite hlookup
        hdefine hagree (Btf.skip_bind (Btf.skip_self hskip) ht hbody)
        (hparts.size_eq stripped t hcomposite hembedded)
      refine ⟨t.size, cells, Btf.skip_bind hskip ht rfl, Btf.skip_bind hskip ht hcells, hal, hle,
        fun deep hdeep ↦ ?_⟩
      rw [RustType.shape, hshape deep (by omega), hparts.unpacked stripped c hembedded hitem]
      rfl
    | datasec t => cases hty
    | _ => cases hbody

/-- A struct or union that `type_definition` writes, once its alignment is known. -/
theorem item_shape (hsuits : target.Suits btf) (hformed : btf.WellFormed) {fuel turns root : ℕ}
    (hparts : btf.PartsFit target fuel items) (hdef : btf.typeDefinition fuel turns root = .ok items)
    {typeId : ℕ} {c : RustComposite} (hitem : (typeId, .composite c) ∈ items) {t : BtfComposite}
    (ht : btf.IsComposite typeId t) {align : ℕ} (halign : btf.alignOf fuel typeId = .ok align) :
    ∃ size cells, btf.generatedSize target fuel typeId t = .ok size ∧
      btf.cellsOf fuel typeId = .ok cells ∧ itemShape target items fuel typeId =
        some ⟨size, if c.packed then 1 else min target.word align, cells⟩ := by
  obtain ⟨_, hdefine⟩ := Btf.define_of_mem hdef hitem
  obtain ⟨packed, fields, impl, hpacked, -⟩ := Btf.define_composite ht hdefine
  cases fuel with
  | zero => cases halign
  | succ depth =>
    obtain ⟨extent, hextent⟩ := exists_extent (alignOf_composite ht halign)
    have hsize : btf.generatedSize target (depth + 1) typeId t =
        .ok (alignUp extent (if packed then 1 else min target.word align)) := by
      simp only [Btf.generatedSize, hpacked, halign, hextent, ok_bind]
    have hagree : MembersAgree btf target items depth t.members := fun m hm align ty more halign hty ↦
      agrees_of_alignOf hsuits hformed hparts hdef halign hty
        (ready_member hformed.vars hdef hitem ht hm hty)
    obtain ⟨c', cells, heq, hcells, -, -, hshape⟩ := composite_shape hsuits hformed ht
      (Worklist.lookup_of_mem (Btf.nodup_items hdef) hitem) hdefine hagree halign hsize
    obtain rfl := RustItem.composite.inj heq
    refine ⟨_, cells, hsize, ?_, hshape _ (Nat.lt_succ_self depth)⟩
    obtain ⟨stripped, hskip, hrest⟩ := bind_eq_ok.mp halign
    obtain ⟨t', ht', -⟩ := bind_eq_ok.mp hrest
    have htype := Btf.typeById_eq_ok.mp ht'
    rcases ht with ht | ht
    all_goals
      obtain rfl := skip_of_not_modifier ht rfl hskip
      exact Btf.skip_bind hskip (Btf.typeById_eq_ok.mpr ht) hcells

end

/-- `struct aligned { int a; }` with an alignment of 8 given by an attribute. -/
def alignedBtf : Btf where
  types := [
    .void,
    .int ⟨"int".toList, 32, 0, .signed⟩,
    .struct ⟨"aligned".toList, true, 8, [⟨"a".toList, 1, 0, 0⟩]⟩]
  ptrSize := 8

/-- The definition lacks the padding at the end. -/
example : (alignedBtf.typeDefinition 3 1 2).map
    (fun items ↦ (itemShape target64 items 3 2).map Shape.size) = .ok (some 4) := by
  rfl

/-! ## Data sections -/

namespace Btf

/-- A variable of a data section as a member of a struct; a static one has no place in it. -/
def globalMember (btf : Btf) (datasecVar : BtfDatasecVar) : Option BtfMember :=
  match btf.types[datasecVar.typeId]? with
  | some (BtfType.var v) =>
    if v.linkage = .static then none else some ⟨v.name, v.typeId, 8 * datasecVar.offset, 0⟩
  | _ => none

/-- The scalars of the variables of a data section. -/
def sectionCells (btf : Btf) (fuel : ℕ) (t : BtfDatasec) : Except Error (List (ℕ × Scalar)) :=
  (t.vars.filterMap btf.globalMember).foldlM (btf.cellsStep fuel) []

/-- What the linker sees to: the variables are aligned, and as large as their types. -/
def SectionFits (btf : Btf) (fuel : ℕ) (t : BtfDatasec) : Prop :=
  ∀ datasecVar ∈ t.vars, ∀ v, btf.types[datasecVar.typeId]? = some (.var v) → v.linkage ≠ .static →
    btf.sizeOf fuel v.typeId = .ok datasecVar.size ∧ datasecVar.offset + datasecVar.size < 2 ^ 32 ∧
      ∀ align, btf.alignOf fuel v.typeId = .ok align → align ∣ datasecVar.offset

end Btf

section

variable {btf : Btf} {target : Target} {items : List (ℕ × RustItem)}

/-- The variables of a data section lie where the table says. -/
theorem exists_sectionPlaced (hsuits : target.Suits btf) {fuel : ℕ} {t : BtfDatasec} {fields : Fields}
    (hfields : t.vars.foldlM (btf.addVar fuel) Fields.empty = .ok fields)
    (hfits : btf.SectionFits fuel t)
    (hagree : ∀ datasecVar ∈ t.vars, ∀ v, btf.types[datasecVar.typeId]? = some (.var v) →
      v.linkage ≠ .static → ∀ align ty, btf.alignOf fuel v.typeId = .ok align →
        btf.typeDeclaration fuel v.typeId = .ok ty →
          ∃ size cells, Agrees btf target items fuel v.typeId ty size align cells) :
    ∃ extent align cells shapes, StructPlaced btf target items fuel false
      (t.vars.filterMap btf.globalMember) fields.aggContent extent align cells shapes := by
  suffices hoffset : ∃ align cells shapes, StructPlaced btf target items fuel false
      (t.vars.filterMap btf.globalMember) fields.aggContent fields.offset align cells shapes by
    obtain ⟨align, cells, shapes, hplaced⟩ := hoffset
    exact ⟨_, align, cells, shapes, hplaced⟩
  refine foldlM_induction (fun done fields ↦ ∃ align cells shapes, StructPlaced btf target items fuel
    false (done.filterMap btf.globalMember) fields.aggContent fields.offset align cells shapes)
    hfields ⟨1, [], [], .nil hsuits fuel false⟩ ?_
  intro done datasecVar mid next hmem hmid hadd
  obtain ⟨align, cells, shapes, hplaced⟩ := hmid
  obtain ⟨v, hv, ⟨hstatic, rfl⟩ | ⟨hlinkage, padding, ty, hpadding, hty, hcontent, hend⟩⟩ :=
    Btf.addVar_spec hadd
  · have hnone : btf.globalMember datasecVar = none := by
      rw [Btf.globalMember, hv]
      exact if_pos hstatic
    rw [List.filterMap_append, List.filterMap_cons, hnone, List.filterMap_nil, List.append_nil]
    exact ⟨align, cells, shapes, hplaced⟩
  · have hsome : btf.globalMember datasecVar = some ⟨v.name, v.typeId, 8 * datasecVar.offset, 0⟩ := by
      rw [Btf.globalMember, hv]
      exact if_neg hlinkage
    obtain ⟨hsize, hsmall, hdvd⟩ := hfits datasecVar hmem v hv hlinkage
    obtain ⟨hle, padAlign, hpadAlign, rfl⟩ := requiredPadding_eq_ok hpadding
    rw [Btf.paddingAlign] at hpadAlign
    obtain ⟨varAlign, hvarAlign, -⟩ := bind_eq_ok.mp hpadAlign
    obtain ⟨size, varCells, hvar⟩ := hagree datasecVar hmem v hv hlinkage varAlign ty hvarAlign hty
    obtain rfl := Except.ok.inj (hsize.symm.trans hvar.sizeOf_eq)
    have hplace : 8 * datasecVar.offset / 8 = datasecVar.offset :=
      Nat.mul_div_cancel_left _ (by decide)
    have hnext := hplaced.concat hsuits (m := ⟨v.name, v.typeId, 8 * datasecVar.offset, 0⟩) mid.offset
      v.name hvar (hle.trans_eq hplace.symm) (paddingAlign_eq_ok hpadAlign hvarAlign)
      fun _ ↦ hplace.symm ▸ hdvd varAlign hvarAlign
    simp only [hplace] at hnext
    obtain ⟨shapes', hnext⟩ := hnext
    rw [List.filterMap_append, List.filterMap_cons, hsome, List.filterMap_nil, hcontent, hend,
      wrap32_of_lt hsmall]
    exact ⟨_, _, shapes', hnext⟩

end

end EbpfPlayground.LibbpfCargo
