import EbpfPlayground.LibbpfCargo.Closure

/-!
# The defaults of the generated structs

`Default` is derived for a struct unless it has an array of more than 32 elements; then an
`impl Default` is written for it, with one line for each field.
-/

namespace EbpfPlayground.LibbpfCargo

open Fallible

/-- An expression has a type. -/
inductive DefaultExpr.Of : DefaultExpr → RustType → Prop
  | call (ty : RustType) : Of (.call ty) ty
  | nullMut (pointee : RustType) : Of .nullMut (.pointer pointee)
  | repeated {expr : DefaultExpr} {ty : RustType} (h : Of expr ty) (len : ℕ) :
    Of (.repeated expr len) (.array ty len)

section

variable {btf : Btf}

/-- A type with a size and a declaration has a default of the declared type. -/
theorem typeDefault_of {sized declared typeId size : ℕ} {ty : RustType}
    (hsize : btf.sizeOf sized typeId = .ok size) (hty : btf.typeDeclaration declared typeId = .ok ty)
    (fuel : ℕ) :
    btf.typeDefault fuel typeId = .error .outOfFuel ∨
      ∃ expr, btf.typeDefault fuel typeId = .ok expr ∧ expr.Of ty := by
  induction fuel generalizing sized declared typeId size ty with
  | zero => exact .inl rfl
  | succ fuel ih =>
    cases sized with
    | zero => cases hsize
    | succ sized =>
    cases declared with
    | zero => cases hty
    | succ declared =>
    obtain ⟨stripped, hsized, hsize⟩ := bind_eq_ok.mp hsize
    obtain ⟨stripped', hdeclared, hbody⟩ := bind_eq_ok.mp hty
    obtain rfl := Btf.skip_unique hsized hdeclared
    obtain ⟨t, ht, hsize⟩ := bind_eq_ok.mp hsize
    obtain ⟨t', ht', hty'⟩ := bind_eq_ok.mp hbody
    obtain rfl := Except.ok.inj (ht.symm.trans ht')
    rcases Extends.cutOff_or_eq (x := fun fuel ↦ btf.skipModsAndTypedefs fuel typeId)
      (fun fuel ↦ btf.extends_skipModsAndTypedefs fuel typeId) hsized fuel with hcut | hskip
    · rw [Btf.typeDefault, hcut]
      exact .inl rfl
    -- the declaration of a type is the same, or is cut off
    have hdeclaration : ∀ target more, btf.typeDeclaration more target = .ok ty →
        (do
          let ty ← btf.typeDeclaration fuel target
          Except.ok (DefaultExpr.call ty)) = .error .outOfFuel ∨
        ∃ expr, (do
          let ty ← btf.typeDeclaration fuel target
          Except.ok (DefaultExpr.call ty)) = .ok expr ∧ expr.Of ty := by
      intro target more hmore
      rcases Extends.cutOff_or_eq (x := fun fuel ↦ btf.typeDeclaration fuel target)
        (fun fuel ↦ btf.extends_typeDeclaration fuel target) hmore fuel with hcut | heq
      · exact .inl (by rw [hcut, error_bind])
      · exact .inr ⟨.call ty, by rw [heq, ok_bind], .call ty⟩
    have hstripped : btf.typeDeclaration (declared + 1) stripped = .ok ty :=
      bind_eq_ok.mpr ⟨stripped, Btf.skip_self hdeclared, hbody⟩
    rw [Btf.typeDefault, hskip, ok_bind, ht, ok_bind]
    cases t with
    | int t => exact hdeclaration stripped _ hstripped
    | float _ _ => exact hdeclaration stripped _ hstripped
    | var v => exact hdeclaration v.typeId declared hty'
    | ptr pointee =>
      obtain ⟨pointeeTy, -, heq⟩ := bind_eq_ok.mp hty'
      obtain rfl := Except.ok.inj heq
      exact .inr ⟨.nullMut, rfl, .nullMut pointeeTy⟩
    | array t =>
      obtain ⟨elemSize, helemSize, -⟩ := bind_eq_ok.mp hsize
      obtain ⟨elemTy, helemTy, heq⟩ := bind_eq_ok.mp hty'
      obtain rfl := Except.ok.inj heq
      rcases ih helemSize helemTy with hcut | ⟨expr, hexpr, hof⟩
      · exact .inl (by simp only [hcut, withContext, error_bind])
      · exact .inr ⟨.repeated expr t.nelems, by simp only [hexpr, withContext, ok_bind], .repeated hof _⟩
    | struct t | union t =>
      obtain rfl := Except.ok.inj hty'
      exact .inr ⟨_, rfl, .call _⟩
    | enum t =>
      obtain rfl := Except.ok.inj hty'
      exact .inr ⟨_, rfl, .call _⟩
    | datasec t => cases hty'
    | _ => cases hsize

/-- The line that a turn of the loop over the members adds to the `impl Default`, with the one of the
padding in front of it, and when the turn asks for the `impl`. -/
theorem addMember_default {fuel : ℕ} {isStruct packed : Bool} {fields fields' : Fields}
    {member : BtfMember} (h : btf.addMember fuel isStruct packed fields member = .ok fields') :
    ∃ padding expr ty stripped long, expr.Of ty ∧
      btf.skipModsAndTypedefs fuel member.typeId = .ok stripped ∧
      btf.typeDeclaration fuel stripped = .ok ty ∧ btf.isLongArray stripped = .ok long ∧
      fields'.aggContent = fields.aggContent ++ padField fields.offset padding ++
        [⟨member.fieldName ty, ty, true⟩] ∧
      fields'.implDefault = fields.implDefault ++ padDefault fields.offset padding ++
        [(member.name, expr)] ∧
      fields'.genImplDefault = (fields.genImplDefault || (isStruct && long)) := by
  simp only [Btf.addMember, bind_eq_ok, ensure_eq_ok] at h
  obtain ⟨_, -, stripped, hskip, _, -, padding, -, long, hlong, line, hline, size, hsize, ty, hty, heq⟩ := h
  obtain rfl := Except.ok.inj heq
  rcases typeDefault_of hsize hty fuel with hcut | ⟨expr, hexpr, hof⟩
  · rw [hcut] at hline
    cases hline
  · rw [hexpr] at hline
    obtain rfl := Except.ok.inj hline
    exact ⟨padding, expr, ty, stripped, long, hof, hskip, hty, hlong, rfl, rfl, rfl⟩

/-- The defaults and the fields after some members. -/
structure DefaultsMatch (done : List BtfMember) (fields : Fields) : Prop where
  typed : List.Forall₂ (fun (line : Text × DefaultExpr) (field : RustField) ↦ line.2.Of field.ty)
    fields.implDefault fields.aggContent
  named : (∀ m ∈ done, m.name ≠ []) →
    fields.implDefault.map Prod.fst = fields.aggContent.map RustField.name
  unnamed : [] ∈ fields.implDefault.map Prod.fst ↔ ∃ m ∈ done, m.name = []
  short : fields.genImplDefault = false → ∀ field ∈ fields.aggContent, field.isPub = true →
    ∀ elem len, field.ty = .array elem len → len ≤ 32

theorem padDefault_typed (offset padding : ℕ) :
    List.Forall₂ (fun (line : Text × DefaultExpr) (field : RustField) ↦ line.2.Of field.ty)
      (padDefault offset padding) (padField offset padding) := by
  rw [padDefault, padField]
  split
  · exact .nil
  · exact .cons (.repeated (.call _) padding) .nil

theorem padDefault_names (offset padding : ℕ) :
    (padDefault offset padding).map Prod.fst = (padField offset padding).map RustField.name := by
  rw [padDefault, padField]
  split <;> rfl

theorem nil_notMem_padDefault (offset padding : ℕ) : [] ∉ (padDefault offset padding).map Prod.fst := by
  rw [padDefault]
  split
  · exact List.not_mem_nil
  · rw [List.map_singleton, List.mem_singleton]
    exact fun heq ↦ by cases heq

theorem not_isPub_padField (offset padding : ℕ) : ∀ field ∈ padField offset padding, field.isPub = false := by
  rw [padField]
  split
  · exact fun _ h ↦ absurd h List.not_mem_nil
  · exact fun field h ↦ by rw [List.mem_singleton.mp h]

/-- A declared array is one of the table's, unless it is the type of a variable. -/
theorem isLongArray_of_array {fuel stripped typeId len : ℕ} {long : Bool} {elem : RustType}
    (hskip : btf.skipModsAndTypedefs fuel typeId = .ok stripped)
    (hnot : ∀ v, btf.types[stripped]? ≠ some (.var v))
    (hty : btf.typeDeclaration fuel stripped = .ok (.array elem len))
    (hlong : btf.isLongArray stripped = .ok long) : long = decide (32 < len) := by
  cases fuel with
  | zero => cases hskip
  | succ fuel =>
    obtain ⟨stripped', hskip', hbody⟩ := bind_eq_ok.mp hty
    obtain rfl := Btf.skip_skipped hskip hskip'
    obtain ⟨t, ht, hdeclared⟩ := bind_eq_ok.mp hbody
    obtain ⟨t', ht', hlength⟩ := bind_eq_ok.mp hlong
    obtain rfl := Except.ok.inj (ht.symm.trans ht')
    cases t with
    | array t =>
      obtain ⟨elem', -, heq⟩ := bind_eq_ok.mp hdeclared
      obtain ⟨-, rfl⟩ := RustType.array.inj (Except.ok.inj heq)
      exact (Except.ok.inj hlength).symm
    | var v => exact absurd (Btf.typeById_eq_ok.mp ht) (hnot v)
    | int t => rcases t.declaration_eq_ok hdeclared with ⟨signed, heq⟩ | heq <;> cases heq
    | float _ size => cases (floatDeclaration_eq_ok hdeclared).2
    | ptr pointee =>
      obtain ⟨_, -, heq⟩ := bind_eq_ok.mp hdeclared
      cases heq
    | _ => cases hdeclared

/-- What one more member does. -/
theorem DefaultsMatch.concat {fuel : ℕ} {packed : Bool} {done : List BtfMember}
    {fields fields' : Fields} {member : BtfMember} (h : DefaultsMatch done fields)
    (hvars : btf.VarsInSections) (hmember : ∀ v, btf.types[member.typeId]? ≠ some (.var v))
    (hadd : btf.addMember fuel true packed fields member = .ok fields') :
    DefaultsMatch (done ++ [member]) fields' := by
  obtain ⟨padding, expr, ty, stripped, long, hof, hskip, hty, hlong, hcontent, himpl, hgen⟩ :=
    addMember_default hadd
  refine ⟨?_, ?_, ?_, ?_⟩
  · rw [hcontent, himpl]
    exact List.rel_append (List.rel_append h.typed (padDefault_typed _ _)) (.cons hof .nil)
  · intro hnamed
    rw [List.forall_mem_append] at hnamed
    have hname : member.name ≠ [] := hnamed.2 member (List.mem_singleton_self member)
    have hfield : member.fieldName ty = member.name := by
      rw [BtfMember.fieldName, if_neg (by simpa using hname)]
    rw [hcontent, himpl, List.map_append, List.map_append, List.map_append, List.map_append,
      h.named hnamed.1, padDefault_names, List.map_singleton, List.map_singleton, hfield]
  · have hpad := nil_notMem_padDefault fields.offset padding
    rw [himpl, List.map_append, List.map_append, List.mem_append, List.mem_append, h.unnamed]
    simp only [hpad, or_false, List.map_singleton, List.mem_singleton, List.mem_append, or_and_right,
      exists_or, exists_eq_left]
    exact or_congr_right eq_comm
  · intro hnone field hfield hpub elem len heq
    rw [hgen, Bool.or_eq_false_iff, Bool.true_and] at hnone
    rw [hcontent, List.mem_append, List.mem_append] at hfield
    rcases hfield with (hfield | hfield) | hfield
    · exact h.short hnone.1 field hfield hpub elem len heq
    · rw [not_isPub_padField _ _ field hfield] at hpub
      cases hpub
    · obtain rfl := List.mem_singleton.mp hfield
      obtain rfl : ty = .array elem len := heq
      have hlen := isLongArray_of_array hskip (hvars.skip hskip hmember) hty hlong
      rw [hnone.2] at hlen
      exact not_lt.mp (of_decide_eq_false hlen.symm)

end

/-- The `impl Default` of a struct has a line for each field, in the order of the fields, whose expression
has the type of the field.  The names in the lines are those of the fields where all members have names;
a line without a name, which is no Rust, is there exactly if a member has none.  Where `Default` is
derived, no member is an array of more than 32 elements. -/
theorem default_complete {btf : Btf} (hvars : btf.VarsInSections) {fuel typeId : ℕ} {c : RustComposite}
    {dependentTypes : List ℕ} (h : btf.define fuel typeId = .ok (.composite c, dependentTypes))
    {t : BtfComposite} (ht : btf.IsComposite typeId t) (hstruct : t.isStruct = true) :
    (∀ lines, c.implDefault = some lines →
      List.Forall₂ (fun (line : Text × DefaultExpr) (field : RustField) ↦ line.2.Of field.ty) lines c.fields ∧
        ((∀ m ∈ t.members, m.name ≠ []) → lines.map Prod.fst = c.fields.map RustField.name) ∧
        ([] ∈ lines.map Prod.fst ↔ ∃ m ∈ t.members, m.name = [])) ∧
      (c.implDefault = none → c.deriveDefault = true ∧ ∀ field ∈ c.fields, field.isPub = true →
        ∀ elem len, field.ty = .array elem len → len ≤ 32) := by
  obtain ⟨packed, fields, impl, -, hfields, himpl, heq⟩ := Btf.define_composite ht h
  obtain rfl := RustItem.composite.inj heq
  rw [hstruct] at hfields himpl
  have hmatch : DefaultsMatch t.members fields := by
    refine foldlM_induction DefaultsMatch hfields ⟨.nil, fun _ ↦ rfl, by simp [Fields.empty],
      fun _ _ hfield ↦ absurd hfield List.not_mem_nil⟩ ?_
    intro done member mid next hm hmid hadd
    refine hmid.concat hvars (fun v hv ↦ ?_) hadd
    rcases ht with ht | ht <;>
    · obtain ⟨_, _, _, htag⟩ := hvars typeId member.typeId v ⟨_, ht, List.mem_map_of_mem hm⟩ hv
      cases ht.symm.trans htag
  rw [Btf.implDefault, if_pos rfl] at himpl
  obtain rfl := Except.ok.inj himpl
  cases hgen : fields.genImplDefault with
  | true =>
    refine ⟨fun lines hlines ↦ ?_, fun hnone ↦ ?_⟩
    · rw [if_pos rfl] at hlines
      obtain rfl := Option.some.inj hlines
      exact ⟨hmatch.typed, hmatch.named, hmatch.unnamed⟩
    · cases hnone
  | false =>
    refine ⟨fun lines hlines ↦ ?_, fun _ ↦ ⟨by rw [hstruct]; rfl, hmatch.short hgen⟩⟩
    cases hlines

/-- A struct with an array of 33 bytes. -/
def longBtf : Btf where
  types := [
    .void,
    .int ⟨"unsigned char".toList, 8, 0, .none⟩,
    .array ⟨33, 1, 1⟩,
    .struct ⟨"pod_command".toList, true, 33, [⟨"cmd".toList, 2, 0, 0⟩]⟩]
  ptrSize := 8

def longItem : RustComposite :=
  ⟨"pod_command".toList, true, false, [⟨"cmd".toList, .array (.int false 1) 33, true⟩], false,
    some [("cmd".toList, .repeated (.call (.int false 1)) 33)]⟩

theorem varsInSections_longBtf : longBtf.VarsInSections := by
  rintro typeId next v - hv
  have hmem := List.mem_of_getElem? hv
  simp [longBtf] at hmem

theorem default_complete_demo :
    List.Forall₂ (fun (line : Text × DefaultExpr) (field : RustField) ↦ line.2.Of field.ty)
      [("cmd".toList, .repeated (.call (.int false 1)) 33)] longItem.fields ∧
    longItem.fields.map RustField.name = ["cmd".toList] := by
  have hdefine : longBtf.define 4 3 = .ok (.composite longItem, []) := rfl
  obtain ⟨htyped, hnames, -⟩ :=
    (default_complete varsInSections_longBtf hdefine (.inl rfl) rfl).1 _ rfl
  exact ⟨htyped, (hnames (by decide)).symm⟩

end EbpfPlayground.LibbpfCargo
