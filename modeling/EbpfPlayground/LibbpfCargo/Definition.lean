import EbpfPlayground.LibbpfCargo.Types
import EbpfPlayground.Foundation.Layout
import EbpfPlayground.Foundation.Worklist

/-!
# Rust definitions of BTF types

`type_definition` writes a Rust type for a struct, union, enum or data section and for every type
that it mentions.  The source writes text; here a definition is kept as what that text declares.
-/

namespace EbpfPlayground.LibbpfCargo

open Fallible (ensure Extends bind_eq_ok)
open Layout (alignUp)

/-- A Rust type as `type_declaration` writes it; a composite or enum is mentioned by its name. -/
inductive RustType where
  | cVoid
  | int (signed : Bool) (bytes : ℕ)
  | bool
  | float (bytes : ℕ)
  | pointer (pointee : RustType)
  | array (elem : RustType) (len : ℕ)
  | named (typeId : ℕ) (name : Text)
  deriving DecidableEq

/-- An expression as `type_default` writes it. -/
inductive DefaultExpr where
  /-- `T::default()`. -/
  | call (ty : RustType)
  /-- `std::ptr::null_mut()`. -/
  | nullMut
  /-- `[expr; len]`. -/
  | repeated (expr : DefaultExpr) (len : ℕ)
  deriving DecidableEq

structure RustField where
  name : Text
  ty : RustType
  /-- The field is `pub`, which padding is not. -/
  isPub : Bool
  deriving DecidableEq

/-- A struct or union with `repr(C)`. -/
structure RustComposite where
  name : Text
  isStruct : Bool
  packed : Bool
  fields : List RustField
  /-- `Default` is derived. -/
  deriveDefault : Bool
  /-- The fields of an `impl Default`. -/
  implDefault : Option (List (Text × DefaultExpr))
  deriving DecidableEq

/-- An enum with `repr(u..)` or `repr(i..)`; its default is the first value. -/
structure RustEnum where
  name : Text
  signed : Bool
  bytes : ℕ
  values : List BtfEnumValue
  deriving DecidableEq

inductive RustItem where
  | composite (item : RustComposite)
  | enum (item : RustEnum)
  deriving DecidableEq

def RustItem.name : RustItem → Text
  | .composite item => item.name
  | .enum item => item.name

/-- The item that a type mentions by name, also behind pointers. -/
def RustType.mentions : RustType → Option (ℕ × Text)
  | .pointer ty | .array ty _ => ty.mentions
  | .named typeId name => some (typeId, name)
  | _ => none

/-- The item that a value of the type holds. -/
def RustType.embeds : RustType → Option ℕ
  | .array ty _ => ty.embeds
  | .named typeId _ => some typeId
  | _ => none

/-- The text of a type. -/
def RustType.text : RustType → Text
  | .cVoid => "std::ffi::c_void".toList
  | .int signed bytes => (if signed then "i" else "u").toList ++ Text.decimal (8 * bytes)
  | .bool => "bool".toList
  | .float bytes => "f".toList ++ Text.decimal (8 * bytes)
  | .pointer pointee => "*mut ".toList ++ pointee.text
  | .array elem len => "[".toList ++ elem.text ++ "; ".toList ++ Text.decimal len ++ "]".toList
  | .named _ name => name

/-- The widths that integers of Rust have, in bytes. -/
def integerWidths : List ℕ := [1, 2, 4, 8, 16]

/-- The declaration of an integer. -/
def BtfInt.declaration (t : BtfInt) : Except Error RustType := do
  ensure (t.bytes ∈ integerWidths) .invalidIntegerWidth
  match t.encoding with
  | .signed => .ok (.int true t.bytes)
  | .bool => do
    ensure (t.bits = 8) .boolPanic
    .ok .bool
  | .char | .none => .ok (.int false t.bytes)

/-- The declaration of a float. -/
def floatDeclaration (size : ℕ) : Except Error RustType :=
  if size = 4 ∨ size = 8 then .ok (.float size)
  else if size = 2 ∨ size = 12 ∨ size = 16 then .error .unsupportedFloatWidth
  else .error .invalidFloatWidth

/-- An integer is declared as one or as a `bool`. -/
theorem BtfInt.declaration_eq_ok {t : BtfInt} {ty : RustType} (h : t.declaration = .ok ty) :
    (∃ signed, ty = .int signed t.bytes) ∨ ty = .bool := by
  simp only [BtfInt.declaration, bind_eq_ok] at h
  obtain ⟨_, -, h⟩ := h
  cases hencoding : t.encoding with
  | bool =>
    rw [hencoding] at h
    obtain ⟨_, -, heq⟩ := bind_eq_ok.mp h
    exact .inr (Except.ok.inj heq).symm
  | signed | char | none =>
    rw [hencoding] at h
    exact .inl ⟨_, (Except.ok.inj h).symm⟩

theorem floatDeclaration_eq_ok {size : ℕ} {ty : RustType} (h : floatDeclaration size = .ok ty) :
    (size = 4 ∨ size = 8) ∧ ty = .float size := by
  rw [floatDeclaration] at h
  split at h
  · next hsize => exact ⟨hsize, (Except.ok.inj h).symm⟩
  · split at h <;> cases h

/-- A context around an error; a panic stays as it is. -/
def withContext {α : Type} (context : Error → Error) : Except Error α → Except Error α
  | .ok a => .ok a
  | .error .boolPanic => .error .boolPanic
  | .error .outOfFuel => .error .outOfFuel
  | .error error => .error (context error)

namespace Btf

/-- `type_declaration`. -/
def typeDeclaration (btf : Btf) : ℕ → ℕ → Except Error RustType
  | 0, _ => .error .outOfFuel
  | fuel + 1, typeId => do
    let strippedTypeId ← btf.skipModsAndTypedefs fuel typeId
    match ← btf.typeById strippedTypeId with
    | .void => .ok .cVoid
    | .int t => t.declaration
    | .float _ size => floatDeclaration size
    | .ptr pointee => do
      let pointeeTy ← typeDeclaration btf fuel pointee
      .ok (.pointer pointeeTy)
    | .array t => do
      let valTy ← typeDeclaration btf fuel t.valTypeId
      .ok (.array valTy t.nelems)
    | .struct t | .union t => .ok (.named strippedTypeId t.name)
    | .enum t => .ok (.named strippedTypeId t.name)
    | .func _ _ => .ok .cVoid
    | .var t => typeDeclaration btf fuel t.typeId
    | ty => .error (.invalidType ty)

/-- `type_default`. -/
def typeDefault (btf : Btf) : ℕ → ℕ → Except Error DefaultExpr
  | 0, _ => .error .outOfFuel
  | fuel + 1, typeId => do
    let strippedTypeId ← btf.skipModsAndTypedefs fuel typeId
    match ← btf.typeById strippedTypeId with
    | .void => .ok (.call .cVoid)
    | .int _ | .float _ _ => do
      let ty ← btf.typeDeclaration fuel strippedTypeId
      .ok (.call ty)
    | .ptr _ => .ok .nullMut
    | .array t => do
      let expr ← withContext .inArray (typeDefault btf fuel t.valTypeId)
      .ok (.repeated expr t.nelems)
    | .struct t | .union t => .ok (.call (.named strippedTypeId t.name))
    | .enum t => .ok (.call (.named strippedTypeId t.name))
    | .var t => do
      let ty ← btf.typeDeclaration fuel t.typeId
      .ok (.call ty)
    | ty => .error (.invalidType ty)

/-- The loop of `is_struct_packed`: some member that is no bitfield is not naturally aligned. -/
def anyMisaligned (btf : Btf) (fuel : ℕ) : List BtfMember → Except Error Bool
  | [] => .ok false
  | m :: members => do
    let align ← btf.alignOf fuel m.typeId
    ensure (align ≠ 0) (.zeroAlignment "m.type_id".toList m.typeId)
    if m.bitSize = 0 ∧ m.bitOffset % wrap32 (align * 8) ≠ 0 then .ok true
    else anyMisaligned btf fuel members

/-- `is_struct_packed`. -/
def isStructPacked (btf : Btf) (fuel structTypeId : ℕ) (t : BtfComposite) : Except Error Bool :=
  if ¬ t.isStruct then .ok false
  else do
    let align ← btf.alignOf fuel structTypeId
    ensure (align ≠ 0) (.zeroAlignment "struct_type_id".toList structTypeId)
    if t.size % align ≠ 0 then .ok true
    else btf.anyMisaligned fuel t.members

/-- The alignment that `required_padding` counts on, at most that of a 32-bit architecture. -/
def paddingAlign (btf : Btf) (fuel typeId : ℕ) (packed : Bool) : Except Error ℕ :=
  if packed then .ok 1
  else do
    let a ← btf.alignOf fuel typeId
    ensure (a ≠ 0) (.zeroAlignment "type_id".toList typeId)
    .ok (if 4 < a then 4 else a)

/-- `required_padding`. -/
def requiredPadding (btf : Btf) (fuel currentOffset requiredOffset typeId : ℕ) (packed : Bool) :
    Except Error ℕ := do
  ensure (currentOffset ≤ requiredOffset) .offsetAhead
  let align ← btf.paddingAlign fuel typeId packed
  if alignUp currentOffset align = requiredOffset then .ok 0
  else .ok (requiredOffset - currentOffset)

/-- `next_type`: the type behind pointers, arrays and modifiers that needs a definition, if any. -/
def nextType (btf : Btf) : ℕ → ℕ → Except Error (Option ℕ)
  | 0, _ => .error .outOfFuel
  | fuel + 1, typeId => do
    match ← btf.typeById typeId with
    | .struct _ | .union _ | .enum _ | .datasec _ => .ok (some typeId)
    | .ptr next | .volatile next | .const next | .restrict next | .typedef _ next | .declTag _ next _
    | .typeTag _ next => nextType btf fuel next
    | .array t => nextType btf fuel t.valTypeId
    | _ => .ok none

end Btf

def padName (offset : ℕ) : Text := "__pad_".toList ++ Text.decimal offset

/-- The padding in front of a field, if there is to be any. -/
def padField (offset padding : ℕ) : List RustField :=
  if padding = 0 then [] else [⟨padName offset, .array (.int false 1) padding, false⟩]

/-- The default of that padding. -/
def padDefault (offset padding : ℕ) : List (Text × DefaultExpr) :=
  if padding = 0 then [] else [(padName offset, .repeated (.call (.int false 1)) padding)]

/-- What the loop over the members of a composite has gathered. -/
structure Fields where
  aggContent : List RustField
  implDefault : List (Text × DefaultExpr)
  genImplDefault : Bool
  /-- The end of the last field, in bytes. -/
  offset : ℕ
  dependentTypes : List ℕ

def Fields.empty : Fields where
  aggContent := []
  implDefault := []
  genImplDefault := false
  offset := 0
  dependentTypes := []

/-- The line of a member in an `impl Default`.  A type without a default is left out where the
definition can do without the `impl`; a panic is none of the errors that the source looks at. -/
def memberDefault (name : Text) (needed : Bool) :
    Except Error DefaultExpr → Except Error (List (Text × DefaultExpr))
  | .ok expr => .ok [(name, expr)]
  | .error .boolPanic => .error .boolPanic
  | .error .outOfFuel => .error .outOfFuel
  | .error error => if needed then .error (.noDefault error) else .ok []

/-- The name of a member's field: the text of its type where the member has no name. -/
def BtfMember.fieldName (member : BtfMember) (ty : RustType) : Text :=
  if member.name.isEmpty then ty.text else member.name

namespace Btf

/-- Whether a type is an array that is too long to derive `Default`. -/
def isLongArray (btf : Btf) (typeId : ℕ) : Except Error Bool := do
  match ← btf.typeById typeId with
  | .array t => .ok (32 < t.nelems)
  | _ => .ok false

/-- The padding in front of a member; a union has none. -/
def memberPadding (btf : Btf) (fuel : ℕ) (isStruct packed : Bool) (offset : ℕ) (member : BtfMember) :
    Except Error ℕ :=
  if isStruct then btf.requiredPadding fuel offset (member.bitOffset / 8) member.typeId packed
  else .ok 0

/-- One turn of the loop over the members. -/
def addMember (btf : Btf) (fuel : ℕ) (isStruct packed : Bool) (fields : Fields) (member : BtfMember) :
    Except Error Fields := do
  ensure (member.bitSize = 0 ∧ member.bitOffset % 8 = 0) .bitfield
  let fieldTyId ← btf.skipModsAndTypedefs fuel member.typeId
  let next ← btf.nextType fuel fieldTyId
  let padding ← btf.memberPadding fuel isStruct packed fields.offset member
  let long ← btf.isLongArray fieldTyId
  let genImplDefault := fields.genImplDefault || (isStruct && long)
  let line ← memberDefault member.name (genImplDefault || !isStruct) (btf.typeDefault fuel fieldTyId)
  let size ← btf.sizeOf fuel fieldTyId
  let ty ← btf.typeDeclaration fuel fieldTyId
  .ok {
    aggContent := fields.aggContent ++ padField fields.offset padding ++ [⟨member.fieldName ty, ty, true⟩]
    implDefault := fields.implDefault ++ padDefault fields.offset padding ++ line
    genImplDefault := genImplDefault
    offset := wrap32 (member.bitOffset / 8 + size)
    dependentTypes := fields.dependentTypes ++ next.toList }

/-- The fields of an `impl Default`, if there is one. -/
def implDefault (isStruct : Bool) (fields : Fields) : Except Error (Option (List (Text × DefaultExpr))) :=
  if isStruct then .ok (if fields.genImplDefault then some fields.implDefault else none)
  else match fields.implDefault with
    | first :: _ => .ok (some [first])
    | [] => .error .emptyUnionPanic

/-- One turn of `type_definition` on a struct or union: its definition and the types it mentions. -/
def defineComposite (btf : Btf) (fuel typeId : ℕ) (t : BtfComposite) :
    Except Error (RustItem × List ℕ) := do
  let packed ← btf.isStructPacked fuel typeId t
  let fields ← t.members.foldlM (btf.addMember fuel t.isStruct packed) Fields.empty
  let impl ← implDefault t.isStruct fields
  .ok (.composite ⟨t.name, t.isStruct, packed, fields.aggContent,
    t.isStruct && !fields.genImplDefault, impl⟩, fields.dependentTypes)

/-- One turn on an enum. -/
def defineEnum (t : BtfEnum) : Except Error (RustItem × List ℕ) := do
  ensure (t.size ∈ integerWidths) (.invalidEnumSize t.size)
  .ok (.enum ⟨t.name, t.values.any fun value ↦ value.value < 0, t.size, t.values⟩, [])

/-- The loop over the variables of a data section goes on with a variable that is not static. -/
def addGlobal (btf : Btf) (fuel : ℕ) (fields : Fields) (datasecVar : BtfDatasecVar) (v : BtfVar) :
    Except Error Fields := do
  let next ← btf.nextType fuel v.typeId
  let padding ← btf.requiredPadding fuel fields.offset datasecVar.offset v.typeId false
  let ty ← btf.typeDeclaration fuel v.typeId
  .ok { fields with
    aggContent := fields.aggContent ++ padField fields.offset padding ++ [⟨v.name, ty, true⟩]
    offset := wrap32 (datasecVar.offset + datasecVar.size)
    dependentTypes := fields.dependentTypes ++ next.toList }

/-- One turn of the loop over the variables of a data section. -/
def addVar (btf : Btf) (fuel : ℕ) (fields : Fields) (datasecVar : BtfDatasecVar) :
    Except Error Fields := do
  match ← btf.typeById datasecVar.typeId with
  | .var v => if v.linkage = .static then .ok fields else btf.addGlobal fuel fields datasecVar v
  | _ => .error .notAVar

/-- One turn of `type_definition` on a data section, which is named without its dot. -/
def defineDatasec (btf : Btf) (fuel : ℕ) (t : BtfDatasec) : Except Error (RustItem × List ℕ) := do
  ensure (t.name.head? = some '.') (.invalidDatasecName t.name)
  let fields ← t.vars.foldlM (btf.addVar fuel) Fields.empty
  .ok (.composite ⟨t.name.tail, true, false, fields.aggContent, false, none⟩, fields.dependentTypes)

/-- One turn of `type_definition`: the definition of a type and the types it mentions. -/
def define (btf : Btf) (fuel typeId : ℕ) : Except Error (RustItem × List ℕ) := do
  match ← btf.typeById typeId with
  | .struct t | .union t => btf.defineComposite fuel typeId t
  | .enum t => defineEnum t
  | .datasec t => btf.defineDatasec fuel t
  | ty => .error (.invalidType ty)

/-- `type_definition`: the definitions in the order in which they are written.  The loop over the
types that are still to be defined is cut off after as many turns as given. -/
def typeDefinition (btf : Btf) (fuel turns typeId : ℕ) : Except Error (List (ℕ × RustItem)) := do
  let ty ← btf.typeById typeId
  ensure (isDefinable ty) .terminalType
  Worklist.run (btf.define fuel) .outOfFuel turns [typeId] []

/-! ## More fuel -/

theorem extends_typeDeclaration (btf : Btf) (fuel typeId : ℕ) :
    Extends .outOfFuel (btf.typeDeclaration fuel typeId) (btf.typeDeclaration (fuel + 1) typeId) := by
  induction fuel generalizing typeId with
  | zero => exact .ofCutOff _
  | succ fuel ih =>
    refine (btf.extends_skipModsAndTypedefs fuel typeId).bind fun _ ↦ .bind_right _ fun t ↦ ?_
    cases t with
    | ptr pointee => exact (ih pointee).bind fun _ ↦ .refl _
    | array t => exact (ih t.valTypeId).bind fun _ ↦ .refl _
    | var t => exact ih t.typeId
    | _ => exact .refl _

theorem extends_nextType (btf : Btf) (fuel typeId : ℕ) :
    Extends .outOfFuel (btf.nextType fuel typeId) (btf.nextType (fuel + 1) typeId) := by
  induction fuel generalizing typeId with
  | zero => exact .ofCutOff _
  | succ fuel ih =>
    refine .bind_right _ fun t ↦ ?_
    cases t with
    | ptr next | volatile next | const next | restrict next | typedef _ next | declTag _ next _
    | typeTag _ next => exact ih next
    | array t => exact ih t.valTypeId
    | _ => exact .refl _

variable {btf : Btf}

theorem typeDeclaration_unique {fuel more typeId : ℕ} {ty ty' : RustType}
    (h : btf.typeDeclaration fuel typeId = .ok ty) (h' : btf.typeDeclaration more typeId = .ok ty') :
    ty = ty' :=
  Extends.unique (x := fun fuel ↦ btf.typeDeclaration fuel typeId)
    (fun fuel ↦ btf.extends_typeDeclaration fuel typeId) h h'

theorem typeDeclaration_of_skip {fuel typeId stripped : ℕ} {ty : RustType}
    (hskip : btf.skipModsAndTypedefs fuel typeId = .ok stripped)
    (h : btf.typeDeclaration fuel stripped = .ok ty) : btf.typeDeclaration (fuel + 1) typeId = .ok ty := by
  obtain ⟨stripped', hskip', hrest⟩ := bind_eq_ok.mp ((btf.extends_typeDeclaration fuel stripped).eq_ok h)
  obtain rfl := skip_skipped hskip hskip'
  exact bind_eq_ok.mpr ⟨stripped', hskip, hrest⟩

theorem mentions_of_embeds {ty : RustType} {typeId : ℕ} (h : ty.embeds = some typeId) :
    ∃ name, ty.mentions = some (typeId, name) := by
  induction ty with
  | array ty len ih => exact ih h
  | named target name =>
    obtain rfl := Option.some.inj h
    exact ⟨name, rfl⟩
  | _ => cases h

/-! ## What one turn does -/

/-- A struct or union. -/
def IsComposite (btf : Btf) (typeId : ℕ) (t : BtfComposite) : Prop :=
  btf.types[typeId]? = some (.struct t) ∨ btf.types[typeId]? = some (.union t)

/-- The field that a turn of the loop over the members adds, with the padding in front of it. -/
theorem addMember_spec {fuel : ℕ} {isStruct packed : Bool} {fields fields' : Fields} {member : BtfMember}
    (h : btf.addMember fuel isStruct packed fields member = .ok fields') :
    ∃ padding size ty, (member.bitSize = 0 ∧ member.bitOffset % 8 = 0) ∧
      btf.memberPadding fuel isStruct packed fields.offset member = .ok padding ∧
      btf.sizeOf (fuel + 1) member.typeId = .ok size ∧
      btf.typeDeclaration (fuel + 1) member.typeId = .ok ty ∧
      fields'.aggContent = fields.aggContent ++ padField fields.offset padding ++
        [⟨member.fieldName ty, ty, true⟩] ∧
      fields'.offset = wrap32 (member.bitOffset / 8 + size) := by
  simp only [addMember, bind_eq_ok, Fallible.ensure_eq_ok] at h
  obtain ⟨_, hbits, _, hskip, _, -, padding, hpadding, _, -, _, -, size, hsize, ty, hty, heq⟩ := h
  obtain rfl := Except.ok.inj heq
  exact ⟨padding, size, ty, hbits, hpadding, sizeOf_of_skip hskip hsize,
    typeDeclaration_of_skip hskip hty, rfl, rfl⟩

/-- The same for a variable of a data section; a static one adds nothing. -/
theorem addVar_spec {fuel : ℕ} {fields fields' : Fields} {datasecVar : BtfDatasecVar}
    (h : btf.addVar fuel fields datasecVar = .ok fields') :
    ∃ v, btf.types[datasecVar.typeId]? = some (.var v) ∧
      ((v.linkage = .static ∧ fields' = fields) ∨
        v.linkage ≠ .static ∧ ∃ padding ty,
          btf.requiredPadding fuel fields.offset datasecVar.offset v.typeId false = .ok padding ∧
          btf.typeDeclaration fuel v.typeId = .ok ty ∧
          fields'.aggContent = fields.aggContent ++ padField fields.offset padding ++ [⟨v.name, ty, true⟩] ∧
          fields'.offset = wrap32 (datasecVar.offset + datasecVar.size)) := by
  obtain ⟨t, ht, h⟩ := bind_eq_ok.mp h
  rw [typeById_eq_ok] at ht
  cases t with
  | var v =>
    refine ⟨v, ht, ?_⟩
    dsimp only at h
    split at h
    · next hstatic => exact .inl ⟨hstatic, (Except.ok.inj h).symm⟩
    · next hstatic =>
      simp only [addGlobal, bind_eq_ok] at h
      obtain ⟨_, -, padding, hpadding, ty, hty, heq⟩ := h
      obtain rfl := Except.ok.inj heq
      exact .inr ⟨hstatic, padding, ty, hpadding, hty, rfl, rfl⟩
  | _ => cases h

/-- What a definition is, by the kind of the type. -/
theorem define_cases {fuel typeId : ℕ} {item : RustItem} {dependentTypes : List ℕ}
    (h : btf.define fuel typeId = .ok (item, dependentTypes)) :
    (∃ t packed fields impl, btf.IsComposite typeId t ∧
      btf.isStructPacked fuel typeId t = .ok packed ∧
      t.members.foldlM (btf.addMember fuel t.isStruct packed) Fields.empty = .ok fields ∧
      implDefault t.isStruct fields = .ok impl ∧
      item = .composite ⟨t.name, t.isStruct, packed, fields.aggContent,
        t.isStruct && !fields.genImplDefault, impl⟩) ∨
    (∃ t, btf.types[typeId]? = some (.enum t) ∧ t.size ∈ integerWidths ∧
      item = .enum ⟨t.name, t.values.any fun value ↦ value.value < 0, t.size, t.values⟩) ∨
    ∃ t fields, btf.types[typeId]? = some (.datasec t) ∧
      t.vars.foldlM (btf.addVar fuel) Fields.empty = .ok fields ∧
      item = .composite ⟨t.name.tail, true, false, fields.aggContent, false, none⟩ := by
  obtain ⟨t, ht, h⟩ := bind_eq_ok.mp h
  rw [typeById_eq_ok] at ht
  have hcomposite : ∀ t, btf.defineComposite fuel typeId t = .ok (item, dependentTypes) →
      ∃ packed fields impl, btf.isStructPacked fuel typeId t = .ok packed ∧
        t.members.foldlM (btf.addMember fuel t.isStruct packed) Fields.empty = .ok fields ∧
        implDefault t.isStruct fields = .ok impl ∧
        item = .composite ⟨t.name, t.isStruct, packed, fields.aggContent,
          t.isStruct && !fields.genImplDefault, impl⟩ := by
    intro t h
    simp only [defineComposite, bind_eq_ok] at h
    obtain ⟨packed, hpacked, fields, hfields, impl, himpl, heq⟩ := h
    obtain ⟨rfl, -⟩ := Prod.mk.inj (Except.ok.inj heq)
    exact ⟨packed, fields, impl, hpacked, hfields, himpl, rfl⟩
  cases t with
  | struct t =>
    obtain ⟨packed, fields, impl, hrest⟩ := hcomposite t h
    exact .inl ⟨t, packed, fields, impl, .inl ht, hrest⟩
  | union t =>
    obtain ⟨packed, fields, impl, hrest⟩ := hcomposite t h
    exact .inl ⟨t, packed, fields, impl, .inr ht, hrest⟩
  | enum t =>
    simp only [defineEnum, bind_eq_ok, Fallible.ensure_eq_ok] at h
    obtain ⟨_, hsize, heq⟩ := h
    obtain ⟨rfl, -⟩ := Prod.mk.inj (Except.ok.inj heq)
    exact .inr (.inl ⟨t, ht, hsize, rfl⟩)
  | datasec t =>
    simp only [defineDatasec, bind_eq_ok] at h
    obtain ⟨_, -, fields, hfields, heq⟩ := h
    obtain ⟨rfl, -⟩ := Prod.mk.inj (Except.ok.inj heq)
    exact .inr (.inr ⟨t, fields, ht, hfields, rfl⟩)
  | _ => cases h

theorem IsComposite.unique {typeId : ℕ} {t t' : BtfComposite} (h : btf.IsComposite typeId t)
    (h' : btf.IsComposite typeId t') : t = t' := by
  rcases h with h | h <;> rcases h' with h' | h' <;> cases h.symm.trans h' <;> rfl

/-- The definition of a struct or union. -/
theorem define_composite {fuel typeId : ℕ} {item : RustItem} {dependentTypes : List ℕ} {t : BtfComposite}
    (ht : btf.IsComposite typeId t) (h : btf.define fuel typeId = .ok (item, dependentTypes)) :
    ∃ packed fields impl, btf.isStructPacked fuel typeId t = .ok packed ∧
      t.members.foldlM (btf.addMember fuel t.isStruct packed) Fields.empty = .ok fields ∧
      implDefault t.isStruct fields = .ok impl ∧
      item = .composite ⟨t.name, t.isStruct, packed, fields.aggContent,
        t.isStruct && !fields.genImplDefault, impl⟩ := by
  rcases define_cases h with ⟨t', packed, fields, impl, ht', hrest⟩ | ⟨t', ht', -⟩ | ⟨t', _, ht', -⟩
  · obtain rfl := ht.unique ht'
    exact ⟨packed, fields, impl, hrest⟩
  · rcases ht with ht | ht <;> cases ht.symm.trans ht'
  · rcases ht with ht | ht <;> cases ht.symm.trans ht'

/-- The definition of a data section. -/
theorem define_datasec {fuel typeId : ℕ} {item : RustItem} {dependentTypes : List ℕ} {t : BtfDatasec}
    (ht : btf.types[typeId]? = some (.datasec t))
    (h : btf.define fuel typeId = .ok (item, dependentTypes)) :
    ∃ fields, t.vars.foldlM (btf.addVar fuel) Fields.empty = .ok fields ∧
      item = .composite ⟨t.name.tail, true, false, fields.aggContent, false, none⟩ := by
  rcases define_cases h with ⟨t', _, _, _, ht' | ht', -⟩ | ⟨t', ht', -⟩ | ⟨t', fields, ht', hrest⟩ <;>
    cases ht.symm.trans ht'
  exact ⟨fields, hrest⟩

/-- The definition of an enum. -/
theorem define_enum {fuel typeId : ℕ} {item : RustItem} {dependentTypes : List ℕ} {t : BtfEnum}
    (ht : btf.types[typeId]? = some (.enum t)) (h : btf.define fuel typeId = .ok (item, dependentTypes)) :
    t.size ∈ integerWidths ∧
      item = .enum ⟨t.name, t.values.any fun value ↦ value.value < 0, t.size, t.values⟩ := by
  rcases define_cases h with ⟨t', _, _, _, ht' | ht', -⟩ | ⟨t', ht', hrest⟩ | ⟨t', _, ht', -⟩ <;>
    cases ht.symm.trans ht'
  exact hrest

end Btf

/-! ## The type table of the execve probe -/

def typedefOf (name : String) (typeId : ℕ) : BtfType := .typedef name.toList typeId

/-- The types of `_pxevent` in the type table of `podsnoop.bpf.c`, which puts it into `.bss`. -/
def podsnoopBtf : Btf where
  types := [
    .void,
    .int ⟨"unsigned long long".toList, 64, 0, .none⟩,
    typedefOf "__u64" 1,
    typedefOf "u64" 2,
    .int ⟨"unsigned int".toList, 32, 0, .none⟩,
    typedefOf "__u32" 4,
    typedefOf "u32" 5,
    .int ⟨"unsigned char".toList, 8, 0, .none⟩,
    typedefOf "__u8" 7,
    typedefOf "u8" 8,
    .int ⟨"__ARRAY_SIZE_TYPE__".toList, 32, 0, .none⟩,
    .array ⟨32, 10, 9⟩,
    .struct ⟨"pod_exec_event".toList, true, 48,
      [⟨"cgroup_id".toList, 3, 0, 0⟩, ⟨"cgroup_pid".toList, 6, 64, 0⟩, ⟨"cgroup_cmd".toList, 11, 96, 0⟩]⟩,
    .var ⟨"_pxevent".toList, 12, .globalAlloc⟩,
    .datasec ⟨".bss".toList, 48, [⟨13, 0, 48⟩]⟩]
  ptrSize := 8

/-- The items that are generated for `.bss`. -/
def podsnoopItems : List (ℕ × RustItem) := [
  (14, .composite ⟨"bss".toList, true, false,
    [⟨"_pxevent".toList, .named 12 "pod_exec_event".toList, true⟩], false, none⟩),
  (12, .composite ⟨"pod_exec_event".toList, true, false,
    [⟨"cgroup_id".toList, .int false 8, true⟩, ⟨"cgroup_pid".toList, .int false 4, true⟩,
      ⟨"cgroup_cmd".toList, .array (.int false 1) 32, true⟩], true, none⟩)]

theorem typeDefinition_podsnoopBtf : podsnoopBtf.typeDefinition 9 3 14 = .ok podsnoopItems := by
  rfl

end EbpfPlayground.LibbpfCargo
