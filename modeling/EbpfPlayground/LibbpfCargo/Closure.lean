import EbpfPlayground.LibbpfCargo.Definition

/-!
# Which types get a definition

A type refers to the types of its members, of its elements or of its variables, or to the type that
it points to or modifies.  `type_definition` defines the structs, unions, enums and data sections
that a type refers to, directly or not, each of them once.
-/

namespace EbpfPlayground.LibbpfCargo

open Fallible Relation
open Worklist (Asks Complete Reached)

namespace Btf

/-- The type that the loop over a data section goes on with; a variable with static linkage has
none. -/
def globalType (btf : Btf) (datasecVar : BtfDatasecVar) : Option ℕ :=
  match btf.types[datasecVar.typeId]? with
  | some (BtfType.var v) => if v.linkage = .static then none else some v.typeId
  | _ => none

/-- The types that a type refers to. -/
def references (btf : Btf) : BtfType → List ℕ
  | .struct t | .union t => t.members.map BtfMember.typeId
  | .ptr next | .volatile next | .const next | .restrict next | .typedef _ next | .declTag _ next _
  | .typeTag _ next => [next]
  | .array t => [t.valTypeId]
  | .datasec t => t.vars.filterMap btf.globalType
  | _ => []

variable {btf : Btf}

/-- One type refers to another one. -/
def Refers (btf : Btf) (typeId next : ℕ) : Prop :=
  ∃ t, btf.types[typeId]? = some t ∧ next ∈ btf.references t

/-- The type exists and gets a definition of its own. -/
def Definable (btf : Btf) (typeId : ℕ) : Prop :=
  ∃ t, btf.types[typeId]? = some t ∧ isDefinable t = true

/-- `next_type` finds a type behind another one. -/
def Next (btf : Btf) (typeId next : ℕ) : Prop := ∃ fuel, btf.nextType fuel typeId = .ok (some next)

theorem next_iff {fuel typeId : ℕ} {found : Option ℕ} (h : btf.nextType fuel typeId = .ok found)
    (next : ℕ) : btf.Next typeId next ↔ found = some next := by
  constructor
  · rintro ⟨fuel', h'⟩
    exact Extends.unique (x := fun fuel ↦ btf.nextType fuel typeId)
      (fun fuel ↦ btf.extends_nextType fuel typeId) h h'
  · rintro rfl
    exact ⟨fuel, h⟩

/-- The type that `next_type` finds gets a definition, and is one that the type leads to. -/
theorem Next.leads {typeId next : ℕ} (h : btf.Next typeId next) :
    btf.Definable next ∧ ReflTransGen btf.Refers typeId next := by
  obtain ⟨fuel, h⟩ := h
  induction fuel generalizing typeId with
  | zero => cases h
  | succ fuel ih =>
    obtain ⟨t, ht, h⟩ := bind_eq_ok.mp h
    rw [typeById_eq_ok] at ht
    cases t with
    | struct _ | union _ | enum _ | datasec _ =>
      obtain rfl := Option.some.inj (Except.ok.inj h)
      exact ⟨⟨_, ht, rfl⟩, .refl⟩
    | ptr target | volatile target | const target | restrict target | typedef _ target
    | declTag _ target _ | typeTag _ target =>
      exact ⟨(ih h).1, .head ⟨_, ht, List.mem_singleton_self target⟩ (ih h).2⟩
    | array t => exact ⟨(ih h).1, .head ⟨_, ht, List.mem_singleton_self t.valTypeId⟩ (ih h).2⟩
    | _ => cases h

theorem Definable.next {typeId : ℕ} (h : btf.Definable typeId) : btf.Next typeId typeId := by
  obtain ⟨t, ht, hdef⟩ := h
  refine ⟨1, bind_eq_ok.mpr ⟨t, typeById_eq_ok.mpr ht, ?_⟩⟩
  cases t with
  | struct _ | union _ | enum _ | datasec _ => rfl
  | _ => cases hdef

/-- A type without a definition passes on what it refers to. -/
theorem Next.head {typeId mid next : ℕ} (hnot : ¬ btf.Definable typeId) (hrefers : btf.Refers typeId mid)
    (h : btf.Next mid next) : btf.Next typeId next := by
  obtain ⟨t, ht, hmid⟩ := hrefers
  obtain ⟨fuel, h⟩ := h
  refine ⟨fuel + 1, bind_eq_ok.mpr ⟨t, typeById_eq_ok.mpr ht, ?_⟩⟩
  cases t with
  | struct _ | union _ | enum _ | datasec _ => exact absurd ⟨_, ht, rfl⟩ hnot
  | ptr target | volatile target | const target | restrict target | typedef _ target
  | declTag _ target _ | typeTag _ target =>
    obtain rfl := List.mem_singleton.mp hmid
    exact h
  | array t =>
    obtain rfl := List.mem_singleton.mp hmid
    exact h
  | _ => cases hmid

/-- Nothing is lost where modifiers are skipped. -/
theorem next_of_skip {fuel typeId stripped : ℕ}
    (h : btf.skipModsAndTypedefs fuel typeId = .ok stripped) {next : ℕ} :
    btf.Next stripped next → btf.Next typeId next := by
  induction fuel generalizing typeId with
  | zero => cases h
  | succ fuel ih =>
    obtain ⟨t, ht, h⟩ := bind_eq_ok.mp h
    rw [typeById_eq_ok] at ht
    have hnot : isDefinable t = false → ¬ btf.Definable typeId := by
      rintro hdef ⟨t', ht', hdef'⟩
      rw [Option.some.inj (ht'.symm.trans ht), hdef] at hdef'
      cases hdef'
    cases t with
    | volatile target | const target | restrict target | typedef _ target | typeTag _ target =>
      exact fun hnext ↦ (ih h hnext).head (hnot rfl) ⟨_, ht, List.mem_singleton_self target⟩
    | _ =>
      obtain rfl := Except.ok.inj h
      exact id

/-- Nothing is added where modifiers are skipped. -/
theorem skip_of_next {fuel typeId stripped : ℕ}
    (h : btf.skipModsAndTypedefs fuel typeId = .ok stripped) {next : ℕ} :
    btf.Next typeId next → btf.Next stripped next := by
  induction fuel generalizing typeId with
  | zero => cases h
  | succ fuel ih =>
    obtain ⟨t, ht, h⟩ := bind_eq_ok.mp h
    rintro ⟨more, hnext⟩
    cases more with
    | zero => cases hnext
    | succ more =>
      obtain ⟨t', ht', hrest⟩ := bind_eq_ok.mp hnext
      obtain rfl := Except.ok.inj (ht.symm.trans ht')
      cases t with
      | volatile target | const target | restrict target | typedef _ target | typeTag _ target =>
        exact ih h ⟨more, hrest⟩
      | _ =>
        obtain rfl := Except.ok.inj h
        exact ⟨_, hnext⟩

/-- The types to be defined are those that are found behind the references. -/
def Covers (btf : Btf) (references dependentTypes : List ℕ) : Prop :=
  ∀ next, next ∈ dependentTypes ↔ ∃ reference ∈ references, btf.Next reference next

theorem Covers.nil : btf.Covers [] [] := fun _ ↦ by simp

theorem Covers.append {references references' types types' : List ℕ} (h : btf.Covers references types)
    (h' : btf.Covers references' types') : btf.Covers (references ++ references') (types ++ types') := by
  intro next
  rw [List.mem_append, h next, h' next]
  simp only [List.mem_append, or_and_right, exists_or]

theorem Covers.singleton {typeId : ℕ} {found : Option ℕ}
    (h : ∀ next, btf.Next typeId next ↔ found = some next) : btf.Covers [typeId] found.toList := by
  intro next
  simp [h next]

/-- What a turn of the loop over the members adds to the types to be defined. -/
theorem addMember_covers {fuel : ℕ} {isStruct packed : Bool} {fields fields' : Fields}
    {member : BtfMember} (h : btf.addMember fuel isStruct packed fields member = .ok fields') :
    ∃ next, fields'.dependentTypes = fields.dependentTypes ++ next ∧ btf.Covers [member.typeId] next := by
  simp only [addMember, bind_eq_ok] at h
  obtain ⟨_, -, stripped, hskip, found, hfound, _, -, _, -, _, -, _, -, _, -, heq⟩ := h
  obtain rfl := Except.ok.inj heq
  exact ⟨found.toList, rfl, .singleton fun next ↦
    ⟨fun hnext ↦ (next_iff hfound next).mp (skip_of_next hskip hnext),
      fun hnext ↦ next_of_skip hskip ((next_iff hfound next).mpr hnext)⟩⟩

/-- What a turn of the loop over the variables adds to the types to be defined. -/
theorem addVar_covers {fuel : ℕ} {fields fields' : Fields} {datasecVar : BtfDatasecVar}
    (h : btf.addVar fuel fields datasecVar = .ok fields') :
    ∃ next, fields'.dependentTypes = fields.dependentTypes ++ next ∧
      btf.Covers (btf.globalType datasecVar).toList next := by
  obtain ⟨t, ht, h⟩ := bind_eq_ok.mp h
  rw [typeById_eq_ok] at ht
  rw [globalType, ht]
  cases t with
  | var v =>
    dsimp only at h ⊢
    split at h
    · next hstatic =>
      obtain rfl := Except.ok.inj h
      rw [if_pos hstatic]
      exact ⟨[], (List.append_nil _).symm, .nil⟩
    · next hstatic =>
      simp only [addGlobal, bind_eq_ok] at h
      obtain ⟨found, hfound, _, -, _, -, heq⟩ := h
      obtain rfl := Except.ok.inj heq
      rw [if_neg hstatic]
      exact ⟨found.toList, rfl, .singleton (next_iff hfound)⟩
  | _ => cases h

/-- The types to be defined after a type are those behind what it refers to. -/
theorem define_covers {fuel typeId : ℕ} {item : RustItem} {dependentTypes : List ℕ}
    (h : btf.define fuel typeId = .ok (item, dependentTypes)) :
    ∃ t, btf.types[typeId]? = some t ∧ isDefinable t = true ∧
      btf.Covers (btf.references t) dependentTypes := by
  obtain ⟨t, ht, h⟩ := bind_eq_ok.mp h
  rw [typeById_eq_ok] at ht
  have hcomposite : ∀ t : BtfComposite, btf.defineComposite fuel typeId t = .ok (item, dependentTypes) →
      btf.Covers (t.members.map BtfMember.typeId) dependentTypes := by
    intro t h
    simp only [defineComposite, bind_eq_ok] at h
    obtain ⟨packed, -, fields, hfields, _, -, heq⟩ := h
    obtain ⟨-, rfl⟩ := Prod.mk.inj (Except.ok.inj heq)
    refine foldlM_induction (fun done fields ↦
      btf.Covers (done.map BtfMember.typeId) fields.dependentTypes) hfields .nil ?_
    intro done member mid fields' _ hmid hadd
    obtain ⟨next, hnext, hcovers⟩ := addMember_covers hadd
    rw [hnext, List.map_append]
    exact hmid.append hcovers
  cases t with
  | struct t | union t => exact ⟨_, ht, rfl, hcomposite t h⟩
  | enum t =>
    obtain ⟨-, -, h⟩ := bind_eq_ok.mp h
    obtain ⟨-, rfl⟩ := Prod.mk.inj (Except.ok.inj h)
    exact ⟨_, ht, rfl, .nil⟩
  | datasec t =>
    simp only [defineDatasec, bind_eq_ok] at h
    obtain ⟨_, -, fields, hfields, heq⟩ := h
    obtain ⟨-, rfl⟩ := Prod.mk.inj (Except.ok.inj heq)
    refine ⟨_, ht, rfl, ?_⟩
    refine foldlM_induction (fun done fields ↦
      btf.Covers (done.filterMap btf.globalType) fields.dependentTypes) hfields .nil ?_
    intro done datasecVar mid fields' _ hmid hadd
    obtain ⟨next, hnext, hcovers⟩ := addVar_covers hadd
    rw [hnext, List.filterMap_append, List.filterMap_cons, List.filterMap_nil]
    cases hglobal : btf.globalType datasecVar <;>
      exact hmid.append (by simpa [hglobal] using hcovers)
  | _ => cases h

/-- One definition asks for another one if the latter is found behind one of its references. -/
theorem asks_iff {fuel typeId next : ℕ} {visited : RustItem × List ℕ}
    (hdefine : btf.define fuel typeId = .ok visited) :
    Asks (btf.define fuel) typeId next ↔
      ∃ reference, btf.Refers typeId reference ∧ btf.Next reference next := by
  obtain ⟨t, ht, -, hcovers⟩ := define_covers hdefine
  constructor
  · rintro ⟨item', dependentTypes', hdefine', hnext⟩
    obtain rfl := Except.ok.inj (hdefine.symm.trans hdefine')
    obtain ⟨reference, href, hfound⟩ := (hcovers next).mp hnext
    exact ⟨reference, ⟨t, ht, href⟩, hfound⟩
  · rintro ⟨reference, ⟨t', ht', href⟩, hfound⟩
    rw [Option.some.inj (ht'.symm.trans ht)] at href
    exact ⟨visited.1, visited.2, hdefine, (hcovers next).mpr ⟨reference, href, hfound⟩⟩

/-- Whatever the work list reaches is a type with a definition that the first type leads to. -/
theorem leads_of_reached {fuel root typeId : ℕ} (hroot : btf.Definable root)
    (h : Reached (btf.define fuel) [root] typeId) :
    btf.Definable typeId ∧ ReflTransGen btf.Refers root typeId := by
  obtain ⟨_, hmem, hpath⟩ := h
  obtain rfl := List.mem_singleton.mp hmem
  induction hpath with
  | refl => exact ⟨hroot, .refl⟩
  | tail _ hasks ih =>
    obtain ⟨_, _, hdefine, -⟩ := id hasks
    obtain ⟨reference, href, hnext⟩ := (asks_iff hdefine).mp hasks
    exact ⟨hnext.leads.1, ih.2.trans (.head href hnext.leads.2)⟩

/-- The work list reaches each such type if it can define all of those that it reaches. -/
theorem reached_of_leads {fuel root typeId : ℕ} (hroot : btf.Definable root)
    (h : ∀ typeId, Reached (btf.define fuel) [root] typeId → ∃ visited, btf.define fuel typeId = .ok visited)
    (htarget : btf.Definable typeId) (hpath : ReflTransGen btf.Refers root typeId) :
    Reached (btf.define fuel) [root] typeId := by
  -- whatever is found behind a type on the path is reached
  suffices hfound : ∀ next, btf.Next typeId next → Reached (btf.define fuel) [root] next from
    hfound typeId htarget.next
  clear htarget
  induction hpath with
  | refl =>
    intro next hnext
    obtain ⟨more, hmore⟩ := hroot.next
    obtain rfl := Option.some.inj ((next_iff hmore next).mp hnext)
    exact .of_mem (List.mem_singleton_self _)
  | @tail mid reference _ hrefers ih =>
    intro next hnext
    by_cases hmid : btf.Definable mid
    · have hreached := ih mid hmid.next
      obtain ⟨visited, hdefine⟩ := h mid hreached
      exact hreached.tail ((asks_iff hdefine).mpr ⟨reference, hrefers, hnext⟩)
    · exact ih next (hnext.head hmid hrefers)

/-- The types that the work list reaches are finitely many. -/
theorem finite_reached (fuel root : ℕ) : {typeId | Reached (btf.define fuel) [root] typeId}.Finite := by
  refine (((Finset.range btf.types.length).finite_toSet).insert root).subset ?_
  rintro typeId ⟨_, hmem, hpath⟩
  obtain rfl := List.mem_singleton.mp hmem
  rcases hpath.cases_tail with rfl | ⟨mid, -, hasks⟩
  · exact Set.mem_insert _ _
  · obtain ⟨_, _, hdefine, -⟩ := id hasks
    obtain ⟨reference, -, hnext⟩ := (asks_iff hdefine).mp hasks
    obtain ⟨⟨t, ht, -⟩, -⟩ := hnext.leads
    obtain ⟨hlt, -⟩ := List.getElem?_eq_some_iff.mp ht
    exact Set.mem_insert_of_mem _ (Finset.mem_coe.mpr (Finset.mem_range.mpr hlt))

theorem typeDefinition_eq_ok {fuel turns root : ℕ} {items : List (ℕ × RustItem)} :
    btf.typeDefinition fuel turns root = .ok items ↔
      btf.Definable root ∧ Worklist.run (btf.define fuel) .outOfFuel turns [root] [] = .ok items := by
  simp only [typeDefinition, bind_eq_ok, ensure_eq_ok, typeById_eq_ok]
  constructor
  · rintro ⟨t, ht, -, hdef, hrun⟩
    exact ⟨⟨t, ht, hdef⟩, hrun⟩
  · rintro ⟨⟨t, ht, hdef⟩, hrun⟩
    exact ⟨t, ht, (), hdef, hrun⟩

section

variable {fuel turns root : ℕ} {items : List (ℕ × RustItem)}

theorem nodup_items (h : btf.typeDefinition fuel turns root = .ok items) : (items.map Prod.fst).Nodup :=
  (Worklist.complete_of_run (typeDefinition_eq_ok.mp h).2).nodup

/-- What is written is what the first type leads to. -/
theorem mem_items_iff (h : btf.typeDefinition fuel turns root = .ok items) {typeId : ℕ} :
    typeId ∈ items.map Prod.fst ↔ btf.Definable typeId ∧ ReflTransGen btf.Refers root typeId := by
  obtain ⟨hroot, hrun⟩ := typeDefinition_eq_ok.mp h
  have hvisits := (Worklist.exists_run_iff (finite_reached fuel root)).mp ⟨turns, items, hrun⟩
  rw [(Worklist.complete_of_run hrun).mem_iff]
  exact ⟨leads_of_reached hroot, fun ⟨hdef, hpath⟩ ↦ reached_of_leads hroot hvisits hdef hpath⟩

theorem define_of_mem (h : btf.typeDefinition fuel turns root = .ok items) {typeId : ℕ} {item : RustItem}
    (hitem : (typeId, item) ∈ items) :
    ∃ dependentTypes, btf.define fuel typeId = .ok (item, dependentTypes) := by
  obtain ⟨dependentTypes, hdefine, -⟩ :=
    (Worklist.complete_of_run (typeDefinition_eq_ok.mp h).2).visited typeId item hitem
  exact ⟨dependentTypes, hdefine⟩

end

end Btf

/-- `type_definition` writes every struct, union, enum and data section that the first type leads to,
each of them once, and nothing else. -/
theorem typeDefinition_defines {btf : Btf} {fuel turns root : ℕ} {items : List (ℕ × RustItem)}
    (h : btf.typeDefinition fuel turns root = .ok items) :
    (items.map Prod.fst).Nodup ∧
      (∀ typeId, typeId ∈ items.map Prod.fst ↔
        btf.Definable typeId ∧ ReflTransGen btf.Refers root typeId) ∧
      ∀ typeId item, (typeId, item) ∈ items →
        ∃ dependentTypes, btf.define fuel typeId = .ok (item, dependentTypes) :=
  ⟨Btf.nodup_items h, fun _ ↦ Btf.mem_items_iff h, fun _ _ ↦ Btf.define_of_mem h⟩

theorem typeDefinition_defines_demo :
    ([14, 12] : List ℕ).Nodup ∧ ReflTransGen podsnoopBtf.Refers 14 12 := by
  obtain ⟨hnodup, hkeys, -⟩ := typeDefinition_defines typeDefinition_podsnoopBtf
  exact ⟨hnodup, ((hkeys 12).mp (by decide)).2⟩

/-- `type_definition` returns after enough turns exactly if the first type gets a definition and every
struct, union, enum and data section that it leads to can be defined. -/
theorem exists_typeDefinition_iff (btf : Btf) (fuel root : ℕ) :
    (∃ turns items, btf.typeDefinition fuel turns root = .ok items) ↔
      btf.Definable root ∧ ∀ typeId, btf.Definable typeId → ReflTransGen btf.Refers root typeId →
        ∃ visited, btf.define fuel typeId = .ok visited := by
  simp only [Btf.typeDefinition_eq_ok, exists_and_left]
  refine and_congr_right fun hroot ↦ ?_
  rw [Worklist.exists_run_iff (Btf.finite_reached fuel root)]
  constructor
  · intro hvisits typeId hdef hpath
    exact hvisits typeId (Btf.reached_of_leads hroot hvisits hdef hpath)
  · intro hdefines typeId hreached
    obtain ⟨hdef, hpath⟩ := Btf.leads_of_reached hroot hreached
    exact hdefines typeId hdef hpath

/-! ## Names in the definitions -/

/-- The name that the definition of a type gets. -/
def BtfType.itemName : BtfType → Text
  | .struct t | .union t => t.name
  | .enum t => t.name
  | .datasec t => t.name.tail
  | _ => []

/-- Only data sections and declaration tags refer to variables. -/
def Btf.VarsInSections (btf : Btf) : Prop :=
  ∀ typeId next v, btf.Refers typeId next → btf.types[next]? = some (.var v) →
    ∃ name target index, btf.types[typeId]? = some (.declTag name target index)

theorem varsInSections_podsnoopBtf : podsnoopBtf.VarsInSections := by
  have hnone : ∀ t ∈ podsnoopBtf.types, ∀ next ∈ podsnoopBtf.references t, next ≠ 13 := by decide
  have hvar : ∀ i < podsnoopBtf.types.length, i ≠ 13 →
      ((podsnoopBtf.types[i]?).any fun t ↦ t.display = "var".toList) = false := by decide
  rintro typeId next v ⟨t, ht, hnext⟩ hv
  obtain ⟨hlt, -⟩ := List.getElem?_eq_some_iff.mp hv
  have hdisplay := hvar next hlt (hnone t (List.mem_of_getElem? ht) next hnext)
  rw [hv] at hdisplay
  cases hdisplay

namespace Btf

variable {btf : Btf}

theorem VarsInSections.skip (hvars : btf.VarsInSections) {fuel typeId stripped : ℕ}
    (h : btf.skipModsAndTypedefs fuel typeId = .ok stripped)
    (hnot : ∀ v, btf.types[typeId]? ≠ some (.var v)) (v : BtfVar) :
    btf.types[stripped]? ≠ some (.var v) := by
  induction fuel generalizing typeId with
  | zero => cases h
  | succ fuel ih =>
    obtain ⟨t, ht, h⟩ := bind_eq_ok.mp h
    rw [typeById_eq_ok] at ht
    cases t with
    | volatile next | const next | restrict next | typedef _ next | typeTag _ next =>
      refine ih h fun v hv ↦ ?_
      obtain ⟨_, _, _, htag⟩ := hvars typeId next v ⟨_, ht, List.mem_singleton_self next⟩ hv
      cases ht.symm.trans htag
    | _ =>
      obtain rfl := Except.ok.inj h
      exact hnot v

/-- A name in the declaration of a type is that of the type behind it. -/
theorem next_of_mentions (hvars : btf.VarsInSections) {fuel typeId target : ℕ} {ty : RustType}
    {name : Text} (h : btf.typeDeclaration fuel typeId = .ok ty)
    (hnot : ∀ v, btf.types[typeId]? ≠ some (.var v)) (hmentions : ty.mentions = some (target, name)) :
    btf.Next typeId target ∧ ∃ t, btf.types[target]? = some t ∧ t.itemName = name := by
  induction fuel generalizing typeId ty with
  | zero => cases h
  | succ fuel ih =>
    obtain ⟨stripped, hskip, h⟩ := bind_eq_ok.mp h
    obtain ⟨t, ht, h⟩ := bind_eq_ok.mp h
    rw [typeById_eq_ok] at ht
    have hvar := hvars.skip hskip hnot
    suffices hsuff : btf.Next stripped target ∧ ∃ t, btf.types[target]? = some t ∧ t.itemName = name from
      ⟨next_of_skip hskip hsuff.1, hsuff.2⟩
    have hitem : ∀ itemName, isDefinable t = true → t.itemName = itemName →
        ty = .named stripped itemName →
        btf.Next stripped target ∧ ∃ t, btf.types[target]? = some t ∧ t.itemName = name := by
      rintro _ hdef rfl rfl
      obtain ⟨rfl, rfl⟩ := Prod.mk.inj (Option.some.inj hmentions)
      exact ⟨Definable.next ⟨t, ht, hdef⟩, t, ht, rfl⟩
    have hbehind : ∀ next inner, isDefinable t = false → (∀ n k i, t ≠ .declTag n k i) →
        next ∈ btf.references t → btf.typeDeclaration fuel next = .ok inner →
        inner.mentions = some (target, name) →
        btf.Next stripped target ∧ ∃ t, btf.types[target]? = some t ∧ t.itemName = name := by
      intro next inner hdef htag href hinner hment
      have hrefers : btf.Refers stripped next := ⟨t, ht, href⟩
      obtain ⟨hnext, hname⟩ := ih hinner (fun v hv ↦ by
        obtain ⟨_, _, _, htag'⟩ := hvars stripped next v hrefers hv
        exact htag _ _ _ (Option.some.inj (ht.symm.trans htag'))) hment
      refine ⟨hnext.head ?_ hrefers, hname⟩
      rintro ⟨t', ht', hdef'⟩
      rw [Option.some.inj (ht'.symm.trans ht), hdef] at hdef'
      cases hdef'
    cases t with
    | struct t | union t => exact hitem t.name rfl rfl (Except.ok.inj h).symm
    | enum t => exact hitem t.name rfl rfl (Except.ok.inj h).symm
    | ptr pointee =>
      obtain ⟨inner, hinner, h⟩ := bind_eq_ok.mp h
      obtain rfl := Except.ok.inj h
      exact hbehind pointee inner rfl (fun _ _ _ heq ↦ by cases heq) (List.mem_singleton_self _) hinner
        hmentions
    | array t =>
      obtain ⟨inner, hinner, h⟩ := bind_eq_ok.mp h
      obtain rfl := Except.ok.inj h
      exact hbehind t.valTypeId inner rfl (fun _ _ _ heq ↦ by cases heq) (List.mem_singleton_self _)
        hinner hmentions
    | int t => rcases t.declaration_eq_ok h with ⟨signed, rfl⟩ | rfl <;> cases hmentions
    | float _ size =>
      obtain ⟨-, rfl⟩ := floatDeclaration_eq_ok h
      cases hmentions
    | var v => exact absurd ht (hvar v)
    | void | func _ _ =>
      obtain rfl := Except.ok.inj h
      cases hmentions
    | _ => cases h

/-- Where the types of the fields of a definition come from; padding mentions no type. -/
theorem field_source {fuel typeId : ℕ} {c : RustComposite} {dependentTypes : List ℕ}
    (h : btf.define fuel typeId = .ok (.composite c, dependentTypes)) {field : RustField}
    (hfield : field ∈ c.fields) :
    field.ty.mentions = none ∨
      ∃ t reference more, btf.types[typeId]? = some t ∧ isDefinable t = true ∧
        reference ∈ btf.references t ∧ btf.typeDeclaration more reference = .ok field.ty := by
  have hpad : ∀ offset padding, ∀ field ∈ padField offset padding, field.ty.mentions = none := by
    intro offset padding field hfield
    rw [padField] at hfield
    split at hfield
    · cases hfield
    · obtain rfl := List.mem_singleton.mp hfield
      rfl
  rcases define_cases h with ⟨t, packed, fields, impl, ht, -, hfields, -, heq⟩ | ⟨t, -, -, heq⟩ |
    ⟨t, fields, ht, hfields, heq⟩
  · obtain rfl := RustItem.composite.inj heq
    have hsource : ∀ field ∈ fields.aggContent, field.ty.mentions = none ∨
        ∃ m ∈ t.members, btf.typeDeclaration (fuel + 1) m.typeId = .ok field.ty := by
      refine foldlM_induction (fun _ fields ↦ ∀ field ∈ fields.aggContent, field.ty.mentions = none ∨
        ∃ m ∈ t.members, btf.typeDeclaration (fuel + 1) m.typeId = .ok field.ty) hfields
        (fun _ hfield ↦ absurd hfield List.not_mem_nil) ?_
      intro done m mid next hm hmid hadd field hfield
      obtain ⟨padding, size, ty, -, -, -, hty, hagg, -⟩ := addMember_spec hadd
      rw [hagg, List.mem_append, List.mem_append] at hfield
      rcases hfield with (hfield | hfield) | hfield
      · exact hmid field hfield
      · exact .inl (hpad _ _ field hfield)
      · obtain rfl := List.mem_singleton.mp hfield
        exact .inr ⟨m, hm, hty⟩
    rcases hsource field hfield with hnone | ⟨m, hm, hty⟩
    · exact .inl hnone
    · rcases ht with ht | ht <;>
        exact .inr ⟨_, m.typeId, _, ht, rfl, List.mem_map_of_mem hm, hty⟩
  · cases heq
  · obtain rfl := RustItem.composite.inj heq
    have hsource : ∀ field ∈ fields.aggContent, field.ty.mentions = none ∨
        ∃ datasecVar ∈ t.vars, ∃ reference, btf.globalType datasecVar = some reference ∧
          btf.typeDeclaration fuel reference = .ok field.ty := by
      refine foldlM_induction (fun _ fields ↦ ∀ field ∈ fields.aggContent, field.ty.mentions = none ∨
        ∃ datasecVar ∈ t.vars, ∃ reference, btf.globalType datasecVar = some reference ∧
          btf.typeDeclaration fuel reference = .ok field.ty) hfields
        (fun _ hfield ↦ absurd hfield List.not_mem_nil) ?_
      intro done datasecVar mid next hm hmid hadd field hfield
      obtain ⟨v, hv, ⟨-, rfl⟩ | ⟨hlinkage, padding, ty, -, hty, hagg, -⟩⟩ := addVar_spec hadd
      · exact hmid field hfield
      · rw [hagg, List.mem_append, List.mem_append] at hfield
        rcases hfield with (hfield | hfield) | hfield
        · exact hmid field hfield
        · exact .inl (hpad _ _ field hfield)
        · obtain rfl := List.mem_singleton.mp hfield
          refine .inr ⟨datasecVar, hm, v.typeId, ?_, hty⟩
          rw [globalType, hv]
          exact if_neg hlinkage
    rcases hsource field hfield with hnone | ⟨datasecVar, hm, reference, hglobal, hty⟩
    · exact .inl hnone
    · exact .inr ⟨_, reference, _, ht, rfl, List.mem_filterMap.mpr ⟨datasecVar, hm, hglobal⟩, hty⟩

theorem define_name {fuel typeId : ℕ} {item : RustItem} {dependentTypes : List ℕ} {t : BtfType}
    (h : btf.define fuel typeId = .ok (item, dependentTypes)) (ht : btf.types[typeId]? = some t) :
    item.name = t.itemName := by
  rcases define_cases h with ⟨t', _, _, _, ht' | ht', -, -, -, rfl⟩ | ⟨t', ht', -, rfl⟩ |
    ⟨t', _, ht', -, rfl⟩ <;>
  · obtain rfl := Option.some.inj (ht.symm.trans ht')
    rfl

/-- The type that a definition mentions is among those that are written. -/
theorem item_of_mentions (hvars : btf.VarsInSections) {fuel turns root : ℕ} {items : List (ℕ × RustItem)}
    (h : btf.typeDefinition fuel turns root = .ok items) {typeId : ℕ} {c : RustComposite}
    (hc : (typeId, .composite c) ∈ items) {field : RustField} (hfield : field ∈ c.fields) {target : ℕ}
    {name : Text} (hmentions : field.ty.mentions = some (target, name)) :
    ∃ item t, (target, item) ∈ items ∧ btf.types[target]? = some t ∧ t.itemName = name := by
  obtain ⟨_, hdefine⟩ := define_of_mem h hc
  have hpath := ((mem_items_iff h).mp (List.mem_map_of_mem hc)).2
  rcases field_source hdefine hfield with hnone | ⟨t, reference, more, ht, hdef, href, hty⟩
  · rw [hnone] at hmentions
    cases hmentions
  · have hrefers : btf.Refers typeId reference := ⟨t, ht, href⟩
    have hnot : ∀ v, btf.types[reference]? ≠ some (.var v) := by
      intro v hv
      obtain ⟨_, _, _, htag'⟩ := hvars typeId reference v hrefers hv
      rw [Option.some.inj (ht.symm.trans htag')] at hdef
      cases hdef
    obtain ⟨hnext, t', ht', hname⟩ := next_of_mentions hvars hty hnot hmentions
    obtain ⟨⟨_, item⟩, hitem, rfl⟩ := List.mem_map.mp
      ((mem_items_iff h).mpr ⟨hnext.leads.1, hpath.trans (.head hrefers hnext.leads.2)⟩)
    exact ⟨item, t', hitem, ht', hname⟩

end Btf

/-- Every struct, union or enum that a definition mentions by name, be it behind pointers or arrays, has
a definition of that name among those that are written with it. -/
theorem mentioned_defined {btf : Btf} (hvars : btf.VarsInSections) {fuel turns root : ℕ}
    {items : List (ℕ × RustItem)} (h : btf.typeDefinition fuel turns root = .ok items) {typeId : ℕ}
    {c : RustComposite} (hc : (typeId, .composite c) ∈ items) {field : RustField}
    (hfield : field ∈ c.fields) {target : ℕ} {name : Text}
    (hmentions : field.ty.mentions = some (target, name)) :
    ∃ item, (target, item) ∈ items ∧ item.name = name := by
  obtain ⟨item, t, hitem, ht, hname⟩ := Btf.item_of_mentions hvars h hc hfield hmentions
  obtain ⟨_, hdefine⟩ := Btf.define_of_mem h hitem
  exact ⟨item, hitem, (Btf.define_name hdefine ht).trans hname⟩

theorem mentioned_defined_demo :
    ∃ item, (12, item) ∈ podsnoopItems ∧ item.name = "pod_exec_event".toList :=
  mentioned_defined varsInSections_podsnoopBtf typeDefinition_podsnoopBtf List.mem_cons_self
    List.mem_cons_self rfl

end EbpfPlayground.LibbpfCargo
