import EbpfPlayground.Foundation.JsonText

/-!
# Strategic-merge patches

A strategic-merge patch is a JSON value that is merged into another one: objects member by member,
`null` removing a member, and the lists that the schema names element by element, by a merge key.
Member names that start with `$` are directives and are left open, and so is all that the rules do
not mention.  A `Scope` is one field of the elements with one name in such a list.  A patch that names
nothing outside a scope changes nothing outside it, and for every other patch there is a value that
one merge in line with the rules changes outside the scope.
-/

namespace EbpfPlayground.Merge

open Json

/-- Distinct names, none of which is a directive. -/
structure Plain (members : List (Text × Json)) : Prop where
  nodup : (members.map Prod.fst).Nodup
  no_directive : ∀ m ∈ members, m.1.head? ≠ some '$'

/-- Merge an element into the first one with the same key, or add it at the end. -/
def mergeElement (mergeKey : Text) (patch : Json) (merge : Json → Json) : List Json → List Json
  | [] => [patch]
  | element :: elements =>
    if element.get mergeKey = patch.get mergeKey then merge element :: elements
    else element :: mergeElement mergeKey patch merge elements

/-- An object whose merge key is a string. -/
def Keyed (mergeKey : Text) (element : Json) : Prop :=
  ∃ members name, element = obj members ∧ members.lookup mergeKey = some (str name)

/-- The rules of the merge; `mergeKeys` is the schema, by the path of a list, and the path of an
element is that of its list. -/
structure StrategicMerge (mergeKeys : List Text → Option Text)
    (merge : List Text → Json → Json → Json) : Prop where
  members : ∀ path patch members, Plain patch → ∃ members',
    merge path (obj patch) (obj members) = obj members' ∧
      (∀ key, patch.lookup key = none → members'.lookup key = members.lookup key) ∧
      ∀ key p value, patch.lookup key = some p → p ≠ null → members.lookup key = some value →
        members'.lookup key = some (merge (path ++ [key]) p value)
  string : ∀ path text value, merge path (str text) value = str text
  elements : ∀ path mergeKey patch elements, mergeKeys path = some mergeKey →
    (∀ p ∈ patch, Keyed mergeKey p ∧ ∀ members, p = obj members → Plain members) →
      merge path (arr patch) (arr elements) =
        arr (patch.foldl (fun result p ↦ mergeElement mergeKey p (merge path p) result) elements)

/-! ## A merge in line with the rules -/

def removeMember (key : Text) (members : List (Text × Json)) : List (Text × Json) :=
  members.filter fun m ↦ m.1 ≠ key

mutual
/-- Everything that the rules leave open is replaced, and directives are members. -/
def applyPatch (mergeKeys : List Text → Option Text) (path : List Text) : Json → Json → Json
  | obj patch, obj members => obj (applyMembers mergeKeys path patch members)
  | arr patch, arr elements =>
    match mergeKeys path with
    | some mergeKey => arr (applyElements mergeKeys path mergeKey patch elements)
    | none => arr patch
  | patch, _ => patch

def applyMembers (mergeKeys : List Text → Option Text) (path : List Text) :
    List (Text × Json) → List (Text × Json) → List (Text × Json)
  | [], members => members
  | (key, p) :: patch, members =>
    applyMembers mergeKeys path patch
      (if p = null then removeMember key members
      else
        match members.lookup key with
        | some value => setMember members key (applyPatch mergeKeys (path ++ [key]) p value)
        | none => setMember members key p)

def applyElements (mergeKeys : List Text → Option Text) (path : List Text) (mergeKey : Text) :
    List Json → List Json → List Json
  | [], elements => elements
  | p :: patch, elements =>
    applyElements mergeKeys path mergeKey patch
      (mergeElement mergeKey p (applyPatch mergeKeys path p) elements)
end

variable {mergeKeys : List Text → Option Text}

theorem lookup_removeMember (members : List (Text × Json)) (key key' : Text) :
    (removeMember key members).lookup key' = if key' = key then none else members.lookup key' := by
  induction members with
  | nil => simp [removeMember]
  | cons member members ih =>
    obtain ⟨name, value⟩ := member
    rw [removeMember] at ih ⊢
    by_cases hname : name = key
    · subst hname
      by_cases h : key' = name
      · subst h
        simpa using ih
      · have hbeq : (key' == name) = false := by simpa using h
        simpa [List.lookup_cons, h, hbeq] using ih
    · by_cases h : key' = name
      · subst h
        simp [hname]
      · have hbeq : (key' == name) = false := by simpa using h
        simpa [List.lookup_cons, hname, hbeq] using ih

theorem removeMember_cons_of_ne {key name : Text} (h : name ≠ key) (value : Json)
    (members : List (Text × Json)) :
    removeMember key ((name, value) :: members) = (name, value) :: removeMember key members := by
  simp [removeMember, h]

theorem applyElements_eq_foldl (path : List Text) (mergeKey : Text) (patch elements : List Json) :
    applyElements mergeKeys path mergeKey patch elements =
      patch.foldl (fun result p ↦ mergeElement mergeKey p (applyPatch mergeKeys path p) result)
        elements := by
  induction patch generalizing elements with
  | nil => rfl
  | cons p patch ih => rw [applyElements, ih, List.foldl_cons]

theorem lookup_applyMembers_of_notMem {path : List Text} {patch members : List (Text × Json)}
    {key : Text} (h : key ∉ patch.map Prod.fst) :
    (applyMembers mergeKeys path patch members).lookup key = members.lookup key := by
  induction patch generalizing members with
  | nil => rfl
  | cons p patch ih =>
    obtain ⟨name, p⟩ := p
    rw [List.map_cons, List.mem_cons, not_or] at h
    rw [applyMembers, ih h.2]
    split
    · rw [lookup_removeMember, if_neg h.1]
    · split <;> rw [lookup_setMember, if_neg h.1]

theorem lookup_applyMembers {path : List Text} {patch members : List (Text × Json)} {key : Text}
    {p value : Json} (hnodup : (patch.map Prod.fst).Nodup) (hpatch : patch.lookup key = some p)
    (hne : p ≠ null) (hvalue : members.lookup key = some value) :
    (applyMembers mergeKeys path patch members).lookup key =
      some (applyPatch mergeKeys (path ++ [key]) p value) := by
  induction patch generalizing members with
  | nil => cases hpatch
  | cons first patch ih =>
    obtain ⟨name, q⟩ := first
    rw [List.map_cons, List.nodup_cons] at hnodup
    by_cases hname : key = name
    · subst hname
      obtain rfl : q = p := by simpa using hpatch
      rw [applyMembers, lookup_applyMembers_of_notMem hnodup.1, if_neg hne, hvalue]
      simp only [lookup_setMember, if_true]
    · have hbeq : (key == name) = false := by simpa using hname
      rw [List.lookup_cons, hbeq] at hpatch
      rw [applyMembers]
      apply ih hnodup.2 hpatch
      split
      · rw [lookup_removeMember, if_neg hname, hvalue]
      · split <;> rw [lookup_setMember, if_neg hname, hvalue]

theorem notMem_of_lookup_eq_none {members : List (Text × Json)} {key : Text}
    (h : members.lookup key = none) : key ∉ members.map Prod.fst := by
  intro hmem
  obtain ⟨m, hm, rfl⟩ := List.mem_map.mp hmem
  have hname := List.lookup_eq_none_iff.mp h m hm
  simp at hname

theorem strategicMerge_applyPatch : StrategicMerge mergeKeys (applyPatch mergeKeys) where
  members := by
    intro path patch members hplain
    refine ⟨_, by rw [applyPatch], ?_, ?_⟩
    · intro key hkey
      exact lookup_applyMembers_of_notMem (notMem_of_lookup_eq_none hkey)
    · intro key p value hpatch hne hvalue
      exact lookup_applyMembers hplain.nodup hpatch hne hvalue
  string := by
    intro path text value
    rw [applyPatch]
    all_goals simp
  elements := by
    intro path mergeKey patch elements hkey _
    rw [applyPatch, hkey]
    dsimp only
    rw [applyElements_eq_foldl]

/-! ## Scopes -/

/-- A field of the elements with one name, in a list that is reached through members. -/
inductive Scope where
  | field (mergeKey name fieldName : Text)
  | member (key : Text) (inner : Scope)

/-- Two elements are the same but for the field, which only an element with the name may change. -/
def SameButField (mergeKey name field : Text) (element' element : Json) : Prop :=
  element' = element ∨
    element.get mergeKey = some (str name) ∧ ∀ key ≠ field, element'.get key = element.get key

namespace Scope

/-- The schema merges the list by the key, and no name on the way is a directive. -/
def Follows (mergeKeys : List Text → Option Text) : List Text → Scope → Prop
  | path, .field mergeKey _ fieldName =>
    mergeKeys path = some mergeKey ∧ mergeKey ≠ fieldName ∧ mergeKey.head? ≠ some '$' ∧
      fieldName.head? ≠ some '$'
  | path, .member key inner => key.head? ≠ some '$' ∧ inner.Follows mergeKeys (path ++ [key])

/-- The patch names nothing outside the scope. -/
def Names : Scope → Json → Prop
  | .field mergeKey name fieldName, patch =>
    ∃ elements, patch = arr elements ∧ ∀ element ∈ elements, ∃ members, element = obj members ∧
      members.lookup mergeKey = some (str name) ∧ ∀ m ∈ members, m.1 = mergeKey ∨ m.1 = fieldName
  | .member key inner, patch =>
    ∃ members, patch = obj members ∧ ∀ m ∈ members, m.1 = key ∧ inner.Names m.2

/-- The value has the list and an element with the name. -/
def Fits : Scope → Json → Prop
  | .field mergeKey name _, value =>
    ∃ elements, value = arr elements ∧ (∀ element ∈ elements, Keyed mergeKey element) ∧
      ∃ element ∈ elements, element.get mergeKey = some (str name)
  | .member key inner, value =>
    ∃ members next, value = obj members ∧ members.lookup key = some next ∧ inner.Fits next

/-- The first value is the second one outside the scope. -/
def Unchanged : Scope → Json → Json → Prop
  | .field mergeKey name fieldName, value', value =>
    List.Forall₂ (SameButField mergeKey name fieldName) (value'.asArr.getD []) (value.asArr.getD [])
  | .member key inner, value', value =>
    (∀ key' ≠ key, value'.get key' = value.get key') ∧
      inner.Unchanged (value'.index key) (value.index key)

theorem Names.ne_null {scope : Scope} {patch : Json} (h : scope.Names patch) : patch ≠ null := by
  cases scope with
  | field mergeKey name fieldName =>
    obtain ⟨_, rfl, _⟩ := h
    simp
  | member key inner =>
    obtain ⟨_, rfl, _⟩ := h
    simp

theorem unchanged_self (scope : Scope) (value : Json) : scope.Unchanged value value := by
  induction scope generalizing value with
  | field mergeKey name fieldName =>
    rw [Unchanged, List.forall₂_same]
    exact fun _ _ ↦ .inl rfl
  | member key inner ih => exact ⟨fun _ _ ↦ rfl, ih _⟩

end Scope

theorem SameButField.get_eq {mergeKey name field key : Text} (hne : key ≠ field)
    {element' element : Json} (h : SameButField mergeKey name field element' element) :
    element'.get key = element.get key := by
  rcases h with rfl | ⟨_, hsame⟩
  · rfl
  · exact hsame key hne

theorem SameButField.trans {mergeKey name field : Text}
    {first second third : Json} (h : SameButField mergeKey name field first second)
    (h' : SameButField mergeKey name field second third) :
    SameButField mergeKey name field first third := by
  rcases h with rfl | ⟨hname, hsame⟩
  · exact h'
  · rcases h' with rfl | ⟨hname', hsame'⟩
    · exact .inr ⟨hname, hsame⟩
    · exact .inr ⟨hname', fun key hkey ↦ (hsame key hkey).trans (hsame' key hkey)⟩

/-- Merging an element into a list that has one with its name. -/
theorem mergeElement_forall₂ {mergeKey name field : Text} (patch : Json) {merge : Json → Json}
    (hpatch : patch.get mergeKey = some (str name)) {elements : List Json}
    (hmerge : ∀ element ∈ elements, element.get mergeKey = some (str name) →
      Keyed mergeKey (merge element) ∧ SameButField mergeKey name field (merge element) element)
    (hkeyed : ∀ element ∈ elements, Keyed mergeKey element)
    (hmem : ∃ element ∈ elements, element.get mergeKey = some (str name)) :
    List.Forall₂ (SameButField mergeKey name field) (mergeElement mergeKey patch merge elements)
        elements ∧
      ∀ element ∈ mergeElement mergeKey patch merge elements, Keyed mergeKey element := by
  induction elements with
  | nil =>
    obtain ⟨_, hnil, _⟩ := hmem
    cases hnil
  | cons element elements ih =>
    rw [mergeElement, hpatch]
    rw [List.forall_mem_cons] at hkeyed
    by_cases hname : element.get mergeKey = some (str name)
    · rw [if_pos hname]
      obtain ⟨hkeyed', hsame⟩ := hmerge element List.mem_cons_self hname
      exact ⟨.cons hsame (List.forall₂_same.mpr fun _ _ ↦ .inl rfl),
        List.forall_mem_cons.mpr ⟨hkeyed', hkeyed.2⟩⟩
    · rw [if_neg hname]
      have hrest : ∃ other ∈ elements, other.get mergeKey = some (str name) := by
        obtain ⟨other, hother, hothername⟩ := hmem
        rcases List.mem_cons.mp hother with rfl | hother
        · exact absurd hothername hname
        · exact ⟨other, hother, hothername⟩
      obtain ⟨hsame, hkeyed'⟩ :=
        ih (fun other hother ↦ hmerge other (List.mem_cons_of_mem _ hother)) hkeyed.2 hrest
      exact ⟨.cons (.inl rfl) hsame, List.forall_mem_cons.mpr ⟨hkeyed.1, hkeyed'⟩⟩

theorem SameButField.forall₂_trans {mergeKey name field : Text} {first second third : List Json}
    (h : List.Forall₂ (SameButField mergeKey name field) first second)
    (h' : List.Forall₂ (SameButField mergeKey name field) second third) :
    List.Forall₂ (SameButField mergeKey name field) first third := by
  induction h generalizing third with
  | nil => exact h'
  | cons hsame _ ih =>
    cases h' with
    | cons hsame' hrest => exact .cons (hsame.trans hsame') (ih hrest)

theorem exists_named_of_forall₂ {mergeKey name field : Text} (hne : mergeKey ≠ field)
    {elements' elements : List Json}
    (h : List.Forall₂ (SameButField mergeKey name field) elements' elements)
    (hmem : ∃ element ∈ elements, element.get mergeKey = some (str name)) :
    ∃ element ∈ elements', element.get mergeKey = some (str name) := by
  obtain ⟨element, helement, hname⟩ := hmem
  induction h with
  | nil => cases helement
  | @cons first' first _ _ hsame _ ih =>
    rcases List.mem_cons.mp helement with rfl | hrest
    · exact ⟨first', List.mem_cons_self, (hsame.get_eq hne).trans hname⟩
    · obtain ⟨other, hother, hothername⟩ := ih hrest
      exact ⟨other, List.mem_cons_of_mem _ hother, hothername⟩

/-! ## What stays unchanged -/

variable {merge : List Text → Json → Json → Json}

/-- A keyed element merges into one with its name. -/
theorem StrategicMerge.sameButField (h : StrategicMerge mergeKeys merge) {mergeKey name field : Text}
    {path : List Text} {patch members : List (Text × Json)} (hplain : Plain patch)
    (hname : patch.lookup mergeKey = some (str name))
    (hnames : ∀ m ∈ patch, m.1 = mergeKey ∨ m.1 = field)
    (hmembers : members.lookup mergeKey = some (str name)) :
    Keyed mergeKey (merge path (obj patch) (obj members)) ∧
      SameButField mergeKey name field (merge path (obj patch) (obj members)) (obj members) := by
  obtain ⟨members', hmerge, hkept, hmerged⟩ := h.members path patch members hplain
  have hkey : members'.lookup mergeKey = some (str name) := by
    rw [hmerged mergeKey (str name) (str name) hname (by simp) hmembers, h.string]
  rw [hmerge]
  refine ⟨⟨members', name, rfl, hkey⟩, .inr ⟨hmembers, fun key hfield ↦ ?_⟩⟩
  by_cases hkey' : key = mergeKey
  · subst hkey'
    exact hkey.trans hmembers.symm
  · apply hkept
    rw [List.lookup_eq_none_iff]
    intro m hm
    rcases hnames m hm with hm | hm <;> simp [hm, hkey', hfield]

theorem StrategicMerge.elements_unchanged (h : StrategicMerge mergeKeys merge)
    {mergeKey name field : Text} (hne : mergeKey ≠ field) {path : List Text} {patch : List Json}
    (hpatch : ∀ p ∈ patch, ∃ members, p = obj members ∧ Plain members ∧
      members.lookup mergeKey = some (str name) ∧ ∀ m ∈ members, m.1 = mergeKey ∨ m.1 = field)
    {elements : List Json} (hkeyed : ∀ element ∈ elements, Keyed mergeKey element)
    (hmem : ∃ element ∈ elements, element.get mergeKey = some (str name)) :
    List.Forall₂ (SameButField mergeKey name field)
      (patch.foldl (fun result p ↦ mergeElement mergeKey p (merge path p) result) elements)
      elements := by
  induction patch generalizing elements with
  | nil => exact List.forall₂_same.mpr fun _ _ ↦ .inl rfl
  | cons p patch ih =>
    rw [List.forall_mem_cons] at hpatch
    obtain ⟨members, rfl, hplain, hname, hnames⟩ := hpatch.1
    have hmerge : ∀ element ∈ elements, element.get mergeKey = some (str name) →
        Keyed mergeKey (merge path (obj members) element) ∧
          SameButField mergeKey name field (merge path (obj members) element) element := by
      intro element helement helementName
      obtain ⟨others, _, rfl, _⟩ := hkeyed element helement
      exact h.sameButField hplain hname hnames helementName
    obtain ⟨hsame, hkeyed'⟩ := mergeElement_forall₂ (obj members) hname hmerge hkeyed hmem
    exact SameButField.forall₂_trans
      (ih hpatch.2 hkeyed' (exists_named_of_forall₂ hne hsame hmem)) hsame

/-- A patch that names nothing outside the scope changes nothing outside it. -/
theorem StrategicMerge.unchanged (h : StrategicMerge mergeKeys merge) {scope : Scope}
    {path : List Text} (hfollows : scope.Follows mergeKeys path) {patch value : Json}
    (hdistinct : Distinct patch) (hnames : scope.Names patch) (hfits : scope.Fits value) :
    scope.Unchanged (merge path patch value) value := by
  induction scope generalizing path patch value with
  | field mergeKey name fieldName =>
    obtain ⟨hkey, hne, hkeyDirective, hfieldDirective⟩ := hfollows
    obtain ⟨ps, rfl, hps⟩ := hnames
    obtain ⟨elements, rfl, hkeyed, hmem⟩ := hfits
    have hpatch : ∀ p ∈ ps, ∃ members, p = obj members ∧ Plain members ∧
        members.lookup mergeKey = some (str name) ∧
        ∀ m ∈ members, m.1 = mergeKey ∨ m.1 = fieldName := by
      intro p hp
      obtain ⟨members, rfl, hname, hmembers⟩ := hps p hp
      cases hdistinct with
      | arr helements =>
        cases helements _ hp with
        | obj hnodup _ =>
          refine ⟨members, rfl, ⟨hnodup, fun m hm ↦ ?_⟩, hname, hmembers⟩
          rcases hmembers m hm with hm | hm <;> rwa [hm]
    rw [h.elements path mergeKey ps elements hkey]
    · exact h.elements_unchanged hne hpatch hkeyed hmem
    · intro p hp
      obtain ⟨members, rfl, hplain, hname, _⟩ := hpatch p hp
      refine ⟨⟨members, name, rfl, hname⟩, fun others hothers ↦ ?_⟩
      cases hothers
      exact hplain
  | member key inner ih =>
    obtain ⟨hdirective, hfollows⟩ := hfollows
    obtain ⟨ps, rfl, hps⟩ := hnames
    obtain ⟨members, next, rfl, hnext, hfits⟩ := hfits
    cases hdistinct with
    | obj hnodup hdistinct =>
      have hplain : Plain ps := ⟨hnodup, fun m hm ↦ (hps m hm).1 ▸ hdirective⟩
      obtain ⟨members', hmerge, hkept, hmerged⟩ := h.members path ps members hplain
      rw [hmerge]
      constructor
      · intro key' hkey'
        apply hkept
        rw [List.lookup_eq_none_iff]
        intro m hm
        simpa [(hps m hm).1] using hkey'
      · cases hlookup : ps.lookup key with
        | none =>
          have hsame : (obj members').index key = (obj members).index key := by
            rw [index, index]
            exact congrArg (Option.getD · null) (hkept key hlookup)
          rw [hsame]
          exact inner.unchanged_self _
        | some p =>
          have hp := mem_of_lookup hlookup
          have hne := (hps _ hp).2.ne_null
          have hindex : (obj members').index key = merge (path ++ [key]) p next := by
            rw [index]
            exact congrArg (Option.getD · null) (hmerged key p next hlookup hne hnext)
          have hindex' : (obj members).index key = next := congrArg (Option.getD · null) hnext
          rw [hindex, hindex']
          exact ih hfollows (hdistinct _ hp) (hps _ hp).2 hfits

/-! ## What changes -/

theorem Scope.exists_fits (scope : Scope) : ∃ value, scope.Fits value := by
  induction scope with
  | field mergeKey name fieldName =>
    refine ⟨arr [obj [(mergeKey, str name)]], _, rfl, ?_, _, List.mem_singleton_self _, ?_⟩
    · intro element helement
      exact ⟨_, name, List.mem_singleton.mp helement, List.lookup_cons_self⟩
    · exact List.lookup_cons_self
  | member key inner ih =>
    obtain ⟨next, hnext⟩ := ih
    exact ⟨obj [(key, next)], _, next, rfl, List.lookup_cons_self, hnext⟩

theorem applyPatch_of_not_obj {path : List Text} {patch : Json} (h : ∀ members, patch ≠ obj members)
    (members : List (Text × Json)) : applyPatch mergeKeys path patch (obj members) = patch := by
  cases patch with
  | obj ps => exact absurd rfl (h ps)
  | _ => simp [applyPatch]

theorem applyPatch_of_not_arr {path : List Text} {patch : Json} (h : ∀ elements, patch ≠ arr elements)
    (elements : List Json) : applyPatch mergeKeys path patch (arr elements) = patch := by
  cases patch with
  | arr ps => exact absurd rfl (h ps)
  | _ => simp [applyPatch]

theorem applyPatch_bool (path : List Text) (patch : Json) (value : Bool) :
    applyPatch mergeKeys path patch (bool value) = patch := by
  cases patch <;> simp [applyPatch]

theorem applyMembers_cons_of_notMem {path : List Text} {patch : List (Text × Json)} {key : Text}
    (h : key ∉ patch.map Prod.fst) (value : Json) (members : List (Text × Json)) :
    applyMembers mergeKeys path patch ((key, value) :: members) =
      (key, value) :: applyMembers mergeKeys path patch members := by
  induction patch generalizing members with
  | nil => rfl
  | cons first patch ih =>
    obtain ⟨name, p⟩ := first
    rw [List.map_cons, List.mem_cons, not_or] at h
    have hbeq : (name == key) = false := by simpa using Ne.symm h.1
    by_cases hnull : p = null
    · simp only [applyMembers, if_pos hnull, removeMember_cons_of_ne h.1, ih h.2]
    · simp only [applyMembers, if_neg hnull, List.lookup_cons, hbeq]
      cases members.lookup name with
      | none => simp only [setMember, if_neg h.1, ih h.2]
      | some old => simp only [setMember, if_neg h.1, ih h.2]

/-- A patch that names a member leaves nothing of the scalar that stood there. -/
theorem applyMembers_eq_of_mem (mergeKeys : List Text → Option Text) (path : List Text)
    {patch : List (Text × Json)} {key : Text} (h : key ∈ patch.map Prod.fst) (members : List (Text × Json)) :
    applyMembers mergeKeys path patch ((key, bool true) :: members) =
      applyMembers mergeKeys path patch ((key, bool false) :: members) := by
  induction patch generalizing members with
  | nil => cases h
  | cons first patch ih =>
    obtain ⟨name, p⟩ := first
    by_cases hname : name = key
    · subst hname
      by_cases hnull : p = null
      · simp [applyMembers, hnull, removeMember]
      · simp [applyMembers, hnull, setMember, applyPatch_bool]
    · have hbeq : (name == key) = false := by simpa using hname
      have hrest : key ∈ patch.map Prod.fst := by
        rw [List.map_cons, List.mem_cons] at h
        exact h.resolve_left (Ne.symm hname)
      by_cases hnull : p = null
      · simp only [applyMembers, if_pos hnull, removeMember_cons_of_ne (Ne.symm hname), ih hrest]
      · simp only [applyMembers, if_neg hnull, List.lookup_cons, hbeq]
        cases members.lookup name <;> simp only [setMember, if_neg (Ne.symm hname), ih hrest]

/-- An element of a patch list that is an object with this name. -/
def Named (mergeKey name : Text) (patch : Json) : Prop :=
  ∃ members, patch = obj members ∧ (members.map Prod.fst).Nodup ∧
    members.lookup mergeKey = some (str name)

theorem named_of_get {mergeKey name : Text} {patch : Json} (hdistinct : Distinct patch)
    (h : patch.get mergeKey = some (str name)) : Named mergeKey name patch := by
  cases hdistinct with
  | @obj members hnodup _ => exact ⟨members, rfl, hnodup, h⟩
  | _ => cases h

theorem mergeElement_named {mergeKey name : Text} {path : List Text} {patch members : List (Text × Json)}
    (hpatch : patch.lookup mergeKey = some (str name))
    (hmembers : members.lookup mergeKey = some (str name)) :
    mergeElement mergeKey (obj patch) (applyPatch mergeKeys path (obj patch)) [obj members] =
      [obj (applyMembers mergeKeys path patch members)] := by
  have hget : (obj members).get mergeKey = (obj patch).get mergeKey := hmembers.trans hpatch.symm
  rw [mergeElement, if_pos hget, applyPatch]

/-- The same for a list of patches of one element. -/
theorem applyElements_eq_of_mem (mergeKeys : List Text → Option Text) (path : List Text)
    {mergeKey name : Text} {patch : List Json}
    (hnamed : ∀ p ∈ patch, Named mergeKey name p) {key : Text} (hne : key ≠ mergeKey)
    (h : ∃ members, obj members ∈ patch ∧ key ∈ members.map Prod.fst)
    {rest : List (Text × Json)} (hrest : rest.lookup mergeKey = some (str name)) :
    applyElements mergeKeys path mergeKey patch [obj ((key, bool true) :: rest)] =
      applyElements mergeKeys path mergeKey patch [obj ((key, bool false) :: rest)] := by
  induction patch generalizing rest with
  | nil =>
    obtain ⟨_, hnil, _⟩ := h
    cases hnil
  | cons p patch ih =>
    rw [List.forall_mem_cons] at hnamed
    obtain ⟨members, rfl, hnodup, hname⟩ := hnamed.1
    have hbeq : (mergeKey == key) = false := by simpa using Ne.symm hne
    have hlookup : ∀ value, ((key, bool value) :: rest).lookup mergeKey = some (str name) := by
      intro value
      rw [List.lookup_cons, hbeq]
      exact hrest
    rw [applyElements, applyElements, mergeElement_named hname (hlookup true),
      mergeElement_named hname (hlookup false)]
    by_cases hmem : key ∈ members.map Prod.fst
    · rw [applyMembers_eq_of_mem mergeKeys path hmem]
    · rw [applyMembers_cons_of_notMem hmem, applyMembers_cons_of_notMem hmem]
      apply ih hnamed.2
      · obtain ⟨others, hothers, hkey⟩ := h
        rcases List.mem_cons.mp hothers with heq | hothers
        · cases heq
          exact absurd hkey hmem
        · exact ⟨others, hothers, hkey⟩
      · rw [lookup_applyMembers hnodup hname (by simp) hrest, applyPatch]
        all_goals simp

theorem length_mergeElement (mergeKey : Text) (patch : Json) (merge : Json → Json)
    (elements : List Json) : elements.length ≤ (mergeElement mergeKey patch merge elements).length := by
  induction elements with
  | nil => exact Nat.zero_le _
  | cons element elements ih =>
    rw [mergeElement]
    split
    · exact le_rfl
    · exact Nat.succ_le_succ ih

theorem length_applyElements (path : List Text) (mergeKey : Text) (patch elements : List Json) :
    elements.length ≤ (applyElements mergeKeys path mergeKey patch elements).length := by
  induction patch generalizing elements with
  | nil => exact le_rfl
  | cons p patch ih =>
    rw [applyElements]
    exact (length_mergeElement mergeKey p _ elements).trans (ih _)

/-- A patch of an element that the list does not have makes the list longer. -/
theorem one_lt_length_applyElements (mergeKeys : List Text → Option Text) (path : List Text)
    {mergeKey name : Text} {patch : List Json}
    (hdistinct : ∀ p ∈ patch, Distinct p) (h : ∃ p ∈ patch, p.get mergeKey ≠ some (str name))
    {members : List (Text × Json)} (hmembers : members.lookup mergeKey = some (str name)) :
    1 < (applyElements mergeKeys path mergeKey patch [obj members]).length := by
  induction patch generalizing members with
  | nil =>
    obtain ⟨_, hnil, _⟩ := h
    cases hnil
  | cons p patch ih =>
    rw [List.forall_mem_cons] at hdistinct
    rw [applyElements]
    by_cases hname : p.get mergeKey = some (str name)
    · obtain ⟨ps, rfl, hnodup, hps⟩ := named_of_get hdistinct.1 hname
      rw [mergeElement_named hps hmembers]
      apply ih hdistinct.2
      · obtain ⟨q, hq, hqname⟩ := h
        rcases List.mem_cons.mp hq with rfl | hq
        · exact absurd hname hqname
        · exact ⟨q, hq, hqname⟩
      · rw [lookup_applyMembers hnodup hps (by simp) hmembers, applyPatch]
        all_goals simp
    · have hget : (obj members).get mergeKey ≠ p.get mergeKey := by
        intro heq
        exact hname (heq.symm.trans hmembers)
      rw [mergeElement, if_neg hget]
      exact length_applyElements path mergeKey patch [obj members, p]

theorem eq_singleton_of_nodup {members : List (Text × Json)} {key : Text}
    (hnodup : (members.map Prod.fst).Nodup) (hkey : ∀ m ∈ members, m.1 = key) {m : Text × Json}
    (hm : m ∈ members) : members = [m] := by
  cases members with
  | nil => cases hm
  | cons first members =>
    cases members with
    | nil => rw [List.mem_singleton.mp hm]
    | cons second members =>
      have hfirst := hkey first List.mem_cons_self
      have hsecond := hkey second (List.mem_cons_of_mem _ List.mem_cons_self)
      simp [hfirst, hsecond] at hnodup

theorem exists_member_of_not_names {mergeKey name fieldName : Text} {ps : List Json}
    (hnamed : ∀ p ∈ ps, Named mergeKey name p)
    (h : ¬ (Scope.field mergeKey name fieldName).Names (arr ps)) :
    ∃ members, obj members ∈ ps ∧ ∃ m ∈ members, m.1 ≠ mergeKey ∧ m.1 ≠ fieldName := by
  by_contra hall
  push Not at hall
  apply h
  refine ⟨ps, rfl, fun p hp ↦ ?_⟩
  obtain ⟨members, rfl, _, hname⟩ := hnamed p hp
  refine ⟨members, rfl, hname, fun m hm ↦ ?_⟩
  by_cases hkey : m.1 = mergeKey
  · exact .inl hkey
  · exact .inr (hall members hp m hm hkey)

/-- No list is both of two lists whose elements differ outside the field. -/
theorem not_unchanged_both {mergeKey name fieldName key : Text} (hne : key ≠ fieldName)
    {value : Json} {rest : List (Text × Json)}
    (hfalse : (Scope.field mergeKey name fieldName).Unchanged value
      (arr [obj ((key, bool false) :: rest)])) :
    ¬ (Scope.field mergeKey name fieldName).Unchanged value
      (arr [obj ((key, bool true) :: rest)]) := by
  intro htrue
  rw [Scope.Unchanged] at htrue hfalse
  generalize value.asArr.getD [] = elements at htrue hfalse
  cases htrue with
  | cons hsame _ =>
    cases hfalse with
    | cons hsame' _ =>
      have hget := (hsame.get_eq hne).symm.trans (hsame'.get_eq hne)
      simp [Json.get] at hget

/-- For a list whose patch names something else than the field of one element. -/
theorem exists_changed_field {mergeKey name fieldName : Text} {path : List Text}
    (hfollows : (Scope.field mergeKey name fieldName).Follows mergeKeys path) {patch : Json}
    (hdistinct : Distinct patch) (hnames : ¬ (Scope.field mergeKey name fieldName).Names patch) :
    ∃ value, (Scope.field mergeKey name fieldName).Fits value ∧
      ¬ (Scope.field mergeKey name fieldName).Unchanged
        (applyPatch mergeKeys path patch value) value := by
  obtain ⟨hkey, -, -, -⟩ := hfollows
  have hfits : ∀ members : List (Text × Json), members.lookup mergeKey = some (str name) →
      (Scope.field mergeKey name fieldName).Fits (arr [obj members]) := by
    intro members hmembers
    refine ⟨_, rfl, ?_, obj members, List.mem_singleton_self _, hmembers⟩
    intro element helement
    exact ⟨members, name, List.mem_singleton.mp helement, hmembers⟩
  have hsingle : [(mergeKey, str name)].lookup mergeKey = some (str name) := List.lookup_cons_self
  by_cases harr : ∃ ps, patch = arr ps
  · obtain ⟨ps, rfl⟩ := harr
    have happly : ∀ members, applyPatch mergeKeys path (arr ps) (arr [obj members]) =
        arr (applyElements mergeKeys path mergeKey ps [obj members]) := by
      intro members
      rw [applyPatch, hkey]
    cases hdistinct with
    | arr helements =>
      by_cases hkeys : ∀ p ∈ ps, p.get mergeKey = some (str name)
      · have hnamed : ∀ p ∈ ps, Named mergeKey name p := fun p hp ↦
          named_of_get (helements p hp) (hkeys p hp)
        obtain ⟨members, hmem, m, hm, hkeyName, hfieldName⟩ := exists_member_of_not_names hnamed hnames
        -- Two lists that differ in this member become one.
        have hsame := applyElements_eq_of_mem mergeKeys path hnamed
          hkeyName ⟨members, hmem, List.mem_map_of_mem hm⟩ hsingle
        by_contra hall
        push Not at hall
        have hvalue : ∀ value,
            ((m.1, bool value) :: [(mergeKey, str name)]).lookup mergeKey = some (str name) := by
          intro value
          have hbeq : (mergeKey == m.1) = false := by simpa using Ne.symm hkeyName
          rw [List.lookup_cons, hbeq]
          exact hsingle
        have htrue := hall _ (hfits _ (hvalue true))
        have hfalse := hall _ (hfits _ (hvalue false))
        rw [happly] at htrue hfalse
        rw [hsame] at htrue
        exact absurd htrue (not_unchanged_both hfieldName hfalse)
      · push Not at hkeys
        refine ⟨arr [obj [(mergeKey, str name)]], hfits _ hsingle, ?_⟩
        intro hunchanged
        rw [happly] at hunchanged
        have hlength := hunchanged.length_eq
        have hlong := one_lt_length_applyElements mergeKeys path helements hkeys hsingle
        simp [asArr] at hlength
        omega
  · refine ⟨arr [obj [(mergeKey, str name)]], hfits _ hsingle, ?_⟩
    intro hunchanged
    rw [applyPatch_of_not_arr fun elements heq ↦ harr ⟨elements, heq⟩] at hunchanged
    have hlength := hunchanged.length_eq
    cases patch with
    | arr ps => exact harr ⟨ps, rfl⟩
    | _ => simp [asArr] at hlength

theorem index_applyPatch (path : List Text) (key : Text) (p value : Json) :
    (applyPatch mergeKeys path (obj [(key, p)]) (obj [(key, value)])).index key =
      applyPatch mergeKeys (path ++ [key]) p value := by
  by_cases hnull : p = null
  · subst hnull
    simp [applyPatch, applyMembers, removeMember, index, Json.get]
  · simp [applyPatch, applyMembers, hnull, setMember, index, Json.get]

/-- Some merge in line with the rules changes something outside the scope, for each patch that names
something outside it. -/
theorem exists_changed {scope : Scope} {path : List Text} (hfollows : scope.Follows mergeKeys path)
    {patch : Json} (hdistinct : Distinct patch) (hnames : ¬ scope.Names patch) :
    ∃ value, scope.Fits value ∧ ¬ scope.Unchanged (applyPatch mergeKeys path patch value) value := by
  induction scope generalizing path patch with
  | field mergeKey name fieldName => exact exists_changed_field hfollows hdistinct hnames
  | member key inner ih =>
    obtain ⟨next, hnext⟩ := inner.exists_fits
    by_cases hobj : ∃ ps, patch = obj ps
    · obtain ⟨ps, rfl⟩ := hobj
      cases hdistinct with
      | obj hnodup hvalues =>
        by_cases hkeys : ∀ m ∈ ps, m.1 = key
        · obtain ⟨p, hp, hinner⟩ : ∃ p, (key, p) ∈ ps ∧ ¬ inner.Names p := by
            by_contra hall
            push Not at hall
            refine hnames ⟨ps, rfl, fun m hm ↦ ⟨hkeys m hm, hall m.2 ?_⟩⟩
            rw [← hkeys m hm]
            exact hm
          obtain rfl := eq_singleton_of_nodup hnodup hkeys hp
          obtain ⟨value, hfits, hchanged⟩ := ih hfollows.2 (hvalues _ hp) hinner
          refine ⟨obj [(key, value)], ⟨_, value, rfl, List.lookup_cons_self, hfits⟩, ?_⟩
          intro hunchanged
          have hvalue : (obj [(key, value)]).index key = value := by simp [index, Json.get]
          have hrest := hunchanged.2
          rw [index_applyPatch, hvalue] at hrest
          exact hchanged hrest
        · push Not at hkeys
          obtain ⟨m, hm, hne⟩ := hkeys
          -- Two objects that differ in this member become one.
          have hsame := applyMembers_eq_of_mem mergeKeys path
            (List.mem_map_of_mem hm) [(key, next)]
          have hbeq : (key == m.1) = false := by simpa using Ne.symm hne
          have hfits : ∀ value, (Scope.member key inner).Fits
              (obj [(m.1, bool value), (key, next)]) := by
            intro value
            refine ⟨_, next, rfl, ?_, hnext⟩
            rw [List.lookup_cons, hbeq, List.lookup_cons_self]
          by_contra hall
          push Not at hall
          have htrue := (hall _ (hfits true)).1 m.1 hne
          have hfalse := (hall _ (hfits false)).1 m.1 hne
          rw [applyPatch, hsame] at htrue
          rw [applyPatch, htrue] at hfalse
          simp [Json.get] at hfalse
    · have hother : 'x' :: key ≠ key := List.cons_ne_self 'x' key
      refine ⟨obj [('x' :: key, bool true), (key, next)], ⟨_, next, rfl, ?_, hnext⟩, ?_⟩
      · have hbeq : (key == 'x' :: key) = false := by simp
        rw [List.lookup_cons, hbeq, List.lookup_cons_self]
      · intro hunchanged
        have hget := hunchanged.1 _ hother
        rw [applyPatch_of_not_obj fun members heq ↦ hobj ⟨members, heq⟩] at hget
        cases patch with
        | obj ps => exact hobj ⟨ps, rfl⟩
        | _ => simp [Json.get] at hget

end EbpfPlayground.Merge
