import EbpfPlayground.Foundation.Run
import EbpfPlayground.Kube.Watcher
import Mathlib.Data.List.Count

/-!
# The finalizer helper of kube-runtime

`finalizer` has its entry in the finalizers of an object before anything is applied for the object, and
takes it out after the cleanup.  The version of the object that it goes by may be an old one, and others
change the object at any time, so its patches test what they build on.  One object is followed from its
creation until the server has deleted it.
-/

namespace EbpfPlayground.Kube.Finalizer

/-- What `finalizer` reads of an object. -/
structure Object where
  name : Option Text
  finalizers : List Text
  /-- Whether there is a deletion timestamp. -/
  isDeleting : Bool

structure FinalizerState where
  finalizerIndex : Option ℕ
  isDeleting : Bool

/-- `FinalizerState::for_object`. -/
def FinalizerState.forObject (obj : Object) (finalizerName : Text) : FinalizerState where
  finalizerIndex := obj.finalizers.findIdx? fun fin ↦ decide (fin = finalizerName)
  isDeleting := obj.isDeleting

structure Action where
  requeueAfter : Option ℕ

/-- `Action::await_change`. -/
def Action.awaitChange : Action := ⟨none⟩

inductive Error (E : Type*) where
  | applyFailed (err : E)
  | cleanupFailed (err : E)
  | addFinalizer (err : ClientError)
  | removeFinalizer (err : ClientError)
  | unnamedObject

/-! ## JSON patches -/

/-- The paths that the patches use: `/metadata/finalizers`, an index behind it, or `-`. -/
inductive Path where
  | finalizers
  | finalizer (index : ℕ)
  | finalizersEnd

inductive Value where
  | null
  | name (name : Text)
  | names (names : List Text)
  deriving DecidableEq

inductive PatchOperation where
  | test (path : Path) (value : Value)
  | add (path : Path) (value : Value)
  | remove (path : Path)

/-- What stands at a path; without finalizers the server leaves the field out. -/
def Path.value (finalizers : List Text) : Path → Option Value
  | .finalizers => some (if finalizers = [] then .null else .names finalizers)
  | .finalizer index => finalizers[index]?.map .name
  | .finalizersEnd => none

/-- What the server makes of the finalizers, `none` where it refuses the operation. -/
def PatchOperation.apply (finalizers : List Text) : PatchOperation → Option (List Text)
  | .test path value => if path.value finalizers = some value then some finalizers else none
  | .add .finalizers (.names names) => some names
  | .add .finalizersEnd (.name name) =>
    if finalizers = [] then none else some (finalizers ++ [name])
  | .add _ _ => none
  | .remove (.finalizer index) =>
    if index < finalizers.length then some (finalizers.eraseIdx index) else none
  | .remove _ => none

/-- A patch is applied as a whole or not at all. -/
def applyPatch (finalizers : List Text) (patch : List PatchOperation) : Option (List Text) :=
  patch.foldlM PatchOperation.apply finalizers

/-! ## The calls of `finalizer` -/

/-- A call of `finalizer`, at the future that it awaits. -/
inductive Call (E : Type*) where
  /-- The reconciler, with `Event::Apply`. -/
  | applying (obj : Object)
  /-- The reconciler, with `Event::Cleanup`. -/
  | cleaningUp (obj : Object) (name : Text) (finalizerIndex : ℕ)
  /-- The patch that removes the finalizer. -/
  | removing (name : Text) (finalizerIndex : ℕ) (action : Action)
  /-- The patch that adds the finalizer. -/
  | adding (name : Text) (finalizers : List Text)
  | returned (result : Except (Error E) Action)

namespace Call

variable {E : Type*}

/-- `finalizer`, up to its first future. -/
def start (finalizerName : Text) (obj : Object) : Call E :=
  match FinalizerState.forObject obj finalizerName with
  | ⟨some _, false⟩ => .applying obj
  | ⟨some finalizerIndex, true⟩ =>
    match obj.name with
    | some name => .cleaningUp obj name finalizerIndex
    | none => .returned (.error .unnamedObject)
  | ⟨none, false⟩ =>
    match obj.name with
    | some name => .adding name obj.finalizers
    | none => .returned (.error .unnamedObject)
  | ⟨none, true⟩ => .returned (.ok .awaitChange)

/-- The patch that a call sends. -/
def patch (finalizerName : Text) : Call E → Option (List PatchOperation)
  | .removing _ finalizerIndex _ =>
    some [.test (.finalizer finalizerIndex) (.name finalizerName), .remove (.finalizer finalizerIndex)]
  | .adding _ finalizers =>
    if finalizers = [] then some [.test .finalizers .null, .add .finalizers (.names [finalizerName])]
    else some [.test .finalizers (.names finalizers), .add .finalizersEnd (.name finalizerName)]
  | _ => none

/-- The reconciler has returned. -/
def reconciled (result : Except E Action) : Call E → Call E
  | .applying _ => .returned (result.mapError .applyFailed)
  | .cleaningUp _ name finalizerIndex =>
    match result with
    | .ok action => .removing name finalizerIndex action
    | .error err => .returned (.error (.cleanupFailed err))
  | call => call

/-- The request with the patch has returned. -/
def patched (result : Except ClientError Unit) : Call E → Call E
  | .removing _ _ action =>
    .returned (match result with
      | .ok _ => .ok action
      | .error err => .error (.removeFinalizer err))
  | .adding _ _ =>
    .returned (match result with
      | .ok _ => .ok .awaitChange
      | .error err => .error (.addFinalizer err))
  | call => call

def isApplying : Call E → Bool
  | .applying _ => true
  | _ => false

def isCleaningUp : Call E → Bool
  | .cleaningUp .. => true
  | _ => false

end Call

/-! ## The object and all that happens to it -/

/-- The object at the server, and the calls of `finalizer` with versions of it. -/
structure System (E : Type*) where
  object : Object
  /-- The server has deleted the object. -/
  gone : Bool
  /-- The versions of the object that anyone may still go by. -/
  versions : List Object
  calls : List (Call E)
  /-- `Event::Apply` has been started. -/
  applied : Bool
  /-- `Event::Cleanup` has succeeded, with the object still there. -/
  cleanedUp : Bool

variable {E : Type*}

namespace System

/-- The object is created. -/
def created (object : Object) : System E where
  object := object
  gone := false
  versions := [object]
  calls := []
  applied := false
  cleanedUp := false

/-- The server stores another version of the object. -/
def store (s : System E) (object : Object) : System E :=
  { s with object := object, versions := object :: s.versions }

inductive Step (finalizerName : Text) (s : System E) : System E → Prop
  /-- `finalizer` is called with some version of the object. -/
  | call (seen : Object) (hseen : seen ∈ s.versions) :
      Step finalizerName s { s with
        calls := .start finalizerName seen :: s.calls
        applied := s.applied || (Call.start finalizerName seen : Call E).isApplying }
  | reconciled (first rest : List (Call E)) (call : Call E) (result : Except E Action)
      (hcalls : s.calls = first ++ call :: rest) :
      Step finalizerName s { s with
        calls := first ++ call.reconciled result :: rest
        cleanedUp := s.cleanedUp || (call.isCleaningUp && result.isOk && !s.gone) }
  /-- The server applies a patch; whether the answer gets through is another matter. -/
  | patched (first rest : List (Call E)) (call : Call E) (patch : List PatchOperation)
      (finalizers : List Text) (result : Except ClientError Unit)
      (hcalls : s.calls = first ++ call :: rest) (hgone : s.gone = false)
      (hpatch : call.patch finalizerName = some patch)
      (happly : applyPatch s.object.finalizers patch = some finalizers) :
      Step finalizerName s { s.store { s.object with finalizers := finalizers } with
        calls := first ++ call.patched result :: rest }
  /-- A patch is refused, or does not get to the server. -/
  | refused (first rest : List (Call E)) (call : Call E) (err : ClientError)
      (hcalls : s.calls = first ++ call :: rest) :
      Step finalizerName s { s with calls := first ++ call.patched (.error err) :: rest }
  /-- A call is cancelled. -/
  | cancelled (first rest : List (Call E)) (call : Call E) (hcalls : s.calls = first ++ call :: rest) :
      Step finalizerName s { s with calls := first ++ rest }
  /-- Someone else changes the object or requests its deletion; the finalizer is no one else's. -/
  | update (object : Object) (hgone : s.gone = false)
      (hcount : object.finalizers.count finalizerName = s.object.finalizers.count finalizerName)
      (hdeleting : s.object.isDeleting = true → object.isDeleting = true) :
      Step finalizerName s (s.store object)
  /-- The server deletes an object when its last finalizer is gone. -/
  | delete (hdeleting : s.object.isDeleting = true) (hfinalizers : s.object.finalizers = []) :
      Step finalizerName s { s with gone := true }

/-- The states that an object comes to. -/
def Reaches (finalizerName : Text) (s : System E) : Prop :=
  ∃ object, object.finalizers.count finalizerName ≤ 1 ∧
    Relation.ReflTransGen (Step finalizerName) (created object) s

/-! ## The invariant -/

structure Inv (finalizerName : Text) (s : System E) : Prop where
  object : s.object ∈ s.versions
  once : s.object.finalizers.count finalizerName ≤ 1
  gone : s.gone = true → s.object.finalizers = []
  /-- The finalizer does not go away before the cleanup. -/
  guarded : ∀ version ∈ s.versions, finalizerName ∈ version.finalizers →
    finalizerName ∈ s.object.finalizers ∨ s.cleanedUp = true
  applied : s.applied = true → ∃ version ∈ s.versions, finalizerName ∈ version.finalizers
  removing : ∀ name finalizerIndex action, .removing name finalizerIndex action ∈ s.calls →
    s.cleanedUp = true ∨ s.gone = true
  adding : ∀ name finalizers, .adding name finalizers ∈ s.calls → finalizerName ∉ finalizers

end System

variable {finalizerName : Text}

/-! ## What the patches do -/

theorem PatchOperation.apply_test {finalizers tested : List Text} {path : Path} {value : Value}
    (h : (PatchOperation.test path value).apply finalizers = some tested) :
    path.value finalizers = some value ∧ tested = finalizers := by
  by_cases hvalue : path.value finalizers = some value
  · rw [PatchOperation.apply, if_pos hvalue] at h
    exact ⟨hvalue, (Option.some.inj h).symm⟩
  · rw [PatchOperation.apply, if_neg hvalue] at h
    cases h

/-- A patch that tests and then changes something. -/
theorem applyPatch_test {finalizers finalizers' : List Text} {path : Path} {value : Value}
    {operation : PatchOperation}
    (h : applyPatch finalizers [.test path value, operation] = some finalizers') :
    path.value finalizers = some value ∧ operation.apply finalizers = some finalizers' := by
  obtain ⟨tested, htest, hrest⟩ := Option.bind_eq_some_iff.mp h
  obtain ⟨changed, hchange, hdone⟩ := Option.bind_eq_some_iff.mp hrest
  obtain ⟨hvalue, rfl⟩ := PatchOperation.apply_test htest
  obtain rfl := Option.some.inj hdone
  exact ⟨hvalue, hchange⟩

/-- The removal takes out an entry of its own, whatever became of the indices. -/
theorem applyPatch_removing {finalizers finalizers' : List Text} {index : ℕ}
    (h : applyPatch finalizers [.test (.finalizer index) (.name finalizerName),
      .remove (.finalizer index)] = some finalizers') :
    ∃ before after, finalizers = before ++ finalizerName :: after ∧ finalizers' = before ++ after := by
  obtain ⟨hvalue, hremove⟩ := applyPatch_test h
  obtain ⟨name, hname, heq⟩ := Option.map_eq_some_iff.mp hvalue
  obtain rfl := Value.name.inj heq
  obtain ⟨hlt, hget⟩ := List.getElem?_eq_some_iff.mp hname
  rw [PatchOperation.apply, if_pos hlt] at hremove
  obtain rfl := Option.some.inj hremove
  refine ⟨finalizers.take index, finalizers.drop (index + 1), ?_, List.eraseIdx_eq_take_drop_succ ..⟩
  rw [← hget, ← List.drop_eq_getElem_cons hlt, List.take_append_drop]

theorem Path.eq_of_value {finalizers : List Text} {value : Value}
    (h : Path.finalizers.value finalizers = some value) :
    value = .null ∧ finalizers = [] ∨ value = .names finalizers ∧ finalizers ≠ [] := by
  by_cases hempty : finalizers = []
  · rw [Path.value, if_pos hempty] at h
    exact .inl ⟨(Option.some.inj h).symm, hempty⟩
  · rw [Path.value, if_neg hempty] at h
    exact .inr ⟨(Option.some.inj h).symm, hempty⟩

/-- The addition puts the entry behind the finalizers that the call has seen. -/
theorem applyPatch_adding {finalizers finalizers' seen : List Text} {name : Text}
    {patch : List PatchOperation}
    (hpatch : (Call.adding name seen : Call E).patch finalizerName = some patch)
    (h : applyPatch finalizers patch = some finalizers') :
    finalizers = seen ∧ finalizers' = seen ++ [finalizerName] := by
  by_cases hseen : seen = []
  · rw [Call.patch, if_pos hseen] at hpatch
    obtain rfl := Option.some.inj hpatch
    obtain ⟨hvalue, hadd⟩ := applyPatch_test h
    rcases Path.eq_of_value hvalue with ⟨-, hempty⟩ | ⟨heq, -⟩
    · exact ⟨hempty.trans hseen.symm, by rw [hseen]; exact (Option.some.inj hadd).symm⟩
    · cases heq
  · rw [Call.patch, if_neg hseen] at hpatch
    obtain rfl := Option.some.inj hpatch
    obtain ⟨hvalue, hadd⟩ := applyPatch_test h
    rcases Path.eq_of_value hvalue with ⟨heq, -⟩ | ⟨heq, hfinalizers⟩
    · cases heq
    · obtain rfl := Value.names.inj heq
      rw [PatchOperation.apply, if_neg hseen] at hadd
      exact ⟨rfl, (Option.some.inj hadd).symm⟩

/-- A patch that the server applies changes no other finalizer, and it was sent to add the finalizer where
there was none, or to remove it. -/
theorem Call.patch_applies {call : Call E} {patch : List PatchOperation} {finalizers finalizers' : List Text}
    (hpatch : call.patch finalizerName = some patch) (h : applyPatch finalizers patch = some finalizers') :
    (∃ name index action before after, call = .removing name index action ∧
        finalizers = before ++ finalizerName :: after ∧ finalizers' = before ++ after) ∨
      ∃ name, call = .adding name finalizers ∧ finalizers' = finalizers ++ [finalizerName] := by
  cases call with
  | removing name index action =>
    obtain rfl := Option.some.inj hpatch
    obtain ⟨before, after, hbefore, hafter⟩ := applyPatch_removing h
    exact .inl ⟨name, index, action, before, after, rfl, hbefore, hafter⟩
  | adding name seen =>
    obtain ⟨rfl, hafter⟩ := applyPatch_adding hpatch h
    exact .inr ⟨name, rfl, hafter⟩
  | applying | cleaningUp | returned => cases hpatch

theorem Call.patched_ne {call : Call E} {result : Except ClientError Unit} :
    (∀ name index action, call.patched result ≠ .removing name index action) ∧
      ∀ name finalizers, call.patched result ≠ .adding name finalizers := by
  cases call with
  | applying | cleaningUp | removing | adding | returned =>
    exact ⟨fun _ _ _ h ↦ (by cases h), fun _ _ h ↦ by cases h⟩

/-! ## What the calls do -/

/-- `Event::Apply` is for objects that have the finalizer; it is added to those that have not. -/
theorem Call.start_spec (finalizerName : Text) (obj : Object) :
    ((start finalizerName obj : Call E).isApplying = true → finalizerName ∈ obj.finalizers) ∧
      (∀ name index action, (start finalizerName obj : Call E) ≠ .removing name index action) ∧
      ∀ name finalizers, (start finalizerName obj : Call E) = .adding name finalizers →
        finalizerName ∉ finalizers := by
  simp only [start, FinalizerState.forObject]
  cases hindex : obj.finalizers.findIdx? fun fin ↦ decide (fin = finalizerName) with
  | some index =>
    have hmem : finalizerName ∈ obj.finalizers := by
      obtain ⟨hlt, heq, -⟩ := List.findIdx?_eq_some_iff_getElem.mp hindex
      rw [← of_decide_eq_true heq]
      exact List.getElem_mem hlt
    cases obj.isDeleting with
    | false => exact ⟨fun _ ↦ hmem, fun _ _ _ h ↦ (by cases h), fun _ _ h ↦ by cases h⟩
    | true =>
      cases obj.name with
      | none | some name => exact ⟨fun _ ↦ hmem, fun _ _ _ h ↦ (by cases h), fun _ _ h ↦ by cases h⟩
  | none =>
    have hnot : finalizerName ∉ obj.finalizers := fun hmem ↦ by
      simpa using List.findIdx?_eq_none_iff.mp hindex finalizerName hmem
    cases obj.isDeleting with
    | true => exact ⟨fun h ↦ (by cases h), fun _ _ _ h ↦ (by cases h), fun _ _ h ↦ by cases h⟩
    | false =>
      cases obj.name with
      | none => exact ⟨fun h ↦ (by cases h), fun _ _ _ h ↦ (by cases h), fun _ _ h ↦ by cases h⟩
      | some name =>
        refine ⟨fun h ↦ (by cases h), fun _ _ _ h ↦ (by cases h), fun _ finalizers h ↦ ?_⟩
        rwa [← (Call.adding.inj h).2]

/-- A call comes to the removal by a cleanup that succeeds. -/
theorem Call.of_reconciled_eq_removing {call : Call E} {result : Except E Action} {name : Text}
    {index : ℕ} {action : Action} (h : call.reconciled result = .removing name index action) :
    call = .removing name index action ∨ call.isCleaningUp = true ∧ result.isOk = true := by
  cases call with
  | cleaningUp obj name' index' =>
    cases result with
    | ok action' => exact .inr ⟨rfl, rfl⟩
    | error err => cases h
  | applying obj => cases h
  | removing | adding | returned => exact .inl h

theorem Call.of_reconciled_eq_adding {call : Call E} {result : Except E Action} {name : Text}
    {finalizers : List Text} (h : call.reconciled result = .adding name finalizers) :
    call = .adding name finalizers := by
  cases call with
  | cleaningUp obj name' index' => cases result <;> cases h
  | applying obj => cases h
  | removing | adding | returned => exact h

/-- One call has gone on; the others are what they were. -/
theorem mem_of_mem_replace {calls first rest : List (Call E)} {call call' other : Call E}
    (hcalls : calls = first ++ call :: rest) (hmem : other ∈ first ++ call' :: rest) :
    other = call' ∨ other ∈ calls := by
  rw [hcalls]
  rcases List.mem_append.mp hmem with hfirst | hmem
  · exact .inr (List.mem_append_left _ hfirst)
  rcases List.mem_cons.mp hmem with heq | hrest
  · exact .inl heq
  · exact .inr (List.mem_append_right _ (List.mem_cons_of_mem _ hrest))

namespace System

variable {s : System E}

theorem inv_created {object : Object} (honce : object.finalizers.count finalizerName ≤ 1) :
    (created object : System E).Inv finalizerName where
  object := List.mem_cons_self
  once := honce
  gone h := by cases h
  guarded version hversion hmem := by
    rw [List.mem_singleton.mp hversion] at hmem
    exact .inl hmem
  applied h := by cases h
  removing _ _ _ h := absurd h List.not_mem_nil
  adding _ _ h := absurd h List.not_mem_nil

theorem Inv.call (h : s.Inv finalizerName) {seen : Object} (hseen : seen ∈ s.versions) :
    ({ s with
      calls := .start finalizerName seen :: s.calls
      applied := s.applied || (Call.start finalizerName seen : Call E).isApplying } :
        System E).Inv finalizerName := by
  obtain ⟨happlying, hremoving, hadding⟩ := Call.start_spec (E := E) finalizerName seen
  refine ⟨h.object, h.once, h.gone, h.guarded, fun happlied ↦ ?_, fun name index action hmem ↦ ?_,
    fun name finalizers hmem ↦ ?_⟩
  · rcases Bool.or_eq_true_iff.mp happlied with hbefore | hnow
    · exact h.applied hbefore
    · exact ⟨seen, hseen, happlying hnow⟩
  · rcases List.mem_cons.mp hmem with heq | hold
    · exact absurd heq.symm (hremoving name index action)
    · exact h.removing name index action hold
  · rcases List.mem_cons.mp hmem with heq | hold
    · exact hadding name finalizers heq.symm
    · exact h.adding name finalizers hold

theorem Inv.reconciled (h : s.Inv finalizerName) {first rest : List (Call E)} {call : Call E}
    (result : Except E Action) (hcalls : s.calls = first ++ call :: rest) :
    ({ s with
      calls := first ++ call.reconciled result :: rest
      cleanedUp := s.cleanedUp || (call.isCleaningUp && result.isOk && !s.gone) } :
        System E).Inv finalizerName := by
  have hcall : call ∈ s.calls := hcalls ▸ List.mem_append_right _ List.mem_cons_self
  have hkept : s.cleanedUp = true →
      (s.cleanedUp || (call.isCleaningUp && result.isOk && !s.gone)) = true := fun hcleaned ↦ by
    rw [hcleaned, Bool.true_or]
  refine ⟨h.object, h.once, h.gone, fun version hversion hmem ↦
    (h.guarded version hversion hmem).imp_right hkept, h.applied, fun name index action hmem ↦ ?_,
    fun name finalizers hmem ↦ ?_⟩
  · rcases mem_of_mem_replace hcalls hmem with heq | hold
    · rcases Call.of_reconciled_eq_removing heq.symm with rfl | ⟨hcleaning, hok⟩
      · exact (h.removing name index action hcall).imp_left hkept
      · cases hgone : s.gone with
        | true => exact .inr rfl
        | false => exact .inl (by simp [hcleaning, hok])
    · exact (h.removing name index action hold).imp_left hkept
  · rcases mem_of_mem_replace hcalls hmem with heq | hold
    · obtain rfl := Call.of_reconciled_eq_adding heq.symm
      exact h.adding name finalizers hcall
    · exact h.adding name finalizers hold

/-- A patch that the server applies adds the one finalizer there is of that name, or takes it out after
the cleanup. -/
theorem Inv.patched (h : s.Inv finalizerName) {first rest : List (Call E)} {call : Call E}
    {patch : List PatchOperation} {finalizers : List Text} (result : Except ClientError Unit)
    (hcalls : s.calls = first ++ call :: rest) (hgone : s.gone = false)
    (hpatch : call.patch finalizerName = some patch)
    (happly : applyPatch s.object.finalizers patch = some finalizers) :
    ({ s.store { s.object with finalizers := finalizers } with
      calls := first ++ call.patched result :: rest } : System E).Inv finalizerName := by
  have hcall : call ∈ s.calls := hcalls ▸ List.mem_append_right _ List.mem_cons_self
  have hchange : finalizers.count finalizerName ≤ 1 ∧
      (finalizerName ∈ finalizers ∨ s.cleanedUp = true) := by
    rcases Call.patch_applies hpatch happly with
      ⟨name, index, action, before, after, rfl, hbefore, rfl⟩ | ⟨name, rfl, rfl⟩
    · have honce := h.once
      rw [hbefore, List.count_append, List.count_cons_self] at honce
      refine ⟨by rw [List.count_append]; omega, .inr ?_⟩
      rcases h.removing name index action hcall with hcleaned | hdeleted
      · exact hcleaned
      · rw [hgone] at hdeleted
        cases hdeleted
    · have hnot := h.adding name s.object.finalizers hcall
      refine ⟨?_, .inl (by simp)⟩
      rw [List.count_append, List.count_eq_zero_of_not_mem hnot, List.count_singleton_self]
  refine ⟨List.mem_cons_self, hchange.1, fun hdeleted ↦ ?_, fun version hversion hmem ↦ ?_,
    fun happlied ↦ ?_, fun name index action hmem ↦ ?_, fun name seen hmem ↦ ?_⟩
  · exact absurd (hgone.symm.trans hdeleted) Bool.false_ne_true
  · exact hchange.2
  · obtain ⟨version, hversion, hmem⟩ := h.applied happlied
    exact ⟨version, List.mem_cons_of_mem _ hversion, hmem⟩
  · rcases mem_of_mem_replace hcalls hmem with heq | hold
    · exact absurd heq.symm (Call.patched_ne.1 name index action)
    · exact h.removing name index action hold
  · rcases mem_of_mem_replace hcalls hmem with heq | hold
    · exact absurd heq.symm (Call.patched_ne.2 name seen)
    · exact h.adding name seen hold

theorem Inv.update (h : s.Inv finalizerName) {object : Object} (hgone : s.gone = false)
    (hcount : object.finalizers.count finalizerName = s.object.finalizers.count finalizerName) :
    (s.store object).Inv finalizerName := by
  refine ⟨List.mem_cons_self, hcount.le.trans h.once, fun hdeleted ↦ ?_, fun version hversion hmem ↦ ?_,
    fun happlied ↦ ?_, h.removing, h.adding⟩
  · exact absurd (hgone.symm.trans hdeleted) Bool.false_ne_true
  · rcases List.mem_cons.mp hversion with rfl | hold
    · exact .inl hmem
    · refine (h.guarded version hold hmem).imp_left fun hpresent ↦ ?_
      rw [← List.count_pos_iff, ← hcount, List.count_pos_iff] at hpresent
      exact hpresent
  · obtain ⟨version, hversion, hmem⟩ := h.applied happlied
    exact ⟨version, List.mem_cons_of_mem _ hversion, hmem⟩

theorem Inv.step (h : s.Inv finalizerName) {s' : System E} (hstep : Step finalizerName s s') :
    s'.Inv finalizerName := by
  cases hstep with
  | call seen hseen => exact h.call hseen
  | reconciled first rest call result hcalls => exact h.reconciled result hcalls
  | patched first rest call patch finalizers result hcalls hgone hpatch happly =>
    exact h.patched result hcalls hgone hpatch happly
  | refused first rest call err hcalls =>
    refine ⟨h.object, h.once, h.gone, h.guarded, h.applied, fun name index action hmem ↦ ?_,
      fun name finalizers hmem ↦ ?_⟩
    · rcases mem_of_mem_replace hcalls hmem with heq | hold
      · exact absurd heq.symm (Call.patched_ne.1 name index action)
      · exact h.removing name index action hold
    · rcases mem_of_mem_replace hcalls hmem with heq | hold
      · exact absurd heq.symm (Call.patched_ne.2 name finalizers)
      · exact h.adding name finalizers hold
  | cancelled first rest call hcalls =>
    have hsub : ∀ other ∈ first ++ rest, other ∈ s.calls := fun other hmem ↦ by
      rw [hcalls]
      exact (List.sublist_append_right [call] rest).append_left first |>.subset hmem
    exact ⟨h.object, h.once, h.gone, h.guarded, h.applied,
      fun name index action hmem ↦ h.removing name index action (hsub _ hmem),
      fun name finalizers hmem ↦ h.adding name finalizers (hsub _ hmem)⟩
  | update object hgone hcount hdeleting => exact h.update hgone hcount
  | delete hdeleting hfinalizers =>
    exact ⟨h.object, h.once, fun _ ↦ hfinalizers, h.guarded, h.applied,
      fun name index action hmem ↦ (h.removing name index action hmem).imp_right fun _ ↦ rfl, h.adding⟩

theorem Reaches.inv (h : s.Reaches finalizerName) : s.Inv finalizerName := by
  obtain ⟨object, honce, hpath⟩ := h
  exact Run.invariant_of_reaches (inv_created honce) (fun _ _ hbefore hstep ↦ hbefore.step hstep) hpath

/-- If `Event::Apply` was ever started, `Event::Cleanup` has succeeded before the object is gone; the
finalizer is there at most once; and no patch that the server applies changes another finalizer.  This is
so whichever versions the calls go by and however they and others interleave. -/
theorem cleanedUp_before_gone (h : s.Reaches finalizerName) :
    (s.gone = true → s.applied = true → s.cleanedUp = true) ∧
      s.object.finalizers.count finalizerName ≤ 1 ∧
      ∀ call ∈ s.calls, ∀ patch finalizers, call.patch finalizerName = some patch →
        applyPatch s.object.finalizers patch = some finalizers →
          finalizers.filter (· ≠ finalizerName) = s.object.finalizers.filter (· ≠ finalizerName) := by
  refine ⟨fun hgone happlied ↦ ?_, h.inv.once, fun call _ patch finalizers hpatch happly ↦ ?_⟩
  · obtain ⟨version, hversion, hmem⟩ := h.inv.applied happlied
    refine (h.inv.guarded version hversion hmem).resolve_left ?_
    rw [h.inv.gone hgone]
    exact List.not_mem_nil
  · rcases Call.patch_applies hpatch happly with
      ⟨name, index, action, before, after, -, hbefore, rfl⟩ | ⟨name, -, rfl⟩
    · rw [hbefore]
      simp
    · simp

/-- An object of which only the finalizer is of interest. -/
def objectWith (finalizers : List Text) (isDeleting : Bool) : Object :=
  ⟨some "pod".toList, finalizers, isDeleting⟩

/-- Its life, with a call at each of its versions. -/
def deleted : System Unit where
  object := objectWith [] true
  gone := true
  versions := [objectWith [] true, objectWith [['f']] true, objectWith [['f']] false, objectWith [] false]
  calls := [.returned (.ok ⟨none⟩), .returned (.ok ⟨none⟩), .returned (.ok .awaitChange)]
  applied := true
  cleanedUp := true

theorem deleted_reaches : deleted.Reaches ['f'] := by
  refine ⟨objectWith [] false, Nat.zero_le 1, ?_⟩
  have hadding : Relation.ReflTransGen (Step ['f']) (created (objectWith [] false) : System Unit) _ :=
    .single (.call (objectWith [] false) List.mem_cons_self)
  have hadded := hadding.tail
    (.patched [] [] (.adding "pod".toList []) _ [['f']] (.ok ()) rfl rfl rfl rfl)
  have happlying := hadded.tail (.call (objectWith [['f']] false) List.mem_cons_self)
  have happlied := happlying.tail (.reconciled [] _ (.applying _) (.ok ⟨none⟩) rfl)
  have hdeleting := happlied.tail (.update (objectWith [['f']] true) rfl rfl (fun _ ↦ rfl))
  have hcleaning := hdeleting.tail (.call (objectWith [['f']] true) List.mem_cons_self)
  have hcleaned := hcleaning.tail (.reconciled [] _ (.cleaningUp _ "pod".toList 0) (.ok ⟨none⟩) rfl)
  have hremoved := hcleaned.tail
    (.patched [] _ (.removing "pod".toList 0 ⟨none⟩) _ [] (.ok ()) rfl rfl rfl rfl)
  exact hremoved.tail (.delete rfl rfl)

theorem cleanedUp_before_gone_demo : deleted.cleanedUp = true :=
  (cleanedUp_before_gone deleted_reaches).1 rfl rfl

end System

end EbpfPlayground.Kube.Finalizer
