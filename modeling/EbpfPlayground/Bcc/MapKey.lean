import EbpfPlayground.Bcc.Watcher

/-!
# The key of the watcher and the key of the probe

The watcher keys an entry by the low 32 bits of the cgroup id, the probe looks up all 64 bits.  They
agree on ids below `2 ^ 32`, and also on the deletion of a larger id whose low bits name no entry.
-/

namespace EbpfPlayground.Bcc

def MapOp.cgroupId : MapOp → ℕ
  | .insert cgroupId _ => cgroupId
  | .delete cgroupId => cgroupId

/-- The command of the last insertion for a container, unless it was deleted later. -/
def lastInserted : List MapOp → ℕ → Option Command :=
  List.foldl (fun entries op id ↦
    match op with
    | .insert cgroupId cmd => if id = cgroupId then some cmd else entries id
    | .delete cgroupId => if id = cgroupId then none else entries id) fun _ ↦ none

/-- The probe finds for every cgroup what the watcher meant for it. -/
def Agrees (ops : List MapOp) (rcMap : ResizeContainersMap) : Prop :=
  ∀ g : UInt64, probeLookup rcMap g = lastInserted ops g.toNat

/-- Watcher and probe agree after each of the operations. -/
def AgreesThroughout (ops : List MapOp) : Prop :=
  ∀ first rcMap, first <+: ops → Run.run applyOp BoundedMap.empty first = some rcMap →
    Agrees first rcMap

/-- The operation, after those before it, is for an id below `2 ^ 32`, or deletes a larger one whose
low 32 bits are the id of no container with an entry. -/
def KeepsApart (before : List MapOp) : MapOp → Prop
  | .insert cgroupId _ => cgroupId < 2 ^ 32
  | .delete cgroupId => cgroupId < 2 ^ 32 ∨ lastInserted before (cgroupId % 2 ^ 32) = none

theorem toNat_mapKey (cgroupId : ℕ) : (mapKey cgroupId).toNat = cgroupId % 2 ^ 32 := by
  rw [mapKey, UInt32.toNat_toUInt64, UInt32.toNat_ofNat']

theorem eq_mapKey_iff {cgroupId : ℕ} (h : cgroupId < 2 ^ 32) (g : UInt64) :
    g = mapKey cgroupId ↔ g.toNat = cgroupId := by
  rw [← UInt64.toNat_inj, toNat_mapKey, Nat.mod_eq_of_lt h]

@[simp]
theorem lastInserted_concat_insert (ops : List MapOp) (cgroupId : ℕ) (cmd : Command) (id : ℕ) :
    lastInserted (ops ++ [.insert cgroupId cmd]) id =
      if id = cgroupId then some cmd else lastInserted ops id := by
  simp [lastInserted]

@[simp]
theorem lastInserted_concat_delete (ops : List MapOp) (cgroupId : ℕ) (id : ℕ) :
    lastInserted (ops ++ [.delete cgroupId]) id =
      if id = cgroupId then none else lastInserted ops id := by
  simp [lastInserted]

/-- No entry has a key of more than 32 bits. -/
def ShortKeys (rcMap : ResizeContainersMap) : Prop :=
  ∀ g : UInt64, 2 ^ 32 ≤ g.toNat → rcMap.lookup g = none

theorem ShortKeys.applyOp {rcMap rcMap' : ResizeContainersMap} (hshort : ShortKeys rcMap) {op : MapOp}
    (h : applyOp rcMap op = some rcMap') : ShortKeys rcMap' := by
  intro g hg
  have hne : ∀ cgroupId, g ≠ mapKey cgroupId := by
    intro cgroupId heq
    have hlt := Nat.mod_lt cgroupId (Nat.two_pow_pos 32)
    rw [heq, toNat_mapKey] at hg
    omega
  cases op with
  | insert cgroupId cmd =>
    have haccepts : rcMap.Accepts (mapKey cgroupId) := by
      by_contra hrefused
      rw [Bcc.applyOp, BoundedMap.update_eq_none.mpr hrefused] at h
      cases h
    rw [Bcc.applyOp, BoundedMap.update_of_accepts cmd haccepts] at h
    obtain rfl := Option.some.inj h
    rw [BoundedMap.lookup_put_of_ne _ _ (hne cgroupId)]
    exact hshort g hg
  | delete cgroupId =>
    obtain rfl := Option.some.inj h
    rw [BoundedMap.lookup_remove, if_neg (hne cgroupId)]
    exact hshort g hg

theorem shortKeys_of_run {ops : List MapOp} {rcMap : ResizeContainersMap}
    (h : Run.run applyOp BoundedMap.empty ops = some rcMap) : ShortKeys rcMap :=
  Run.invariant (I := fun _ ↦ ShortKeys) (fun _ _ ↦ BoundedMap.lookup_empty _)
    (fun _ _ _ _ hshort hstep ↦ hshort.applyOp hstep) h

/-- An insertion that succeeds, by lookups. -/
theorem lookup_applyOp_insert {rcMap rcMap' : ResizeContainersMap} {cgroupId : ℕ} {cmd : Command}
    (h : applyOp rcMap (.insert cgroupId cmd) = some rcMap') (g : UInt64) :
    rcMap'.lookup g = if g = mapKey cgroupId then some cmd else rcMap.lookup g := by
  have haccepts : rcMap.Accepts (mapKey cgroupId) := by
    by_contra hrefused
    rw [applyOp, BoundedMap.update_eq_none.mpr hrefused] at h
    cases h
  rw [applyOp, BoundedMap.update_of_accepts cmd haccepts] at h
  obtain rfl := Option.some.inj h
  split
  · next heq => rw [heq, BoundedMap.lookup_put_self cmd haccepts]
  · next hne => rw [BoundedMap.lookup_put_of_ne _ _ hne]

theorem lookup_applyOp_delete {rcMap rcMap' : ResizeContainersMap} {cgroupId : ℕ}
    (h : applyOp rcMap (.delete cgroupId) = some rcMap') (g : UInt64) :
    rcMap'.lookup g = if g = mapKey cgroupId then none else rcMap.lookup g := by
  obtain rfl := Option.some.inj h
  exact BoundedMap.lookup_remove _ _ _

/-- An operation that keeps the containers apart keeps the agreement. -/
theorem Agrees.concat {ops : List MapOp} {rcMap rcMap' : ResizeContainersMap}
    (hagrees : Agrees ops rcMap) (hshort : ShortKeys rcMap) {op : MapOp} (hop : KeepsApart ops op)
    (h : applyOp rcMap op = some rcMap') : Agrees (ops ++ [op]) rcMap' := by
  intro g
  have hbefore : rcMap.lookup g = lastInserted ops g.toNat := hagrees g
  cases op with
  | insert cgroupId cmd =>
    rw [probeLookup, lookup_applyOp_insert h, lastInserted_concat_insert, hbefore]
    exact if_congr (eq_mapKey_iff hop g) rfl rfl
  | delete cgroupId =>
    rw [probeLookup, lookup_applyOp_delete h, lastInserted_concat_delete]
    by_cases hsmall : cgroupId < 2 ^ 32
    · rw [hbefore]
      exact if_congr (eq_mapKey_iff hsmall g) rfl rfl
    · -- The low bits name no entry, and the id itself has none.
      have hnone := hop.resolve_left hsmall
      by_cases hg : g.toNat = cgroupId
      · have hlong := hshort g (by omega)
        rw [if_pos hg, hlong]
        exact ite_self _
      · rw [if_neg hg]
        split
        · next hkey =>
          rw [hkey, toNat_mapKey]
          exact hnone.symm
        · exact hbefore

/-- An operation that does not breaks it. -/
theorem not_agrees_concat {ops : List MapOp} {rcMap rcMap' : ResizeContainersMap}
    (hshort : ShortKeys rcMap) {op : MapOp} (hid : op.cgroupId < 2 ^ 64)
    (hop : ¬ KeepsApart ops op) (h : applyOp rcMap op = some rcMap') :
    ¬ Agrees (ops ++ [op]) rcMap' := by
  intro hagrees
  cases op with
  | insert cgroupId cmd =>
    have hlong : 2 ^ 32 ≤ cgroupId := Nat.le_of_not_lt hop
    have hnat : (UInt64.ofNat cgroupId).toNat = cgroupId := UInt64.toNat_ofNat_of_lt' hid
    have hfound := hagrees (UInt64.ofNat cgroupId)
    rw [probeLookup, hshort.applyOp h _ (by rw [hnat]; exact hlong), hnat, lastInserted_concat_insert,
      if_pos rfl] at hfound
    cases hfound
  | delete cgroupId =>
    rw [KeepsApart, not_or] at hop
    have hfound := hagrees (mapKey cgroupId)
    have hne : cgroupId % 2 ^ 32 ≠ cgroupId := by
      intro heq
      have hlt := Nat.mod_lt cgroupId (Nat.two_pow_pos 32)
      rw [heq] at hlt
      exact hop.1 hlt
    rw [probeLookup, lookup_applyOp_delete h, if_pos rfl, toNat_mapKey, lastInserted_concat_delete,
      if_neg hne] at hfound
    exact hop.2 hfound.symm

theorem exists_run_of_prefix {ops first : List MapOp} (hpre : first <+: ops)
    (h : (Run.run applyOp BoundedMap.empty ops).isSome) :
    ∃ rcMap, Run.run applyOp BoundedMap.empty first = some rcMap := by
  obtain ⟨rest, rfl⟩ := hpre
  rw [Run.run_append, Option.isSome_iff_exists] at h
  obtain ⟨final, hfinal⟩ := h
  obtain ⟨rcMap, hrun, -⟩ := Option.bind_eq_some_iff.mp hfinal
  exact ⟨rcMap, hrun⟩

/-- For any operations on 64-bit cgroup ids that succeed, watcher and probe agree after each of them
exactly when each insertion is for an id below `2 ^ 32` and each deletion is, or has low bits that
name no entry. -/
theorem agreesThroughout_iff (ops : List MapOp) (hids : ∀ op ∈ ops, op.cgroupId < 2 ^ 64)
    (hrun : (Run.run applyOp BoundedMap.empty ops).isSome) :
    AgreesThroughout ops ↔ ∀ first op rest, ops = first ++ op :: rest → KeepsApart first op := by
  constructor
  · intro hagrees first op rest hsplit
    by_contra hop
    have hnext : first ++ [op] <+: ops := ⟨rest, by rw [hsplit]; simp⟩
    obtain ⟨rcMap', hrun'⟩ := exists_run_of_prefix hnext hrun
    obtain ⟨rcMap, hfirst, hstep⟩ := Run.run_concat_eq_some.mp hrun'
    have hid : op.cgroupId < 2 ^ 64 := hids op (by rw [hsplit]; simp)
    exact not_agrees_concat (shortKeys_of_run hfirst) hid hop hstep (hagrees _ _ hnext hrun')
  · intro happart first
    induction first using List.reverseRecOn with
    | nil =>
      intro rcMap _ hfirst g
      obtain rfl : BoundedMap.empty = rcMap := Option.some.inj hfirst
      exact BoundedMap.lookup_empty g
    | append_singleton first op ih =>
      intro rcMap' hpre hfirst
      obtain ⟨rcMap, hbefore, hstep⟩ := Run.run_concat_eq_some.mp hfirst
      obtain ⟨rest, hsplit⟩ := hpre
      have hop : KeepsApart first op := happart first op rest (by rw [← hsplit]; simp)
      have hagrees := ih rcMap ((List.prefix_append first [op]).trans ⟨rest, hsplit⟩) hbefore
      exact hagrees.concat (shortKeys_of_run hbefore) hop hstep

/-- The command `make` in the buffer. -/
def makeCommand : Command := ⟨#[109, 97, 107, 101] ++ Array.replicate 28 0, by decide⟩

/-- Two containers below `2 ^ 32`, one of them deleted. -/
theorem agreesThroughout_small :
    AgreesThroughout [.insert 4242 makeCommand, .insert 7 makeCommand, .delete 4242] := by
  refine (agreesThroughout_iff _ (by decide) (by decide +kernel)).mpr ?_
  intro first op rest hsplit
  have hmem : op ∈ [MapOp.insert 4242 makeCommand, .insert 7 makeCommand, .delete 4242] := by
    rw [hsplit]
    simp
  simp only [List.mem_cons, List.not_mem_nil, or_false] at hmem
  rcases hmem with rfl | rfl | rfl
  · exact (by decide : 4242 < 2 ^ 32)
  · exact (by decide : 7 < 2 ^ 32)
  · exact .inl (by decide)

/-- The entry for the cgroup `2 ^ 32 + 5` is found by the probe of the cgroup 5 and by no other. -/
theorem agreesThroughout_counterexample :
    ∃ rcMap, Run.run applyOp BoundedMap.empty [.insert (2 ^ 32 + 5) makeCommand] = some rcMap ∧
      probeLookup rcMap 5 = some makeCommand ∧ probeLookup rcMap (2 ^ 32 + 5) = none ∧
      ¬ AgreesThroughout [.insert (2 ^ 32 + 5) makeCommand] := by
  obtain ⟨rcMap, hrun, hfive, hlong⟩ : ∃ rcMap,
      Run.run applyOp BoundedMap.empty [.insert (2 ^ 32 + 5) makeCommand] = some rcMap ∧
        probeLookup rcMap 5 = some makeCommand ∧ probeLookup rcMap (2 ^ 32 + 5) = none :=
    ⟨BoundedMap.empty.put 5 makeCommand, by decide +kernel, by decide +kernel, by decide +kernel⟩
  refine ⟨rcMap, hrun, hfive, hlong, ?_⟩
  intro hagrees
  have hfound := hagrees _ rcMap (List.prefix_refl _) hrun (2 ^ 32 + 5)
  rw [hlong] at hfound
  exact absurd hfound (by decide +kernel)

end EbpfPlayground.Bcc
