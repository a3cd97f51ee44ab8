import EbpfPlayground.NetStats.Attach

/-!
# A command that fails

Where a `tc` command of the Python attacher fails, the message about it has places for two values and
`format` gets one, so that the loop ends with an exception.  What it leaves is clean all the same: every
target before the failing one has its filter, and those after it are as they were.
-/

namespace EbpfPlayground.NetStats

open Shell Python

/-- The first target for which a command fails. -/
structure FirstFailing (env : AttachEnv) (s : Interfaces) (ifaces before : List Iface) (iface : Iface)
    (after : List Iface) : Prop where
  split : ifaces = before ++ iface :: after
  proceeds : ∀ other ∈ before, env.Proceeds s other.ifname
  fails : ¬ env.Proceeds s iface.ifname

/-- Before the first failing target each one has clsact and one filter with the section, the failing one has
no such filter, and those after it are unchanged. -/
structure LeavesClean (env : AttachEnv) (listing : Listing) (sectionName : Text) (ifaces : List Iface)
    (s s' : Interfaces) : Prop where
  attached : ∀ before, before <+: ifaces → (∀ iface ∈ before, env.Proceeds s iface.ifname) →
    ∀ iface ∈ before, ∃ hook, s' iface.ifname = some hook ∧ hook.qdisc = some .clsact ∧
      (hook.shown listing sectionName).length = 1
  failing : ∀ before iface after, FirstFailing env s ifaces before iface after →
    ∀ hook ∈ s' iface.ifname, hook.shown listing sectionName = []
  later : ∀ before iface after, FirstFailing env s ifaces before iface after →
    ∀ other ∈ after, s' other.ifname = s other.ifname

/-- The call returns without an exception and leaves a clean state. -/
def ReportsCleanly (env : AttachEnv) (listing : Listing) (object sectionName : Text)
    (ifaces : List Iface) (s : Interfaces) : Prop :=
  (env.attachEbpfStats object sectionName ifaces s).2 = none ∧
    LeavesClean env listing sectionName ifaces s (env.attachEbpfStats object sectionName ifaces s).1

/-! ## The loop -/

section Loop

variable {env : AttachEnv} {object sectionName : Text} {s : Interfaces}

/-- At a target for which a command fails, the loop ends with an exception, and the target keeps its
filters. -/
theorem attachEbpfStats_of_not_proceeds (object sectionName : Text) {iface : Iface}
    (ifaces : List Iface) (h : ¬ env.Proceeds s iface.ifname) :
    ∃ left, env.attachEbpfStats object sectionName (iface :: ifaces) s =
        (Function.update s iface.ifname left, some .indexError) ∧
      left.map Hook.ingress = (s iface.ifname).map Hook.ingress := by
  have hself : Function.update s iface.ifname (s iface.ifname) = s := Function.update_eq_self _ _
  rw [AttachEnv.attachEbpfStats]
  cases hshow : env.attempt (.qdiscShow iface.ifname) (tcQdiscShow (s iface.ifname)) with
  | none => exact ⟨s iface.ifname, by rw [hself, reportFailure_eq (by decide)], rfl⟩
  | some lines =>
    obtain ⟨hshowOk, hlines⟩ := attempt_eq_some.mp hshow
    cases hhook : s iface.ifname with
    | none =>
      rw [hhook] at hlines
      cases hlines
    | some hook =>
      rw [hhook] at hself hlines
      dsimp only
      cases hadded : if (strip (stdout (grep "clsact".toList lines))).length = 0 then
          env.attempt (.qdiscAdd iface.ifname) (tcQdiscAdd (some hook)) else some hook with
      | none => exact ⟨some hook, by rw [hself, reportFailure_eq (by decide)], rfl⟩
      | some hook' =>
        obtain ⟨hingress, hqdisc⟩ : hook'.ingress = hook.ingress ∧ (hook.qdisc = some .clsact ∨
            hook.qdisc = none ∧ env.fails (.qdiscAdd iface.ifname) = false) := by
          split at hadded
          · obtain ⟨haddOk, hadd⟩ := attempt_eq_some.mp hadded
            obtain ⟨old, hold, hnone, -, hingress⟩ := tcQdiscAdd_eq_some.mp hadd
            obtain rfl : hook = old := Option.some.inj hold
            exact ⟨hingress, .inr ⟨hnone, haddOk⟩⟩
          · next hfound =>
            obtain rfl : hook = hook' := Option.some.inj hadded
            exact ⟨rfl, .inl (not_not.mp fun hmissing ↦ hfound ((strip_tcQdiscShow hlines).mpr hmissing))⟩
        dsimp only
        cases hfilter : env.attempt (.filterAdd iface.ifname)
            (tcFilterAdd object sectionName (some hook')) with
        | none => exact ⟨some hook', by rw [reportFailure_eq (by decide)], congrArg some hingress⟩
        | some _ =>
          refine absurd ⟨⟨hook, hhook⟩, hshowOk, ?_, (attempt_eq_some.mp hfilter).1⟩ h
          rintro other hother
          obtain rfl : hook = other := Option.some.inj (hhook.symm.trans hother)
          exact hqdisc

/-- What is no target is left as it is. -/
theorem attachEbpfStats_of_notMem {ifaces : List Iface} {name : Text}
    (h : name ∉ ifaces.map Iface.ifname) :
    (env.attachEbpfStats object sectionName ifaces s).1 name = s name := by
  induction ifaces generalizing s with
  | nil => rfl
  | cons iface ifaces ih =>
    rw [List.map_cons, List.mem_cons, not_or] at h
    by_cases hproceeds : env.Proceeds s iface.ifname
    · obtain ⟨hook, hhook⟩ := hproceeds.exists_hook
      rw [attachEbpfStats_cons object sectionName iface ifaces hhook hproceeds, ih h.2,
        Function.update_of_ne h.1]
    · obtain ⟨left, heq, -⟩ := attachEbpfStats_of_not_proceeds object sectionName ifaces hproceeds
      rw [heq]
      exact Function.update_of_ne h.1 _ _

/-- The loop ends without an exception only where no command fails. -/
theorem attachEbpfStats_snd (env : AttachEnv) (object sectionName : Text) {ifaces : List Iface}
    {s : Interfaces} (hnodup : (ifaces.map Iface.ifname).Nodup) :
    (∀ iface ∈ ifaces, env.Proceeds s iface.ifname) ∧
        (env.attachEbpfStats object sectionName ifaces s).2 = none ∨
      (env.attachEbpfStats object sectionName ifaces s).2 = some .indexError := by
  induction ifaces generalizing s with
  | nil => exact .inl ⟨fun iface hmem ↦ absurd hmem List.not_mem_nil, rfl⟩
  | cons iface ifaces ih =>
    rw [List.map_cons, List.nodup_cons] at hnodup
    by_cases hproceeds : env.Proceeds s iface.ifname
    · obtain ⟨hook, hhook⟩ := hproceeds.exists_hook
      rw [attachEbpfStats_cons object sectionName iface ifaces hhook hproceeds]
      refine (ih hnodup.2).imp_left fun ⟨hrest, hnone⟩ ↦ ⟨?_, hnone⟩
      refine List.forall_mem_cons.mpr ⟨hproceeds, fun other hmem ↦ ?_⟩
      have hne : other.ifname ≠ iface.ifname := fun heq ↦ hnodup.1 (heq ▸ List.mem_map_of_mem hmem)
      exact (hrest other hmem).congr (Function.update_of_ne hne _ _).symm
    · obtain ⟨left, heq, -⟩ := attachEbpfStats_of_not_proceeds object sectionName ifaces hproceeds
      rw [heq]
      exact .inr rfl

/-- The targets before the failing one have their filter, and no other interface gets one. -/
theorem FirstFailing.exists_eq {ifaces before after : List Iface} {iface : Iface}
    (h : FirstFailing env s ifaces before iface after) (object sectionName : Text)
    (hnodup : (ifaces.map Iface.ifname).Nodup) :
    ∃ left, env.attachEbpfStats object sectionName ifaces s =
        (Function.update (attachAll object sectionName (before.map Iface.ifname) s) iface.ifname left,
          some .indexError) ∧
      left.map Hook.ingress = (s iface.ifname).map Hook.ingress := by
  obtain ⟨rfl, hproceeds, hfails⟩ := h
  rw [List.map_append, List.map_cons, List.nodup_middle, List.nodup_cons, List.mem_append, not_or] at hnodup
  have hself : attachAll object sectionName (before.map Iface.ifname) s iface.ifname = s iface.ifname :=
    attachAll_of_notMem hnodup.1.1
  obtain ⟨left, heq, hleft⟩ := attachEbpfStats_of_not_proceeds object sectionName after
    fun hnow ↦ hfails (hnow.congr hself.symm)
  rw [hself] at hleft
  rw [attachEbpfStats_append object sectionName _ hproceeds, heq]
  exact ⟨left, rfl, hleft⟩

/-- Whatever fails, the state that is left is clean. -/
theorem leavesClean_attachEbpfStats (env : AttachEnv) (listing : Listing) (object sectionName : Text)
    {ifaces : List Iface} {s : Interfaces} (hnodup : (ifaces.map Iface.ifname).Nodup)
    (htargets : ∀ iface ∈ ifaces, ∀ hook ∈ s iface.ifname, hook.shown listing sectionName = []) :
    LeavesClean env listing sectionName ifaces s
      (env.attachEbpfStats object sectionName ifaces s).1 where
  attached := by
    rintro before ⟨rest, rfl⟩ hproceeds iface hmem
    rw [List.map_append] at hnodup
    have hname : iface.ifname ∈ before.map Iface.ifname := List.mem_map_of_mem hmem
    have hrest : iface.ifname ∉ rest.map Iface.ifname :=
      fun hlater ↦ (List.nodup_append.mp hnodup).2.2 _ hname _ hlater rfl
    obtain ⟨hook, hhook⟩ := (hproceeds iface hmem).exists_hook
    refine ⟨hook.attach object sectionName, ?_, rfl, ?_⟩
    · rw [attachEbpfStats_append object sectionName rest hproceeds,
        attachEbpfStats_of_notMem hrest, attachAll_of_nodup hnodup.of_append_left hname, hhook]
      rfl
    · have hnothing := htargets iface (List.mem_append_left _ hmem) hook hhook
      have hingress : (hook.attach object sectionName).ingress =
          hook.ingress ++ [.bpf object sectionName] := rfl
      rw [shown_of_ingress listing hingress, hnothing]
      rfl
  failing := by
    intro before iface after hfirst hook hhook
    obtain ⟨left, heq, hleft⟩ := hfirst.exists_eq object sectionName hnodup
    rw [heq] at hhook
    dsimp only at hhook
    rw [Option.mem_def, Function.update_self] at hhook
    rw [hhook, Option.map_some, eq_comm, Option.map_eq_some_iff] at hleft
    obtain ⟨old, hold, hingress⟩ := hleft
    have hmem : iface ∈ ifaces := hfirst.split ▸ List.mem_append_right _ List.mem_cons_self
    have hnothing := htargets iface hmem old hold
    rw [Hook.shown, hingress] at hnothing
    exact hnothing
  later := by
    intro before iface after hfirst other hmem
    obtain ⟨left, heq, -⟩ := hfirst.exists_eq object sectionName hnodup
    obtain rfl := hfirst.split
    rw [List.map_append, List.map_cons, List.nodup_append, List.nodup_cons] at hnodup
    have hname : other.ifname ∈ after.map Iface.ifname := List.mem_map_of_mem hmem
    have hne : other.ifname ≠ iface.ifname := fun hsame ↦ hnodup.2.1.1 (hsame ▸ hname)
    have hbefore : other.ifname ∉ before.map Iface.ifname :=
      fun hearlier ↦ hnodup.2.2 _ hearlier _ (List.mem_cons_of_mem _ hname) rfl
    rw [heq]
    exact (Function.update_of_ne hne _ _).trans (attachAll_of_notMem hbefore)

end Loop

/-- The loop returns normally and leaves a clean state exactly where no command fails for a target. -/
theorem reportsCleanly_iff (env : AttachEnv) (listing : Listing) (object sectionName : Text)
    (ifaces : List Iface) (s : Interfaces) (hnodup : (ifaces.map Iface.ifname).Nodup)
    (htargets : ∀ iface ∈ ifaces, ∀ hook ∈ s iface.ifname, hook.shown listing sectionName = []) :
    ReportsCleanly env listing object sectionName ifaces s ↔
      ∀ iface ∈ ifaces, env.Proceeds s iface.ifname := by
  constructor
  · rintro ⟨hnone, -⟩
    rcases attachEbpfStats_snd env object sectionName (s := s) hnodup with ⟨hproceeds, -⟩ | hindex
    · exact hproceeds
    · rw [hnone] at hindex
      cases hindex
  · intro h
    refine ⟨?_, leavesClean_attachEbpfStats env listing object sectionName hnodup htargets⟩
    rw [← List.append_nil ifaces, attachEbpfStats_append object sectionName [] h]
    rfl

/-- No target has a filter yet. -/
theorem shown_demoInterfaces : ∀ iface ∈ demoAttachEnv.interfaces, ∀ hook ∈ demoInterfaces iface.ifname,
    hook.shown .demo txStatsSectionName = [] := by
  decide +kernel

/-- An interface without a qdisc, and no failing command. -/
theorem reportsCleanly_demo :
    ReportsCleanly demoAttachEnv .demo txStatsProgramName txStatsSectionName demoAttachEnv.interfaces
      demoInterfaces :=
  (reportsCleanly_iff demoAttachEnv .demo txStatsProgramName txStatsSectionName demoAttachEnv.interfaces
    demoInterfaces demoAttachEnv.nodup shown_demoInterfaces).mpr (by
      intro iface hmem
      obtain rfl := List.mem_singleton.mp hmem
      have hbare : demoInterfaces "veth0".toList = some .bare := if_pos rfl
      refine ⟨⟨_, hbare⟩, rfl, ?_, rfl⟩
      rintro hook hhook
      obtain rfl : .bare = hook := Option.some.inj (hbare.symm.trans hhook)
      exact .inr ⟨rfl, rfl⟩)

/-- The node of the demo, where the filter cannot be added. -/
def failingAttachEnv : AttachEnv :=
  { demoAttachEnv with fails := fun command ↦ command = .filterAdd "veth0".toList }

theorem reportsCleanly_counterexample :
    (failingAttachEnv.attachEbpfStats txStatsProgramName txStatsSectionName demoAttachEnv.interfaces
        demoInterfaces).2 = some .indexError ∧
      ¬ ReportsCleanly failingAttachEnv .demo txStatsProgramName txStatsSectionName
        demoAttachEnv.interfaces demoInterfaces := by
  have hraises : (failingAttachEnv.attachEbpfStats txStatsProgramName txStatsSectionName
      demoAttachEnv.interfaces demoInterfaces).2 = some .indexError := by
    decide +kernel
  refine ⟨hraises, fun h ↦ ?_⟩
  rw [ReportsCleanly, hraises] at h
  cases h.1

end EbpfPlayground.NetStats
