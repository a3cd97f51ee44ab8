import EbpfPlayground.CoRe.Updates

/-!
# Which listed commands are triggers

All commands of an annotation are written under the one key of their container, so the entry that
is left is the last of them.  A listed command makes the probe output an event exactly when it is
that one.
-/

namespace EbpfPlayground.CoRe

open CString Text

/-- The string can be the `comm` of a task: ASCII, 1 to 15 bytes, no NUL. -/
structure IsComm (name : Text) : Prop where
  ascii : ∀ c ∈ name, c.toNat < 128
  nonempty : name ≠ []
  length_le : name.length ≤ 15
  noNul : '\x00' ∉ name

/-- Every task of that cgroup with this `comm` makes the probe output an event of the cgroup. -/
def Triggers (rcMap : ResizeContainersMap) (cgroupId : UInt64) (name : Text) : Prop :=
  ∀ task : Task, task.cgroupId = cgroupId → task.comm.bytes = asBytes name →
    ∃ event, podsnoop rcMap task = some event ∧ event.cgroupId = cgroupId

/-! ## Strings that can be a `comm` -/

theorem IsComm.lt_of_mem_asBytes {name : Text} (h : IsComm name) :
    ∀ byte ∈ asBytes name, byte < 128 := by
  intro byte hbyte
  rw [asBytes_of_ascii h.ascii, List.mem_map] at hbyte
  obtain ⟨c, hc, rfl⟩ := hbyte
  apply UInt8.lt_iff_toNat_lt.mpr
  rw [toNat_ofNat_of_ascii (h.ascii c hc)]
  exact h.ascii c hc

theorem IsComm.length_asBytes {name : Text} (h : IsComm name) : (asBytes name).length < 16 := by
  rw [asBytes_of_ascii h.ascii, List.length_map]
  exact Nat.lt_succ_of_le h.length_le

theorem IsComm.zero_notMem {name : Text} (h : IsComm name) : 0 ∉ asBytes name := by
  intro hzero
  rw [asBytes_of_ascii h.ascii, List.mem_map] at hzero
  obtain ⟨c, hc, hbyte⟩ := hzero
  have hnat : c.toNat = 0 := by
    have := congrArg UInt8.toNat hbyte
    rwa [toNat_ofNat_of_ascii (h.ascii c hc)] at this
  have hnul : c = '\x00' := by
    rw [← Char.ofNat_toNat c, hnat]
  exact h.noNul (hnul ▸ hc)

/-! ## The entry that is left -/

/-- After the updates of every named container, the entry of each of them is the last command. -/
theorem lookup_putAll_attempts {env : Env} {cids cmds : List Text} (hne : cmds ≠ []) {cid : Text}
    {cgroupId : UInt64} (hcid : cid ∈ cids) (hgroup : containerCgroupId env cid = .ok cgroupId)
    {rcMap : ResizeContainersMap}
    (hok : loopOutcome (attempts env cids (cmds.map .str)) = .ok)
    (hroom : rcMap.AcceptsAll (okPrefix (attempts env cids (cmds.map .str)))) :
    ∃ value, ofBytes bufSize (asBytes (cmds.getLast hne)) = some value ∧
      (rcMap.putAll (okPrefix (attempts env cids (cmds.map .str)))).lookup cgroupId = some value := by
  induction cids using List.reverseRecOn with
  | nil => cases hcid
  | append_singleton cids last ih =>
    have hsplit : attempts env (cids ++ [last]) (cmds.map .str) =
        attempts env cids (cmds.map .str) ++ (cmds.map .str).map (attempt env last) := by
      simp [attempts]
    rw [hsplit, loopOutcome_append] at hok
    split at hok
    · next hfirst =>
      rw [hsplit, okPrefix_append_of_ok _ _ hfirst] at hroom ⊢
      by_cases hlast : containerCgroupId env last = .ok cgroupId
      · -- The commands of this container come last under its key.
        have hcmds : (cmds.map Json.str).map (attempt env last) =
            (cmds.dropLast.map Json.str).map (attempt env last) ++
              [attempt env last (.str (cmds.getLast hne))] := by
          conv_lhs => rw [← List.dropLast_append_getLast hne]
          simp
        rw [hcmds, loopOutcome_append] at hok
        split at hok
        · next hinit =>
          obtain ⟨entry, hentry⟩ := loopOutcome_eq_ok.mp hok _ List.mem_cons_self
          obtain ⟨text, htext, hkey, hvalue⟩ := attempt_eq_ok.mp hentry
          obtain rfl := Json.str.inj htext
          obtain rfl : entry.1 = cgroupId := Except.ok.inj (hkey.symm.trans hlast)
          refine ⟨entry.2, hvalue, ?_⟩
          rw [hcmds, okPrefix_append_of_ok _ _ hinit, hentry, ← List.append_assoc] at hroom ⊢
          apply BoundedMap.lookup_putAll_of_last entry.2 (hroom _ entry [] rfl)
          simp [okPrefix]
        · next hinit => exact absurd hok hinit
      · have hbefore : cid ∈ cids := by
          rcases List.mem_append.mp hcid with hmem | hmem
          · exact hmem
          · obtain rfl := List.mem_singleton.mp hmem
            exact absurd hgroup hlast
        obtain ⟨value, hvalue, hlookup⟩ := ih hbefore hfirst fun first entry rest h ↦
          hroom first entry (rest ++ okPrefix ((cmds.map .str).map (attempt env last)))
            (by rw [h, List.append_assoc, List.cons_append])
        refine ⟨value, hvalue, ?_⟩
        rw [BoundedMap.putAll_append, BoundedMap.lookup_putAll_of_notMem]
        · exact hlookup
        · intro hmem
          obtain ⟨entry, hentry, hkey⟩ := List.mem_map.mp hmem
          obtain ⟨cmd, -, hattempt⟩ := List.mem_map.mp (mem_of_mem_okPrefix hentry)
          obtain ⟨-, -, hother, -⟩ := attempt_eq_ok.mp hattempt
          exact hlast (hkey ▸ hother)
    · next hfirst => exact absurd hok hfirst

/-- A command that can be a `comm` triggers exactly when the entry of the cgroup holds it. -/
theorem triggers_iff {rcMap : ResizeContainersMap} {cgroupId : UInt64} {name other : Text}
    (hname : IsComm name) (hother : IsComm other) {value : PodCommand}
    (hlookup : rcMap.lookup cgroupId = some value)
    (hvalue : ofBytes bufSize (asBytes other) = some value) :
    Triggers rcMap cgroupId name ↔ name = other := by
  have hcstr : cstr value.toList = asBytes other := by
    rw [cstr_ofBytes hvalue, cstr_eq_self hother.zero_notMem]
  constructor
  · intro h
    obtain ⟨event, hevent, -⟩ :=
      h ⟨⟨asBytes name, hname.length_asBytes, hname.zero_notMem⟩, cgroupId, 0⟩ rfl rfl
    obtain ⟨⟨found, hfound, hbytes⟩, -⟩ := podsnoop_eq_some.mp hevent
    obtain rfl : value = found := Option.some.inj (hlookup.symm.trans hfound)
    exact asBytes_injective (hbytes.symm.trans hcstr)
  · rintro rfl task rfl hcomm
    refine ⟨⟨task.cgroupId, task.pidTgid.toUInt32, bpfGetCurrentComm task.comm⟩, ?_, rfl⟩
    apply podsnoop_eq_some.mpr
    refine ⟨⟨value, hlookup, hcstr.trans hcomm.symm⟩, ?_, rfl⟩
    rw [hcomm]
    exact hname.lt_of_mem_asBytes

/-- Every listed command is a trigger of a named container exactly when the list holds no other
command than its last one. -/
theorem listed_commands_trigger_iff (env : Env) (p : Pod) (rcMap : ResizeContainersMap)
    (cs : ContainerStatus) (cid : Text) (cgroupId : UInt64) (cmds : List Text)
    (hnode : p.OnNode env) (hcs : cs ∈ p.statuses) (hcname : p.cname env = some cs.name)
    (hcid : cs.containerId = some cid) (hgroup : containerCgroupId env cid = .ok cgroupId)
    (hcmds : p.commands env = some (cmds.map .str)) (hne : cmds ≠ [])
    (hcomm : ∀ cmd ∈ cmds, IsComm cmd) (hroom : rcMap.AcceptsAll (podUpdates env p))
    (hok : (handleK8sPod env p rcMap).2 = .ok) :
    (∀ cmd ∈ cmds, Triggers (handleK8sPod env p rcMap).1 cgroupId cmd) ↔
      ∀ cmd ∈ cmds, cmd = cmds.getLast hne := by
  have hmem : cid ∈ namedIds cs.name p.statuses := mem_namedIds.mpr ⟨cs, hcs, rfl, hcid⟩
  have hrequest : request env p = .ok (namedIds cs.name p.statuses, cmds.map .str) :=
    request_eq_ok.mpr ⟨hnode, ⟨cs.name, hcname, rfl⟩, List.ne_nil_of_mem hmem, hcmds⟩
  rw [handleK8sPod_eq] at hok ⊢
  have hupdates : podUpdates env p =
      okPrefix (attempts env (namedIds cs.name p.statuses) (cmds.map .str)) := by
    simp only [podUpdates, hrequest]
  have hloop : loopOutcome (attempts env (namedIds cs.name p.statuses) (cmds.map .str)) = .ok := by
    simpa only [podOutcome, hrequest] using hok
  rw [hupdates] at hroom ⊢
  obtain ⟨value, hvalue, hlookup⟩ := lookup_putAll_attempts hne hmem hgroup hloop hroom
  apply forall₂_congr
  intro cmd hcmd
  exact triggers_iff (hcomm cmd hcmd) (hcomm _ (List.getLast_mem hne)) hlookup hvalue

theorem listed_commands_trigger_make :
    Triggers (handleK8sPod demoEnv
      (demoPod (demoAnnotations "[\"make\", \"make\"]".toList) "4242".toList) .empty).1 4242
      "make".toList :=
  (listed_commands_trigger_iff demoEnv
    (demoPod (demoAnnotations "[\"make\", \"make\"]".toList) "4242".toList) .empty
    ⟨"ctr".toList, some "containerd://4242".toList⟩ "containerd://4242".toList 4242
    ["make".toList, "make".toList] ⟨"node1".toList, by decide, by decide⟩ (by decide)
    (by decide +kernel) rfl (by decide +kernel) (by decide +kernel) (by decide)
    (by
      intro cmd hcmd
      obtain rfl : cmd = "make".toList := by simpa using hcmd
      exact ⟨by decide, by decide, by decide, by decide⟩)
    (BoundedMap.acceptsAll_of_length_le (by decide +kernel)) (by decide +kernel)).mpr
    (by decide) "make".toList (by decide)

/-- The commands are `make` and `gcc`; starting `make` makes no event. -/
theorem listed_commands_trigger_counterexample :
    ∃ p : Pod, p.OnNode demoEnv ∧ p.cname demoEnv = some "ctr".toList ∧
      p.statuses = [⟨"ctr".toList, some "containerd://4242".toList⟩] ∧
      containerCgroupId demoEnv "containerd://4242".toList = .ok 4242 ∧
      p.commands demoEnv = some (["make".toList, "gcc".toList].map .str) ∧
      (BoundedMap.empty : ResizeContainersMap).AcceptsAll (podUpdates demoEnv p) ∧
      (handleK8sPod demoEnv p .empty).2 = .ok ∧
      ¬ ∀ cmd ∈ ["make".toList, "gcc".toList], Triggers (handleK8sPod demoEnv p .empty).1 4242 cmd := by
  refine ⟨demoPod (demoAnnotations "[\"make\", \"gcc\"]".toList) "4242".toList,
    ⟨"node1".toList, by decide, by decide⟩, by decide +kernel, by decide, by decide +kernel,
    by decide +kernel, BoundedMap.acceptsAll_of_length_le (by decide +kernel), by decide +kernel, ?_⟩
  intro h
  obtain ⟨event, hevent, -⟩ :=
    h "make".toList List.mem_cons_self (demoTask "make".toList make_short zero_notMem_make) rfl rfl
  have hsilent : podsnoop (handleK8sPod demoEnv
      (demoPod (demoAnnotations "[\"make\", \"gcc\"]".toList) "4242".toList) .empty).1
      (demoTask "make".toList make_short zero_notMem_make) = none := by
    decide +kernel
  rw [hsilent] at hevent
  cases hevent

end EbpfPlayground.CoRe
