import EbpfPlayground.Foundation.Python
import EbpfPlayground.NetStats.TrafficControl
import Mathlib.Data.Finset.Basic

/-!
# The Python attacher

`attach_ebpf_netstats_prog.py` looks for interfaces without a statistics filter and adds one to each.
The look searches the listing for the default section, and the filter is added for the section that
the environment names.  A second run adds a second filter unless the listing of the first one
contains the default section.
-/

namespace EbpfPlayground.NetStats

open Shell Python

/-- What `ndb.interfaces.dump()` says of an interface. -/
structure Iface where
  ifname : Text
  state : Text
  kind : Text
  linkNetnsid : ℕ
  deriving DecidableEq

/-- The `tc` commands that the program runs on an interface. -/
inductive TcCommand
  | filterShow (ifname : Text)
  | qdiscShow (ifname : Text)
  | qdiscAdd (ifname : Text)
  | filterAdd (ifname : Text)
  deriving DecidableEq

/-- What one run of the program gets from outside its own code. -/
structure AttachEnv where
  interfaces : List Iface
  nodup : (interfaces.map Iface.ifname).Nodup
  /-- Standard output and standard error of `ip netns list-id nsid ..`. -/
  listId : ℕ → Text × Text
  /-- The command fails whatever the state of the interface. -/
  fails : TcCommand → Bool

/-- The program's environment variables decide what is attached. -/
def programName (environ : List (Text × Text)) : Text :=
  (environ.lookup "eBPF_PROGRAM_NAME".toList).getD txStatsProgramName

def sectionName (environ : List (Text × Text)) : Text :=
  (environ.lookup "eBPF_SECTION_NAME".toList).getD txStatsSectionName

/-- The report about a failed command, before `format` puts the interface and the error in. -/
def failMessage (command : Text) : Text :=
  "FAIL: '".toList ++ command ++ "' for interface '\x7b\x7d' failed ERROR='\x7b\x7d'".toList

/-- `print("..".format(iface['ifname']), err)`: the error is an argument of `print`, and `format` gets the
interface alone.  The exception of the call, if there is one. -/
def reportFailure (command ifname : Text) : Option PyError :=
  match strFormat (failMessage command) [ifname] with
  | .error error => some error
  | .ok _ => none

namespace AttachEnv

variable (env : AttachEnv)

/-- The loop of `get_cni_veth_interfaces`; `none` where the command writes to standard error. -/
def cniInterfaces : List Iface → Option (List Iface)
  | [] => some []
  | iface :: ifaces =>
    let (output, err) := env.listId iface.linkNetnsid
    if 0 < (strip err).length then none
    else (cniInterfaces ifaces).map fun iflist ↦
      if contains "cni-".toList (strip output) then iface :: iflist else iflist

def getCniVethInterfaces : Option (List Iface) :=
  env.cniInterfaces
    (env.interfaces.filter fun iface ↦ iface.state = "up".toList ∧ iface.kind = "veth".toList)

/-- The result of a command, if nothing else makes it fail. -/
def attempt {α : Type} (command : TcCommand) (result : Option α) : Option α :=
  if env.fails command then none else result

/-- The interfaces whose listing does not contain the default section. -/
def getEbpfStatsTargetInterfaces (listing : Listing) (s : Interfaces) (iflist : List Iface) :
    List Iface :=
  iflist.filter fun iface ↦
    (strip (stdout (grep txStatsSectionName
      ((env.attempt (.filterShow iface.ifname)
        (some (tcFilterShow listing (s iface.ifname)))).getD [])))).length = 0

/-- `attach_ebpf_stats_to_target_interfaces`. -/
def attachEbpfStats (object sectionName : Text) :
    List Iface → Interfaces → Interfaces × Option PyError
  | [], s => (s, none)
  | iface :: ifaces, s =>
    match env.attempt (.qdiscShow iface.ifname) (tcQdiscShow (s iface.ifname)) with
    | none => (s, reportFailure "tc qdisc show".toList iface.ifname)
    | some lines =>
      match if (strip (stdout (grep "clsact".toList lines))).length = 0 then
        env.attempt (.qdiscAdd iface.ifname) (tcQdiscAdd (s iface.ifname)) else s iface.ifname with
      | none => (s, reportFailure "tc qdisc add".toList iface.ifname)
      | some hook =>
        match env.attempt (.filterAdd iface.ifname) (tcFilterAdd object sectionName (some hook)) with
        | none => (Function.update s iface.ifname (some hook),
            reportFailure "tc filter add".toList iface.ifname)
        | some hook' =>
          attachEbpfStats object sectionName ifaces (Function.update s iface.ifname (some hook'))

/-- `main`. -/
def main (listing : Listing) (environ : List (Text × Text)) (s : Interfaces) :
    Interfaces × Option PyError :=
  match env.getCniVethInterfaces with
  | none => (s, none)
  | some iflist =>
    env.attachEbpfStats (programName environ) (sectionName environ)
      (env.getEbpfStatsTargetInterfaces listing s iflist) s

/-- The names of the up veth interfaces whose peers are in a `cni-` namespace. -/
def cniNames : List Text :=
  (env.interfaces.filter fun iface ↦ iface.state = "up".toList ∧ iface.kind = "veth".toList ∧
    contains "cni-".toList (strip (env.listId iface.linkNetnsid).1)).map Iface.ifname

/-- No command fails, and the interfaces are these. -/
structure Succeeds (names : Finset Text) : Prop where
  listId : ∀ nsid, strip (env.listId nsid).2 = []
  fails : ∀ command, env.fails command = false
  names : env.cniNames.toFinset = names

end AttachEnv

/-- Consecutive runs with the same environment variables. -/
def attachRuns (listing : Listing) (environ : List (Text × Text)) (runs : List AttachEnv)
    (s : Interfaces) : Interfaces :=
  runs.foldl (fun s env ↦ (env.main listing environ s).1) s

/-- Every one of the interfaces has a clsact qdisc and one filter, for the configured section. -/
def Attached (environ : List (Text × Text)) (names : Finset Text) (s : Interfaces) : Prop :=
  ∀ name ∈ names, ∃ hook, s name = some hook ∧ hook.qdisc = some .clsact ∧
    hook.ingress = [.bpf (programName environ) (sectionName environ)]

/-! ## One run -/

/-- What `grep` writes for a text with a character that is no white space is not all white space. -/
theorem strip_stdout_grep {needle : Text} (hneedle : ∃ c ∈ needle, isSpace c = false)
    (lines : List Text) : (strip (stdout (grep needle lines))).length = 0 ↔ grep needle lines = [] := by
  rw [List.length_eq_zero_iff, strip, stripBy_eq_nil]
  constructor
  · intro h
    by_contra hne
    obtain ⟨line, hline⟩ := List.exists_mem_of_ne_nil _ hne
    obtain ⟨c, hc, hspace⟩ := hneedle
    have hcontains : contains needle line = true := (List.mem_filter.mp hline).2
    have hmem : c ∈ line := (contains_eq_true.mp hcontains).subset hc
    have hout : c ∈ stdout (grep needle lines) :=
      List.mem_flatMap.mpr ⟨line, hline, List.mem_append_left _ hmem⟩
    rw [h c hout] at hspace
    cases hspace
  · intro h
    rw [h]
    intro c hc
    cases hc

/-- The interface with one more filter. -/
def Hook.attach (object sectionName : Text) (hook : Hook) : Hook :=
  ⟨some .clsact, hook.ingress ++ [.bpf object sectionName], fun h ↦ nomatch h⟩

/-- A clsact qdisc is there or can be added. -/
def Ready (s : Interfaces) (name : Text) : Prop :=
  ∃ hook, s name = some hook ∧ hook.qdisc ≠ some .ingress

/-- No command of the loop fails for this interface. -/
structure AttachEnv.Proceeds (env : AttachEnv) (s : Interfaces) (name : Text) : Prop where
  exists_hook : ∃ hook, s name = some hook
  qdiscShow : env.fails (.qdiscShow name) = false
  qdiscAdd : ∀ hook ∈ s name, hook.qdisc = some .clsact ∨
    hook.qdisc = none ∧ env.fails (.qdiscAdd name) = false
  filterAdd : env.fails (.filterAdd name) = false

section OneRun

variable {env : AttachEnv}

theorem attempt_of_not_fails {α : Type} {command : TcCommand} (h : env.fails command = false)
    (result : Option α) : env.attempt command result = result := by
  simp [AttachEnv.attempt, h]

theorem attempt_eq_some {α : Type} {command : TcCommand} {result : Option α} {value : α} :
    env.attempt command result = some value ↔ env.fails command = false ∧ result = some value := by
  cases h : env.fails command <;> simp [AttachEnv.attempt, h]

/-- Whether a command fails depends on the interface alone. -/
theorem AttachEnv.Proceeds.congr {s s' : Interfaces} {name : Text} (h : env.Proceeds s name)
    (heq : s' name = s name) : env.Proceeds s' name :=
  ⟨heq ▸ h.exists_hook, h.qdiscShow, heq ▸ h.qdiscAdd, h.filterAdd⟩

theorem exists_tcQdiscShow (hook : Hook) : ∃ lines, tcQdiscShow (some hook) = some lines := by
  rw [tcQdiscShow]
  split <;> exact ⟨_, rfl⟩

/-- The look for a clsact qdisc finds nothing exactly where there is none. -/
theorem strip_tcQdiscShow {hook : Hook} {lines : List Text} (h : tcQdiscShow (some hook) = some lines) :
    (strip (stdout (grep "clsact".toList lines))).length = 0 ↔ hook.qdisc ≠ some .clsact := by
  have hclsact : ∃ c ∈ "clsact".toList, isSpace c = false := ⟨'c', by decide, by decide⟩
  rw [strip_stdout_grep hclsact, grep_tcQdiscShow h]

theorem tcFilterAdd_eq_attach (object sectionName : Text) {hook hook' : Hook}
    (hqdisc : hook'.qdisc = some .clsact) (hingress : hook'.ingress = hook.ingress) :
    tcFilterAdd object sectionName (some hook') = some (hook.attach object sectionName) := by
  rw [tcFilterAdd_eq_some]
  refine ⟨hook', rfl, by rw [hqdisc]; exact Option.some_ne_none _, hqdisc.symm, ?_⟩
  rw [hingress]
  rfl

/-- The message has places for two values, so `format` raises. -/
theorem reportFailure_eq {command : Text}
    (h : command ∈ ["tc qdisc show".toList, "tc qdisc add".toList, "tc filter add".toList])
    (ifname : Text) : reportFailure command ifname = some .indexError := by
  have hplaces : ∀ command ∈ ["tc qdisc show".toList, "tc qdisc add".toList, "tc filter add".toList],
      placeholders (failMessage command) = 2 := by
    decide +kernel
  have hraises : strFormat (failMessage command) [ifname] = .error .indexError := by
    apply (strFormat_cases _ [ifname]).1
    rw [hplaces command h]
    exact Nat.lt_succ_self 1
  rw [reportFailure, hraises]

/-- Where no command fails for it, the first target gets one more filter. -/
theorem attachEbpfStats_cons (object sectionName : Text) (iface : Iface) (ifaces : List Iface)
    {s : Interfaces} {hook : Hook} (hhook : s iface.ifname = some hook)
    (h : env.Proceeds s iface.ifname) :
    env.attachEbpfStats object sectionName (iface :: ifaces) s =
      env.attachEbpfStats object sectionName ifaces
        (Function.update s iface.ifname (some (hook.attach object sectionName))) := by
  obtain ⟨lines, hlines⟩ := exists_tcQdiscShow hook
  rw [AttachEnv.attachEbpfStats, attempt_of_not_fails h.qdiscShow, hhook, hlines]
  dsimp only
  rcases h.qdiscAdd hook hhook with hpresent | ⟨hnone, hadd⟩
  · rw [if_neg fun hnothing ↦ (strip_tcQdiscShow hlines).mp hnothing hpresent]
    dsimp only
    rw [attempt_of_not_fails h.filterAdd, tcFilterAdd_eq_attach _ _ hpresent rfl]
  · have hmissing : hook.qdisc ≠ some .clsact := by
      rw [hnone]
      exact (Option.some_ne_none _).symm
    have hadded : tcQdiscAdd (some hook) =
        some ⟨some .clsact, hook.ingress, fun h ↦ nomatch h⟩ := if_pos hnone
    rw [if_pos ((strip_tcQdiscShow hlines).mpr hmissing), attempt_of_not_fails hadd, hadded]
    dsimp only
    rw [attempt_of_not_fails h.filterAdd, tcFilterAdd_eq_attach _ _ rfl rfl]
    rfl

/-- Nor does one fail for it after a filter has been added anywhere. -/
theorem AttachEnv.Proceeds.attach {s : Interfaces} {name other : Text} {hook : Hook}
    (h : env.Proceeds s other) (object sectionName : Text) :
    env.Proceeds (Function.update s name (some (hook.attach object sectionName))) other := by
  by_cases heq : other = name
  · subst heq
    have hself : Function.update s other (some (hook.attach object sectionName)) other =
        some (hook.attach object sectionName) := Function.update_self _ _ _
    refine ⟨⟨_, hself⟩, h.qdiscShow, fun hook' hhook' ↦ .inl ?_, h.filterAdd⟩
    rw [← Option.some.inj (hself.symm.trans hhook')]
    rfl
  · exact h.congr (Function.update_of_ne heq _ _)

/-- The interfaces with one more filter for each time that they are named. -/
def attachAll (object sectionName : Text) (names : List Text) (s : Interfaces) : Interfaces := fun name ↦
  (s name).map (Hook.attach object sectionName)^[names.count name]

theorem attachAll_of_notMem {object sectionName : Text} {names : List Text} {s : Interfaces} {name : Text}
    (h : name ∉ names) : attachAll object sectionName names s name = s name := by
  rw [attachAll, List.count_eq_zero_of_not_mem h, Function.iterate_zero, Option.map_id, id]

theorem attachAll_of_nodup {object sectionName : Text} {names : List Text} {s : Interfaces} {name : Text}
    (hnodup : names.Nodup) (h : name ∈ names) :
    attachAll object sectionName names s name = (s name).map (Hook.attach object sectionName) := by
  rw [attachAll, List.count_eq_one_of_mem hnodup h, Function.iterate_one]

/-- Each target gets a filter for each time that it is listed, as far as no command fails for a target. -/
theorem attachEbpfStats_append (object sectionName : Text) {before : List Iface} (rest : List Iface)
    {s : Interfaces} (h : ∀ iface ∈ before, env.Proceeds s iface.ifname) :
    env.attachEbpfStats object sectionName (before ++ rest) s =
      env.attachEbpfStats object sectionName rest
        (attachAll object sectionName (before.map Iface.ifname) s) := by
  induction before generalizing s with
  | nil =>
    congr 1
    exact funext fun name ↦ (attachAll_of_notMem List.not_mem_nil).symm
  | cons iface before ih =>
    rw [List.forall_mem_cons] at h
    obtain ⟨hook, hhook⟩ := h.1.exists_hook
    rw [List.cons_append, attachEbpfStats_cons object sectionName iface _ hhook h.1,
      ih fun other hmem ↦ (h.2 other hmem).attach object sectionName]
    congr 1
    funext name
    by_cases hname : name = iface.ifname
    · rw [hname, attachAll, attachAll, Function.update_self, List.map_cons, List.count_cons_self, hhook,
        Option.map_some, Option.map_some, Function.iterate_succ_apply]
    · rw [attachAll, attachAll, Function.update_of_ne hname, List.map_cons,
        List.count_cons_of_ne (Ne.symm hname)]

variable (hfails : ∀ command, env.fails command = false)
include hfails

theorem attempt_eq {α : Type} (command : TcCommand) (result : Option α) :
    env.attempt command result = result := attempt_of_not_fails (hfails command) result

theorem Ready.proceeds {s : Interfaces} {name : Text} (h : Ready s name) : env.Proceeds s name := by
  obtain ⟨hook, hhook, hqdisc⟩ := h
  refine ⟨⟨hook, hhook⟩, hfails _, fun hook' hhook' ↦ ?_, hfails _⟩
  obtain rfl : hook = hook' := Option.some.inj (hhook.symm.trans hhook')
  cases hq : hook.qdisc with
  | none => exact .inr ⟨rfl, hfails _⟩
  | some qdisc =>
    cases qdisc with
    | clsact => exact .inl rfl
    | ingress => exact absurd hq hqdisc

/-- Targets get one filter each for each time that they are listed, and no other interface changes. -/
theorem attachEbpfStats_eq (object sectionName : Text) {ifaces : List Iface} {s : Interfaces}
    (hready : ∀ name ∈ ifaces.map Iface.ifname, Ready s name) :
    env.attachEbpfStats object sectionName ifaces s =
      (attachAll object sectionName (ifaces.map Iface.ifname) s, none) := by
  have h : ∀ iface ∈ ifaces, env.Proceeds s iface.ifname :=
    fun iface hmem ↦ Ready.proceeds hfails (hready iface.ifname (List.mem_map_of_mem hmem))
  rw [← List.append_nil ifaces, attachEbpfStats_append object sectionName [] h, List.append_nil]
  rfl

/-- The targets are the interfaces whose listing does not show the section. -/
theorem map_targetInterfaces (listing : Listing) (s : Interfaces) (iflist : List Iface) :
    (env.getEbpfStatsTargetInterfaces listing s iflist).map Iface.ifname =
      (iflist.map Iface.ifname).filter fun name ↦
        grep txStatsSectionName (tcFilterShow listing (s name)) = [] := by
  have hspace : ∃ c ∈ txStatsSectionName, isSpace c = false := ⟨'p', by decide, by decide⟩
  rw [AttachEnv.getEbpfStatsTargetInterfaces, List.filter_map]
  congr 2
  funext iface
  simp only [attempt_eq hfails, Option.getD_some, strip_stdout_grep hspace, Function.comp_apply]

theorem mem_targetInterfaces (listing : Listing) {s : Interfaces} (iflist : List Iface) {name : Text}
    {hook : Hook} (hhook : s name = some hook) :
    name ∈ (env.getEbpfStatsTargetInterfaces listing s iflist).map Iface.ifname ↔
      name ∈ iflist.map Iface.ifname ∧ hook.shown listing txStatsSectionName = [] := by
  rw [map_targetInterfaces hfails, List.mem_filter, decide_eq_true_eq, hhook, grep_tcFilterShow_eq_nil]

end OneRun

theorem cniInterfaces_eq {env : AttachEnv} (h : ∀ nsid, strip (env.listId nsid).2 = [])
    (ifaces : List Iface) :
    env.cniInterfaces ifaces = some (ifaces.filter fun iface ↦
      contains "cni-".toList (strip (env.listId iface.linkNetnsid).1)) := by
  induction ifaces with
  | nil => rfl
  | cons iface ifaces ih =>
    rw [AttachEnv.cniInterfaces]
    simp only [h, List.length_nil, lt_irrefl, if_false, ih, Option.map_some, List.filter_cons]

/-- One run of the program, interface by interface. -/
theorem main_eq {env : AttachEnv} {names : Finset Text} (henv : env.Succeeds names)
    (listing : Listing) (environ : List (Text × Text)) {s : Interfaces}
    (hready : ∀ name ∈ names, Ready s name) {name : Text} (hname : name ∈ names) {hook : Hook}
    (hhook : s name = some hook) :
    (env.main listing environ s).1 name =
      if hook.shown listing txStatsSectionName = [] then
        some (hook.attach (programName environ) (sectionName environ)) else some hook := by
  obtain ⟨iflist, hiflist, hnames⟩ : ∃ iflist, env.getCniVethInterfaces = some iflist ∧
      iflist.map Iface.ifname = env.cniNames := by
    refine ⟨_, cniInterfaces_eq henv.listId _, ?_⟩
    rw [AttachEnv.cniNames, List.filter_filter]
    congr 2
    funext iface
    rw [Bool.eq_iff_iff]
    simp only [Bool.and_eq_true, decide_eq_true_eq]
    tauto
  have hnodup : (iflist.map Iface.ifname).Nodup := by
    rw [hnames]
    exact env.nodup.sublist (List.filter_sublist.map _)
  have hmem : ∀ other, other ∈ iflist.map Iface.ifname ↔ other ∈ names := by
    intro other
    rw [hnames, ← henv.names, List.mem_toFinset]
  set targets := env.getEbpfStatsTargetInterfaces listing s iflist with htargets
  have hsublist : (targets.map Iface.ifname).Sublist (iflist.map Iface.ifname) :=
    List.filter_sublist.map _
  have htarget : name ∈ targets.map Iface.ifname ↔ hook.shown listing txStatsSectionName = [] := by
    rw [htargets, mem_targetInterfaces henv.fails listing iflist hhook,
      and_iff_right ((hmem name).mpr hname)]
  have hrun : env.main listing environ s =
      env.attachEbpfStats (programName environ) (sectionName environ) targets s := by
    rw [AttachEnv.main, hiflist]
  rw [hrun, attachEbpfStats_eq henv.fails _ _
    fun other hother ↦ hready other ((hmem other).mp (hsublist.subset hother))]
  dsimp only
  split
  · next hnothing =>
    rw [attachAll_of_nodup (hnodup.sublist hsublist) (htarget.mpr hnothing), hhook, Option.map_some]
  · next hsome => rw [attachAll_of_notMem fun hmem' ↦ hsome (htarget.mp hmem'), hhook]

/-! ## Runs -/

/-- How many filters there are after some runs: one if the first is found again, else one a run. -/
def stacked (found : Prop) [Decidable found] (count : ℕ) : ℕ := if found then min count 1 else count

/-- The interfaces after some runs: as many filters as said, all for the configured section, and a
clsact qdisc once there has been a run. -/
def Stacked (listing : Listing) (environ : List (Text × Text)) (names : Finset Text) (count : ℕ)
    (s : Interfaces) : Prop :=
  ∀ name ∈ names, ∃ hook, s name = some hook ∧ hook.qdisc ≠ some .ingress ∧
    (0 < count → hook.qdisc = some .clsact) ∧
    hook.ingress = List.replicate
      (stacked (listing.Shows txStatsSectionName
        (.bpf (programName environ) (sectionName environ))) count)
      (.bpf (programName environ) (sectionName environ))

/-- One more run. -/
theorem Stacked.main {listing : Listing} {environ : List (Text × Text)} {names : Finset Text}
    {count : ℕ} {s : Interfaces} (h : Stacked listing environ names count s) {env : AttachEnv}
    (henv : env.Succeeds names) :
    Stacked listing environ names (count + 1) (env.main listing environ s).1 := by
  have hready : ∀ name ∈ names, Ready s name := by
    intro name hname
    obtain ⟨hook, hhook, hqdisc, -⟩ := h name hname
    exact ⟨hook, hhook, hqdisc⟩
  intro name hname
  obtain ⟨hook, hhook, hqdisc, hclsact, hingress⟩ := h name hname
  rw [main_eq henv listing environ hready hname hhook]
  set filter : Filter := .bpf (programName environ) (sectionName environ) with hfilter
  have hshown : hook.shown listing txStatsSectionName = [] ↔
      ¬ (listing.Shows txStatsSectionName filter ∧ 0 < count) := by
    rw [Hook.shown, hingress, List.filter_eq_nil_iff, List.forall_mem_replicate, stacked]
    by_cases hshows : listing.Shows txStatsSectionName filter
    · rw [if_pos hshows]
      simp only [hshows, decide_true, not_true_eq_false, or_false, true_and]
      omega
    · simp [hshows]
  by_cases hfound : listing.Shows txStatsSectionName filter ∧ 0 < count
  · rw [if_neg fun hnil ↦ hshown.mp hnil hfound]
    refine ⟨hook, rfl, hqdisc, fun _ ↦ hclsact hfound.2, ?_⟩
    have hcount : min (count + 1) 1 = min count 1 := by omega
    rw [hingress, stacked, stacked, if_pos hfound.1, if_pos hfound.1, hcount]
  · rw [if_pos (hshown.mpr hfound)]
    refine ⟨_, rfl, by simp [Hook.attach], fun _ ↦ rfl, ?_⟩
    have hcount : stacked (listing.Shows txStatsSectionName filter) (count + 1) =
        stacked (listing.Shows txStatsSectionName filter) count + 1 := by
      unfold stacked
      split
      · next hshows =>
        have hzero : count = 0 := Nat.eq_zero_of_not_pos fun hpos ↦ hfound ⟨hshows, hpos⟩
        rw [hzero]
        rfl
      · rfl
    rw [hcount, List.replicate_succ', ← hingress]
    rfl

/-- The interfaces before the first run: no filter, and no qdisc in the way. -/
def Fresh (names : Finset Text) (s : Interfaces) : Prop :=
  ∀ name ∈ names, ∃ hook, s name = some hook ∧ hook.qdisc ≠ some .ingress ∧ hook.ingress = []

theorem stacked_attachRuns {listing : Listing} {environ : List (Text × Text)} {names : Finset Text}
    {runs : List AttachEnv} {s : Interfaces} (hfresh : Fresh names s)
    (hruns : ∀ env ∈ runs, env.Succeeds names) :
    Stacked listing environ names runs.length (attachRuns listing environ runs s) := by
  induction runs using List.reverseRecOn with
  | nil =>
    intro name hname
    obtain ⟨hook, hhook, hqdisc, hingress⟩ := hfresh name hname
    refine ⟨hook, hhook, hqdisc, fun h ↦ absurd h (lt_irrefl 0), ?_⟩
    rw [hingress, List.length_nil, stacked, Nat.zero_min, ite_self]
    rfl
  | append_singleton runs env ih =>
    have hbefore := ih fun env henv ↦ hruns env (List.mem_append_left _ henv)
    have hlast := hruns env (List.mem_append_right _ List.mem_cons_self)
    rw [List.length_append, List.length_singleton, attachRuns, List.foldl_concat]
    exact hbefore.main hlast

/-- One run of a node with one pod. -/
def demoAttachEnv : AttachEnv where
  interfaces := [⟨"veth0".toList, "up".toList, "veth".toList, 0⟩]
  nodup := List.nodup_singleton _
  listId := fun _ ↦ ("nsid 0 (iproute2 netns name: cni-1)\n".toList, [])
  fails := fun _ ↦ false

def demoInterfaces : Interfaces := fun name ↦
  if name = "veth0".toList then some .bare else none

theorem succeeds_demo : demoAttachEnv.Succeeds {"veth0".toList} where
  listId := fun _ ↦ rfl
  fails := fun _ ↦ rfl
  names := by decide +kernel

theorem fresh_demo : Fresh {"veth0".toList} demoInterfaces := by
  intro name hname
  rw [Finset.mem_singleton.mp hname]
  exact ⟨.bare, if_pos rfl, by simp [Hook.bare], rfl⟩

end EbpfPlayground.NetStats
