import EbpfPlayground.Foundation.Name
import EbpfPlayground.NetStats.Attach
import EbpfPlayground.NetStats.AttachScript

/-!
# The two attachers on one host

The Python program takes the veth interfaces that are up and whose peer is in a namespace with `cni-` in
its name.  The script takes every line of `ip` that has `cni-` anywhere, and the name that it cuts out of
it.  Where no command fails, the two leave the same behind exactly where they come to the same interfaces,
as far as these have no statistics filter yet.
-/

namespace EbpfPlayground.NetStats

open Shell Python Text

/-! ## The host -/

/-- A veth interface whose peer is in another network namespace. -/
structure Link where
  index : ℕ
  name : Text
  up : Bool
  linkNetnsid : ℕ
  /-- What `ip` prints between the name and the namespace. -/
  between : Text
  /-- What `ip` prints behind the namespace. -/
  behind : Text
  /-- The kernel allows no blank in a name. -/
  plain : Plain name

/-- The veth interfaces of a host, and the names of the namespaces that have one. -/
structure LinkTable where
  links : List Link
  nodup : (links.map Link.name).Nodup
  netns : ℕ → Option Text

/-- What `ndb.interfaces.dump()` says of it. -/
def Link.iface (link : Link) : Iface :=
  ⟨link.name, if link.up then "up".toList else "down".toList, "veth".toList, link.linkNetnsid⟩

namespace LinkTable

variable (t : LinkTable)

/-- The line that `ip -o -d link show type veth` prints. -/
def line (link : Link) : Text :=
  decimal link.index ++ ": ".toList ++ link.name ++ '@' :: (link.between ++
    (match t.netns link.linkNetnsid with
    | some netns => " link-netns ".toList ++ netns
    | none => " link-netnsid ".toList ++ decimal link.linkNetnsid) ++ link.behind)

/-- What the Python program gets; no command fails. -/
def attachEnv : AttachEnv where
  interfaces := t.links.map Link.iface
  nodup := by
    rw [List.map_map]
    exact t.nodup
  listId := fun nsid ↦ ("nsid ".toList ++ decimal nsid ++ (match t.netns nsid with
    | some netns => " (iproute2 netns name: ".toList ++ netns ++ ")\n".toList
    | none => " \n".toList), [])
  fails := fun _ ↦ false

/-- One run of the Python program with the default names.  Its commands go through a shell, which reads
the name in them as the name `sh` gives. -/
def python (sh : Text → Text) (listing : Listing) (s : Interfaces) : Interfaces × Option PyError :=
  match t.attachEnv.getCniVethInterfaces with
  | none => (s, none)
  | some iflist =>
    let read := iflist.map fun iface ↦ { iface with ifname := sh iface.ifname }
    t.attachEnv.attachEbpfStats txStatsProgramName txStatsSectionName
      (t.attachEnv.getEbpfStatsTargetInterfaces listing s read) s

/-- A name that the shell leaves alone is the program's own. -/
theorem python_id (listing : Listing) (s : Interfaces) :
    t.python id listing s = t.attachEnv.main listing [] s := by
  have hid : ∀ iflist : List Iface,
      (iflist.map fun iface ↦ ({ iface with ifname := id iface.ifname } : Iface)) = iflist :=
    fun iflist ↦ List.map_id iflist
  rw [python, AttachEnv.main]
  cases t.attachEnv.getCniVethInterfaces with
  | none => rfl
  | some iflist =>
    dsimp only
    rw [hid]
    rfl

/-- The interfaces that the Python program's commands are about. -/
def pythonDevices (sh : Text → Text) : List Text :=
  (t.links.filter fun link ↦ link.up &&
    (t.netns link.linkNetnsid).any (contains "cni-".toList)).map fun link ↦ sh link.name

/-- The interfaces that the script's commands are about: the lines with `cni-`, and of each the name up to
an `@`, as the shell expands it. -/
def scriptDevices (env : ScriptEnv) : List Text :=
  ((t.links.filter fun link ↦ contains "cni-".toList (t.line link)).flatMap fun link ↦
    env.expand (link.name.takeWhile (· ≠ '@'))).filterMap env.device

end LinkTable

/-- Nothing but the run happens, and no command fails, unless it adds a clsact qdisc that is there. -/
def Action.Unfailing (env : ScriptEnv) (s : ScriptState) : Action → Prop
  | .filterShow word => ∃ name ∈ env.device word, s.interfaces name ≠ none
  | .qdiscAdd word ok => ok = true ∨
    ∃ name ∈ env.device word, ∃ hook ∈ s.interfaces name, hook.qdisc = some .clsact
  | .filterAdd _ ok => ok = true
  | .finish => True
  | .start _ | .appear _ _ | .vanish _ => False

/-- A whole run of the script in which no command fails. -/
structure ScriptRun (t : LinkTable) (env : ScriptEnv) (s s' : Interfaces) (during : List Action) :
    Prop where
  run : Run.run (step env) ⟨s, .idle⟩ (.start (t.links.map t.line) :: during) = some ⟨s', .idle⟩
  unfailing : Run.Meets (step env) (Action.Unfailing env)
    ⟨s, .next (env.loopWords (t.links.map t.line))⟩ during

/-- No command of the Python program fails: its interfaces are there, and none that gets a filter has
another qdisc in the way. -/
def PythonSucceeds (t : LinkTable) (env : ScriptEnv) (sh : Text → Text) (s : Interfaces) : Prop :=
  ∀ name ∈ t.pythonDevices sh, ∃ hook, s name = some hook ∧
    (env.stats hook = [] → hook.qdisc ≠ some .ingress)

/-- Every interface without a statistics filter is chosen once by both or by none. -/
def SameChoice (t : LinkTable) (env : ScriptEnv) (sh : Text → Text) (s : Interfaces) : Prop :=
  ∀ name hook, s name = some hook → env.stats hook = [] →
    (t.pythonDevices sh).count name = if name ∈ t.scriptDevices env then 1 else 0

variable {env : ScriptEnv}

/-! ## A run of the script -/

theorem lists_line (t : LinkTable) (link : Link) : Lists (t.line link) link.name :=
  ⟨link.plain, decimal link.index, _, (isName_decimal link.index).plain, rfl⟩

/-- The loop comes to the script's interfaces. -/
theorem filterMap_loopWords (t : LinkTable) (env : ScriptEnv) :
    (env.loopWords (t.links.map t.line)).filterMap env.device = t.scriptDevices env := by
  have hfields : ∀ chosen : List Link, (chosen.map t.line).map ScriptEnv.nameField =
      chosen.map fun link ↦ link.name.takeWhile (· ≠ '@') := by
    intro chosen
    rw [List.map_map]
    exact List.map_congr_left fun link _ ↦ nameField_eq_takeWhile (lists_line t link)
  have hgrep : grep "cni-".toList (t.links.map t.line) =
      (t.links.filter fun link ↦ contains "cni-".toList (t.line link)).map t.line := by
    rw [grep, List.filter_map]
    rfl
  have hwords : env.loopWords (t.links.map t.line) =
      (t.links.filter fun link ↦ contains "cni-".toList (t.line link)).flatMap fun link ↦
        env.expand (link.name.takeWhile (· ≠ '@')) := by
    calc
      env.loopWords (t.links.map t.line)
          = (((grep "cni-".toList (t.links.map t.line)).map ScriptEnv.nameField).flatMap words).flatMap
              env.glob := by
        rw [ScriptEnv.loopWords, ScriptEnv.expand, words_commandSubst, words_stdout]
      _ = (((t.links.filter fun link ↦ contains "cni-".toList (t.line link)).map fun link ↦
              link.name.takeWhile (· ≠ '@')).flatMap words).flatMap env.glob := by
        rw [hgrep, hfields]
      _ = _ := by
        rw [List.flatMap_map, List.flatMap_assoc]
        rfl
  rw [hwords, LinkTable.scriptDevices]

/-- One filter more, if there is no statistics filter. -/
def ScriptEnv.attachOnce (env : ScriptEnv) (hook : Hook) : Hook :=
  if env.stats hook = [] then hook.attach txStatsProgramName txStatsSectionName else hook

theorem stats_attach_ne_nil (hook : Hook) :
    env.stats (hook.attach txStatsProgramName txStatsSectionName) ≠ [] := by
  have hingress : (hook.attach txStatsProgramName txStatsSectionName).ingress =
      hook.ingress ++ [.bpf txStatsProgramName txStatsSectionName] := rfl
  rw [stats_attach hingress]
  exact List.concat_ne_nil _ _

theorem attachOnce_attachOnce (hook : Hook) :
    env.attachOnce (env.attachOnce hook) = env.attachOnce hook := by
  by_cases hstats : env.stats hook = []
  · have hattach : env.attachOnce hook = hook.attach txStatsProgramName txStatsSectionName := if_pos hstats
    rw [hattach]
    exact if_neg (stats_attach_ne_nil hook)
  · have hself : env.attachOnce hook = hook := if_neg hstats
    rw [hself, hself]

/-- The interfaces with this one attached. -/
def ScriptEnv.attachAt (env : ScriptEnv) (s : Interfaces) (name : Text) : Interfaces :=
  Function.update s name ((s name).map env.attachOnce)

theorem foldl_attachAt (names : List Text) (s : Interfaces) (name : Text) :
    names.foldl env.attachAt s name = if name ∈ names then (s name).map env.attachOnce else s name := by
  induction names generalizing s with
  | nil => rfl
  | cons first names ih =>
    rw [List.foldl_cons, ih, ScriptEnv.attachAt]
    by_cases hfirst : name = first
    · have htwice : env.attachOnce ∘ env.attachOnce = env.attachOnce := funext attachOnce_attachOnce
      rw [hfirst, Function.update_self, if_pos (List.mem_cons_self (a := first)), Option.map_map, htwice,
        ite_self]
    · rw [Function.update_of_ne hfirst]
      simp only [List.mem_cons, or_iff_right hfirst]

/-- What is left to do ends with these interfaces. -/
def Leads (env : ScriptEnv) (s' : Interfaces) (s : ScriptState) : Prop :=
  match s.pc with
  | .idle => s' = s.interfaces
  | .next rest => s' = (rest.filterMap env.device).foldl env.attachAt s.interfaces
  | .qdisc word rest => ∃ name hook, env.device word = some name ∧ s.interfaces name = some hook ∧
      env.stats hook = [] ∧ s' = (rest.filterMap env.device).foldl env.attachAt
        (Function.update s.interfaces name (some (hook.attach txStatsProgramName txStatsSectionName)))
  | .filter word rest => ∃ name hook, env.device word = some name ∧ s.interfaces name = some hook ∧
      hook.qdisc = some .clsact ∧ s' = (rest.filterMap env.device).foldl env.attachAt
        (Function.update s.interfaces name (some (hook.attach txStatsProgramName txStatsSectionName)))

theorem leads_step {s' : Interfaces} {t u : ScriptState} {a : Action} (h : Leads env s' t)
    (ha : a.Unfailing env t) (hstep : step env t a = some u) : Leads env s' u := by
  cases a with
  | start output => cases ha
  | filterShow word =>
    obtain ⟨rest, hpc, rfl⟩ := step_filterShow.mp hstep
    obtain ⟨name, hname, hexists⟩ := ha
    obtain ⟨hook, hhook⟩ := Option.ne_none_iff_exists'.mp hexists
    rw [Leads, hpc] at h
    dsimp only at h
    rw [List.filterMap_cons_some hname, List.foldl_cons, ScriptEnv.attachAt, hhook, Option.map_some] at h
    rw [hname, Option.bind_some, hhook]
    by_cases hstats : hook.shown env.listing txStatsSectionName = []
    · rw [if_pos (grep_tcFilterShow_eq_nil.mpr hstats)]
      have hattach : env.attachOnce hook = hook.attach txStatsProgramName txStatsSectionName :=
        if_pos hstats
      exact ⟨name, hook, hname, hhook, hstats, hattach ▸ h⟩
    · rw [if_neg fun hnothing ↦ hstats (grep_tcFilterShow_eq_nil.mp hnothing)]
      have hself : env.attachOnce hook = hook := if_neg hstats
      rw [hself, Function.update_eq_self_iff.mpr hhook.symm] at h
      exact h
  | qdiscAdd word ok =>
    obtain ⟨rest, interfaces, hpc, hdevice, rfl⟩ := step_qdiscAdd.mp hstep
    rw [Leads, hpc] at h
    obtain ⟨name, hook, hname, hhook, -, h⟩ := h
    rcases onDevice_eq_some.mp hdevice with ⟨rfl, rfl⟩ | ⟨-, device, added, hdev, hadd, rfl⟩
    · rcases ha with hok | ⟨name', hname', hook', hhook', hqdisc⟩
      · cases hok
      · obtain rfl : name = name' := Option.some.inj (hname.symm.trans hname')
        obtain rfl : hook = hook' := Option.some.inj (hhook.symm.trans hhook')
        exact ⟨name, hook, hname, hhook, hqdisc, h⟩
    · obtain rfl : name = device := Option.some.inj (hname.symm.trans hdev)
      obtain ⟨old, hold, -, hqdisc, hingress⟩ := tcQdiscAdd_eq_some.mp hadd
      obtain rfl : hook = old := Option.some.inj (hhook.symm.trans hold)
      have hattach : added.attach txStatsProgramName txStatsSectionName =
          hook.attach txStatsProgramName txStatsSectionName := by
        rw [Hook.ext_iff]
        exact ⟨rfl, congrArg (· ++ _) hingress⟩
      refine ⟨name, added, hname, Function.update_self _ _ _, hqdisc, ?_⟩
      rw [Function.update_idem, hattach]
      exact h
  | filterAdd word ok =>
    obtain ⟨rest, interfaces, hpc, hdevice, rfl⟩ := step_filterAdd.mp hstep
    rw [Leads, hpc] at h
    obtain ⟨name, hook, hname, hhook, hqdisc, h⟩ := h
    obtain rfl : ok = true := ha
    obtain ⟨hok, -⟩ | ⟨-, device, added, hdev, hadd, rfl⟩ := onDevice_eq_some.mp hdevice
    · cases hok
    · obtain rfl : name = device := Option.some.inj (hname.symm.trans hdev)
      rw [hhook, tcFilterAdd_eq_attach _ _ hqdisc rfl, Option.some_inj] at hadd
      rw [hadd] at h
      exact h
  | finish =>
    obtain ⟨hpc, rfl⟩ := step_finish.mp hstep
    rw [Leads, hpc] at h
    exact h
  | appear name qdisc => cases ha
  | vanish name => cases ha

/-- The script attaches once to each of its interfaces, and changes no other. -/
theorem ScriptRun.apply_eq {t : LinkTable} {s s' : Interfaces} {during : List Action}
    (h : ScriptRun t env s s' during) (name : Text) :
    s' name = if name ∈ t.scriptDevices env then (s name).map env.attachOnce else s name := by
  obtain ⟨u, hu, hrest⟩ := Option.bind_eq_some_iff.mp h.run
  obtain ⟨-, rfl⟩ := step_start.mp hu
  set final := (t.scriptDevices env).foldl env.attachAt s with hfinal
  have hinit : Leads env final ⟨s, .next (env.loopWords (t.links.map t.line))⟩ := by
    rw [hfinal, ← filterMap_loopWords]
    rfl
  have hleads : Leads env final ⟨s', .idle⟩ :=
    Run.invariant_of_meets hinit (fun _ _ _ hs ha hstep ↦ leads_step hs ha hstep) h.unfailing hrest
  obtain rfl : final = s' := hleads
  rw [hfinal, foldl_attachAt]

/-! ## A run of the Python program -/

theorem contains_strip {needle : Text} (hne : needle ≠ []) (hspace : ∀ c ∈ needle, isSpace c = false)
    (text : Text) : contains needle (strip text) = contains needle text := by
  have hreverse : ∀ c ∈ needle.reverse, isSpace c = false :=
    fun c hc ↦ hspace c (List.mem_reverse.mp hc)
  calc
    contains needle (strip text)
        = contains needle.reverse ((text.dropWhile isSpace).reverse.dropWhile isSpace) := by
      rw [strip, stripBy, ← contains_reverse, List.reverse_reverse]
    _ = contains needle.reverse (text.dropWhile isSpace).reverse :=
      contains_dropWhile (List.reverse_ne_nil_iff.mpr hne) hreverse _
    _ = contains needle (text.dropWhile isSpace) := contains_reverse _ _
    _ = contains needle text := contains_dropWhile hne hspace _

/-- What `ip netns list-id` prints contains `cni-` exactly where the namespace's name does. -/
theorem contains_listId (t : LinkTable) (nsid : ℕ) :
    contains "cni-".toList (strip (t.attachEnv.listId nsid).1) =
      (t.netns nsid).any (contains "cni-".toList) := by
  have hdash : '-' ∈ "cni-".toList := by decide
  have hdigits : '-' ∉ decimal nsid := fun hmem ↦ absurd (isDigit_of_mem_decimal hmem) (by decide)
  rw [contains_strip (by decide) (by decide), LinkTable.attachEnv]
  dsimp only
  cases hnetns : t.netns nsid with
  | none =>
    refine contains_eq_false_of_notMem hdash ?_
    rw [List.mem_append, List.mem_append, not_or, not_or]
    exact ⟨⟨by decide, hdigits⟩, by decide⟩
  | some netns =>
    have hbefore : contains "cni-".toList ("nsid ".toList ++ decimal nsid ++
        " (iproute2 netns name:".toList) = false := by
      refine contains_eq_false_of_notMem hdash ?_
      rw [List.mem_append, List.mem_append, not_or, not_or]
      exact ⟨⟨by decide, hdigits⟩, by decide⟩
    have hbehind : contains "cni-".toList ['\n'] = false := by decide
    have htext : "nsid ".toList ++ decimal nsid ++ (" (iproute2 netns name: ".toList ++ netns ++
        ")\n".toList) = "nsid ".toList ++ decimal nsid ++ " (iproute2 netns name:".toList ++
          ' ' :: (netns ++ ')' :: ['\n']) := by
      simp
    rw [htext, Bool.eq_iff_iff, contains_append_cons (by decide), hbefore,
      contains_append_cons (by decide), hbehind]
    simp

/-- The chosen interfaces, under the names that the shell gives them. -/
theorem exists_getCniVethInterfaces (t : LinkTable) (sh : Text → Text) :
    ∃ iflist, t.attachEnv.getCniVethInterfaces = some iflist ∧
      (iflist.map fun iface ↦ ({ iface with ifname := sh iface.ifname } : Iface)).map Iface.ifname =
        t.pythonDevices sh := by
  have hlistId : ∀ nsid, strip (t.attachEnv.listId nsid).2 = [] := fun _ ↦ rfl
  refine ⟨_, cniInterfaces_eq hlistId _, ?_⟩
  have hinterfaces : t.attachEnv.interfaces = t.links.map Link.iface := rfl
  rw [LinkTable.pythonDevices, hinterfaces, List.filter_filter, List.filter_map, List.map_map, List.map_map]
  refine congrArg (List.map _) (List.filter_congr fun link _ ↦ ?_)
  have hstate : (link.iface.state = "up".toList ∧ link.iface.kind = "veth".toList) ↔ link.up = true := by
    have hveth : link.iface.kind = "veth".toList := rfl
    rw [and_iff_left hveth]
    change (if link.up then "up".toList else "down".toList) = "up".toList ↔ link.up = true
    cases link.up <;> decide
  simp only [Function.comp_apply, contains_listId, hstate, Bool.decide_eq_true, Bool.and_comm]
  rfl

/-- The program adds a filter for each time that an interface without a statistics filter is chosen. -/
theorem PythonSucceeds.apply_eq {t : LinkTable} {sh : Text → Text} {s : Interfaces}
    (h : PythonSucceeds t env sh s) (name : Text) :
    (t.python sh env.listing s).1 name = (s name).map fun hook ↦ if env.stats hook = [] then
      (Hook.attach txStatsProgramName txStatsSectionName)^[(t.pythonDevices sh).count name] hook
    else hook := by
  have hfails : ∀ command, t.attachEnv.fails command = false := fun _ ↦ rfl
  obtain ⟨iflist, hiflist, hnames⟩ := exists_getCniVethInterfaces t sh
  rw [LinkTable.python, hiflist]
  dsimp only
  set targets := t.attachEnv.getEbpfStatsTargetInterfaces env.listing s
    (iflist.map fun iface ↦ ({ iface with ifname := sh iface.ifname } : Iface)) with htargets
  have hmap : targets.map Iface.ifname = (t.pythonDevices sh).filter fun name ↦
      grep txStatsSectionName (tcFilterShow env.listing (s name)) = [] := by
    rw [htargets, map_targetInterfaces hfails, hnames]
  have hready : ∀ other ∈ targets.map Iface.ifname, Ready s other := by
    intro other hother
    rw [hmap, List.mem_filter, decide_eq_true_eq] at hother
    obtain ⟨found, hfound, hqdisc⟩ := h other hother.1
    rw [hfound, grep_tcFilterShow_eq_nil] at hother
    exact ⟨found, hfound, hqdisc hother.2⟩
  rw [attachEbpfStats_eq hfails _ _ hready]
  dsimp only
  cases hhook : s name with
  | none => rw [attachAll, hhook, Option.map_none, Option.map_none]
  | some hook =>
    by_cases hstats : env.stats hook = []
    · have hcount : (targets.map Iface.ifname).count name = (t.pythonDevices sh).count name := by
        rw [hmap]
        apply List.count_filter
        rw [decide_eq_true_eq, hhook]
        exact grep_tcFilterShow_eq_nil.mpr hstats
      rw [Option.map_some, if_pos hstats, attachAll, hcount, hhook, Option.map_some]
    · have hnot : name ∉ targets.map Iface.ifname := by
        rw [hmap, List.mem_filter, decide_eq_true_eq, hhook, grep_tcFilterShow_eq_nil]
        exact fun hmem ↦ hstats hmem.2
      rw [Option.map_some, if_neg hstats, attachAll_of_notMem hnot, hhook]

/-! ## The comparison -/

theorem length_ingress_iterate (count : ℕ) (hook : Hook) :
    ((Hook.attach txStatsProgramName txStatsSectionName)^[count] hook).ingress.length =
      hook.ingress.length + count := by
  induction count with
  | zero => rfl
  | succ count ih =>
    rw [Function.iterate_succ_apply', Hook.attach, List.length_append, ih]
    rfl

/-- The two leave the same qdisc and the same filters everywhere exactly where every interface without a
statistics filter is chosen once by both or by none. -/
theorem attachersAgree_iff (t : LinkTable) (env : ScriptEnv) (sh : Text → Text) (s s' : Interfaces)
    (during : List Action) (hscript : ScriptRun t env s s' during) (hpython : PythonSucceeds t env sh s) :
    s' = (t.python sh env.listing s).1 ↔ SameChoice t env sh s := by
  have hequal : ∀ {name hook}, s name = some hook → env.stats hook = [] →
      (s' name = (t.python sh env.listing s).1 name ↔
        (t.pythonDevices sh).count name = if name ∈ t.scriptDevices env then 1 else 0) := by
    intro name hook hhook hstats
    have hleft : s' name = some ((Hook.attach txStatsProgramName txStatsSectionName)^[
        if name ∈ t.scriptDevices env then 1 else 0] hook) := by
      have hattach : env.attachOnce hook = hook.attach txStatsProgramName txStatsSectionName :=
        if_pos hstats
      rw [hscript.apply_eq, hhook, Option.map_some, hattach]
      split <;> rfl
    rw [hleft, hpython.apply_eq, hhook, Option.map_some, if_pos hstats, Option.some_inj]
    refine ⟨fun h ↦ ?_, fun h ↦ by rw [h]⟩
    have hlength := congrArg (fun hook : Hook ↦ hook.ingress.length) h
    simp only [length_ingress_iterate] at hlength
    exact (Nat.add_left_cancel hlength).symm
  constructor
  · intro h name hook hhook hstats
    exact (hequal hhook hstats).mp (congrFun h name)
  · intro h
    funext name
    cases hhook : s name with
    | none =>
      rw [hscript.apply_eq, hpython.apply_eq, hhook, Option.map_none, Option.map_none, ite_self]
    | some hook =>
      by_cases hstats : env.stats hook = []
      · exact (hequal hhook hstats).mpr (h name hook hhook hstats)
      · have hself : env.attachOnce hook = hook := if_neg hstats
        rw [hscript.apply_eq, hpython.apply_eq, hhook, Option.map_some, Option.map_some, if_neg hstats,
          hself, ite_self]

/-! ## Names that no shell changes -/

/-- The names are one word to both shells, and the `cut` of the script keeps them. -/
structure LiteralNames (t : LinkTable) (env : ScriptEnv) (sh : Text → Text) : Prop where
  at_notMem : ∀ link ∈ t.links, '@' ∉ link.name
  glob : ∀ link ∈ t.links, env.glob link.name = [link.name]
  sh : ∀ link ∈ t.links, sh link.name = link.name

section Literal

variable {t : LinkTable} {sh : Text → Text}

/-- The script comes to the interfaces whose lines have `cni-`. -/
theorem scriptDevices_of_literal (h : LiteralNames t env sh) :
    t.scriptDevices env =
      (t.links.filter fun link ↦ contains "cni-".toList (t.line link)).map Link.name := by
  set chosen := t.links.filter fun link ↦ contains "cni-".toList (t.line link) with hchosen
  have hexpand : ∀ link ∈ chosen, env.expand (link.name.takeWhile (· ≠ '@')) = [link.name] := by
    intro link hlink
    have hmem : link ∈ t.links := (List.mem_filter.mp hlink).1
    rw [← nameField_eq_takeWhile (lists_line t link),
      nameField_of_lists (lists_line t link) (h.at_notMem link hmem), ScriptEnv.expand,
      link.plain.words, List.flatMap_singleton, h.glob link hmem]
  have hdevice : ∀ link ∈ chosen, (env.device ∘ Link.name) link = (some ∘ Link.name) link :=
    fun link hlink ↦ device_eq_self link.plain (h.glob link (List.mem_filter.mp hlink).1)
  calc
    t.scriptDevices env = (chosen.flatMap fun link ↦ [link.name]).filterMap env.device := by
      rw [LinkTable.scriptDevices, List.flatMap_congr hexpand]
    _ = chosen.filterMap (env.device ∘ Link.name) := by
      rw [← List.map_eq_flatMap, List.filterMap_map]
    _ = chosen.map Link.name := by
      rw [List.filterMap_congr hdevice, List.filterMap_eq_map]

/-- An interface is among those that meet a condition only if it meets it itself. -/
theorem name_mem_map_filter (t : LinkTable) (p : Link → Bool) {link : Link} (hlink : link ∈ t.links) :
    link.name ∈ (t.links.filter p).map Link.name ↔ p link = true := by
  constructor
  · intro h
    obtain ⟨other, hother, hname⟩ := List.mem_map.mp h
    obtain ⟨hmem, hp⟩ := List.mem_filter.mp hother
    rwa [List.inj_on_of_nodup_map t.nodup hlink hmem hname.symm]
  · exact fun hp ↦ List.mem_map_of_mem (List.mem_filter.mpr ⟨hlink, hp⟩)

/-- The choice is the same where every interface without a statistics filter has `cni-` in its line exactly
if it is up and in a namespace with `cni-` in its name. -/
theorem sameChoice_iff_of_literal (h : LiteralNames t env sh) {s : Interfaces} :
    SameChoice t env sh s ↔ ∀ link ∈ t.links, ∀ hook ∈ s link.name, env.stats hook = [] →
      (contains "cni-".toList (t.line link) = true ↔
        link.up = true ∧ (t.netns link.linkNetnsid).any (contains "cni-".toList) = true) := by
  set chosen := t.links.filter fun link ↦ link.up &&
    (t.netns link.linkNetnsid).any (contains "cni-".toList) with hchosen
  have hpython : t.pythonDevices sh = chosen.map Link.name :=
    List.map_congr_left fun link hlink ↦ h.sh link (List.mem_filter.mp hlink).1
  have hnodup : (chosen.map Link.name).Nodup := t.nodup.sublist (List.filter_sublist.map _)
  have hchoice : ∀ name, ((t.pythonDevices sh).count name = if name ∈ t.scriptDevices env then 1 else 0) ↔
      (name ∈ (t.links.filter fun link ↦ contains "cni-".toList (t.line link)).map Link.name ↔
        name ∈ chosen.map Link.name) := by
    intro name
    rw [hpython, hnodup.count, ← scriptDevices_of_literal h]
    by_cases hmem : name ∈ chosen.map Link.name <;> by_cases hscript : name ∈ t.scriptDevices env <;>
      simp [hmem, hscript]
  simp only [SameChoice, hchoice]
  constructor
  · intro hsame link hlink hook hhook hstats
    have hlink' := hsame link.name hook hhook hstats
    rwa [name_mem_map_filter t _ hlink, hchosen, name_mem_map_filter t _ hlink, Bool.and_eq_true] at hlink'
  · intro hlinks name hook hhook hstats
    by_cases hname : name ∈ t.links.map Link.name
    · obtain ⟨link, hlink, rfl⟩ := List.mem_map.mp hname
      rw [name_mem_map_filter t _ hlink, hchosen, name_mem_map_filter t _ hlink, Bool.and_eq_true]
      exact hlinks link hlink hook hhook hstats
    · have hnot : ∀ p : Link → Bool, name ∉ (t.links.filter p).map Link.name :=
        fun p hmem ↦ hname ((List.filter_sublist.map _).subset hmem)
      exact iff_of_false (hnot _) (hnot _)

end Literal

/-! ## The demo -/

/-- One interface. -/
def demoLinkTable (name : Text) (hname : Plain name) (up : Bool) (netns : Option Text) : LinkTable where
  links := [⟨5, name, up, 0, "if2: <BROADCAST> mtu 1500".toList, [], hname⟩]
  nodup := List.nodup_singleton _
  netns := fun _ ↦ netns

/-- The commands for an interface that has no clsact qdisc and no filter. -/
def attachActions (name : Text) : List Action :=
  [.filterShow name, .qdiscAdd name true, .filterAdd name true, .finish]

/-- Where the run gets to its end, none of its commands fails. -/
theorem scriptRun_demo {t : LinkTable} {name : Text} (hname : Plain name)
    (hend : (Run.run (step demoScriptEnv) ⟨oneInterface name, .idle⟩
      (.start (t.links.map t.line) :: attachActions name)).map ScriptState.pc = some .idle) :
    ∃ s', ScriptRun t demoScriptEnv (oneInterface name) s' (attachActions name) := by
  have hdevice : demoScriptEnv.device name = some name := device_eq_self hname rfl
  have hself : oneInterface name name ≠ none := by
    rw [oneInterface, if_pos rfl]
    exact Option.some_ne_none _
  obtain ⟨⟨s', pc⟩, hrun, hpc⟩ := Option.map_eq_some_iff.mp hend
  obtain rfl : pc = .idle := hpc
  exact ⟨s', hrun, ⟨name, hdevice, hself⟩, fun _ _ ↦ ⟨.inl rfl, fun _ _ ↦ ⟨rfl, fun _ _ ↦
    ⟨trivial, fun _ _ ↦ trivial⟩⟩⟩⟩

theorem pythonSucceeds_demo {name : Text} (hname : Plain name) {up : Bool} {netns : Option Text} :
    PythonSucceeds (demoLinkTable name hname up netns) demoScriptEnv id (oneInterface name) := by
  intro other hother
  obtain ⟨link, hlink, rfl⟩ := List.mem_map.mp hother
  obtain rfl := List.mem_singleton.mp (List.mem_filter.mp hlink).1
  exact ⟨.bare, if_pos rfl, fun _ ↦ by decide⟩

theorem plain_veth0 : Plain "veth0".toList := ⟨by decide, by decide⟩

/-- An interface that is up, with a peer in the namespace `cni-1`; the shells leave its name alone. -/
theorem agree_veth0 :
    ∃ s', ScriptRun (demoLinkTable "veth0".toList plain_veth0 true (some "cni-1".toList)) demoScriptEnv
        (oneInterface "veth0".toList) s' (attachActions "veth0".toList) ∧
      s' = ((demoLinkTable "veth0".toList plain_veth0 true (some "cni-1".toList)).attachEnv.main
        demoScriptEnv.listing [] (oneInterface "veth0".toList)).1 := by
  obtain ⟨s', hscript⟩ := scriptRun_demo
    (t := demoLinkTable "veth0".toList plain_veth0 true (some "cni-1".toList)) plain_veth0 (by decide +kernel)
  have hpython : PythonSucceeds (demoLinkTable "veth0".toList plain_veth0 true (some "cni-1".toList))
      demoScriptEnv id (oneInterface "veth0".toList) :=
    pythonSucceeds_demo plain_veth0
  refine ⟨s', hscript, ?_⟩
  rw [← LinkTable.python_id]
  refine (attachersAgree_iff _ demoScriptEnv id _ s' _ hscript hpython).mpr
    ((sameChoice_iff_of_literal ⟨?_, ?_, ?_⟩).mpr ?_)
  · decide +kernel
  · exact fun _ _ ↦ rfl
  · exact fun _ _ ↦ rfl
  · intro link hlink _ _ _
    obtain rfl := List.mem_singleton.mp hlink
    decide +kernel

/-- From an interface without a qdisc, runs in which no command fails leave different results. -/
def Disagree (t : LinkTable) (name : Text) : Prop :=
  ∃ s', ScriptRun t demoScriptEnv (oneInterface name) s' (attachActions name) ∧
    PythonSucceeds t demoScriptEnv id (oneInterface name) ∧
      s' ≠ (t.python id demoScriptEnv.listing (oneInterface name)).1

theorem disagree_demo {name : Text} (hname : Plain name) {up : Bool} {netns : Option Text}
    (hend : (Run.run (step demoScriptEnv) ⟨oneInterface name, .idle⟩
      (.start ((demoLinkTable name hname up netns).links.map (demoLinkTable name hname up netns).line) ::
        attachActions name)).map ScriptState.pc = some .idle)
    (hscript : name ∈ (demoLinkTable name hname up netns).scriptDevices demoScriptEnv)
    (hpython : name ∉ (demoLinkTable name hname up netns).pythonDevices id) :
    Disagree (demoLinkTable name hname up netns) name := by
  obtain ⟨s', hrun⟩ := scriptRun_demo hname hend
  have hsucceeds : PythonSucceeds (demoLinkTable name hname up netns) demoScriptEnv id
      (oneInterface name) := pythonSucceeds_demo hname
  refine ⟨s', hrun, hsucceeds, fun hsame ↦ ?_⟩
  have hself : oneInterface name name = some .bare := if_pos rfl
  have hleft := hrun.apply_eq name
  rw [if_pos hscript, hsame, hsucceeds.apply_eq, List.count_eq_zero_of_not_mem hpython, hself] at hleft
  exact absurd (congrArg (Option.map fun hook : Hook ↦ hook.ingress.length) hleft) (by decide +kernel)

/-- Of an interface that is down with a peer in the namespace `cni-1`, and of one called `cni-a` whose
peer's namespace has no name, the script attaches to both and the program to none. -/
theorem agree_counterexample :
    Disagree (demoLinkTable "veth0".toList plain_veth0 false (some "cni-1".toList)) "veth0".toList ∧
      Disagree (demoLinkTable "cni-a".toList ⟨by decide, by decide⟩ true none) "cni-a".toList :=
  ⟨disagree_demo plain_veth0 (by decide +kernel) (by decide +kernel) (by decide +kernel),
    disagree_demo ⟨by decide, by decide⟩ (by decide +kernel) (by decide +kernel) (by decide +kernel)⟩

end EbpfPlayground.NetStats
