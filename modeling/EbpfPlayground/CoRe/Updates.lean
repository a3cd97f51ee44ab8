import EbpfPlayground.CoRe.Watcher

/-!
# The updates a pod asks for

What `handle_k8s_pod` does to the map is said once: a pod asks for a list of updates that does not
depend on the map, and handling it performs those before the first panic.  The later results about
the watcher start from `handleK8sPod_eq` and from `mem_podUpdates`, which says where an update
comes from.
-/

namespace EbpfPlayground.CoRe

open CString Text

/-- The successes before the first failure. -/
def okPrefix {ε α : Type} : List (Except ε α) → List α
  | .ok a :: rest => a :: okPrefix rest
  | _ => []

/-- How a loop over the attempts ends. -/
def loopOutcome {α : Type} : List (Except Panic α) → Outcome
  | [] => .ok
  | .ok _ :: rest => loopOutcome rest
  | .error cause :: _ => .panic cause

/-- One command of one container, as an attempt to write an entry. -/
def attempt (env : Env) (cid : Text) (cmd : Json) : Except Panic (UInt64 × PodCommand) :=
  match cmd.asStr with
  | some text => resizeEntry env cid text
  | none => .error .unwrap

/-- The container ids of the statuses that `cname` names. -/
def namedIds (cname : Text) (css : List ContainerStatus) : List Text :=
  (css.filter fun cs ↦ cname = cs.name).filterMap ContainerStatus.containerId

/-- Every attempt that the two loops make. -/
def attempts (env : Env) (cids : List Text) (cmds : List Json) :
    List (Except Panic (UInt64 × PodCommand)) :=
  cids.flatMap fun cid ↦ cmds.map (attempt env cid)

/-- What is left to do once the checks of `handle_k8s_pod` are passed: the container ids and the
commands, or how the function ends before its first update. -/
def request (env : Env) (p : Pod) : Except Outcome (List Text × List Json) :=
  match env.myNodeName with
  | none => .error (.panic (.expect "$MY_NODE_NAME is not set".toList))
  | some myNodeName =>
    if ∃ spec ∈ p.spec, spec.nodeName ≠ some myNodeName then .error .ok
    else
      match p.annotations.lookup annotationKey with
      | none => .error .ok
      | some text =>
        match Json.parse (serdeJson env.numberOk) text with
        | none => .error .err
        | some resizeJson =>
          match (resizeJson.index cnameKey).asStr with
          | none => .error (.panic .unwrap)
          | some cname =>
            match namedIds cname p.statuses with
            | [] => .error .ok
            | cid :: cids =>
              match (resizeJson.index commandsKey).asArr with
              | none => .error .err
              | some cmds => .ok (cid :: cids, cmds)

def podUpdates (env : Env) (p : Pod) : List (UInt64 × PodCommand) :=
  match request env p with
  | .error _ => []
  | .ok (cids, cmds) => okPrefix (attempts env cids cmds)

def podOutcome (env : Env) (p : Pod) : Outcome :=
  match request env p with
  | .error outcome => outcome
  | .ok (cids, cmds) => loopOutcome (attempts env cids cmds)

/-! ## Loops that stop at the first failure -/

theorem okPrefix_append_of_ok {α : Type} (first second : List (Except Panic α))
    (h : loopOutcome first = .ok) :
    okPrefix (first ++ second) = okPrefix first ++ okPrefix second := by
  induction first with
  | nil => rfl
  | cons a first ih =>
    cases a with
    | error cause => cases h
    | ok a => simp [okPrefix, ih h]

theorem okPrefix_append_of_panic {α : Type} (first second : List (Except Panic α))
    (h : loopOutcome first ≠ .ok) : okPrefix (first ++ second) = okPrefix first := by
  induction first with
  | nil => exact absurd rfl h
  | cons a first ih =>
    cases a with
    | error cause => rfl
    | ok a => simp [okPrefix, ih h]

theorem loopOutcome_append {α : Type} (first second : List (Except Panic α)) :
    loopOutcome (first ++ second) =
      if loopOutcome first = .ok then loopOutcome second else loopOutcome first := by
  induction first with
  | nil => simp [loopOutcome]
  | cons a first ih =>
    cases a with
    | error cause => simp [loopOutcome]
    | ok a => exact ih

theorem mem_of_mem_okPrefix {ε α : Type} {l : List (Except ε α)} {a : α} (h : a ∈ okPrefix l) :
    .ok a ∈ l := by
  induction l with
  | nil => cases h
  | cons b l ih =>
    cases b with
    | error e => cases h
    | ok b =>
      rcases List.mem_cons.mp h with rfl | hrest
      · exact List.mem_cons_self
      · exact List.mem_cons_of_mem _ (ih hrest)

/-- A loop that ends well has performed every attempt. -/
theorem map_ok_okPrefix {α : Type} {l : List (Except Panic α)} (h : loopOutcome l = .ok) :
    (okPrefix l).map .ok = l := by
  induction l with
  | nil => rfl
  | cons b l ih =>
    cases b with
    | error e => cases h
    | ok b => simpa [okPrefix] using ih h

theorem loopOutcome_eq_ok {α : Type} {l : List (Except Panic α)} :
    loopOutcome l = .ok ↔ ∀ a ∈ l, ∃ value, a = .ok value := by
  induction l with
  | nil => simp [loopOutcome]
  | cons a l ih =>
    cases a with
    | error cause => simp [loopOutcome]
    | ok a => simp [loopOutcome, ih]

theorem loopOutcome_ne_err {α : Type} (l : List (Except Panic α)) : loopOutcome l ≠ .err := by
  induction l with
  | nil => simp [loopOutcome]
  | cons a l ih => cases a <;> simp [loopOutcome, ih]

/-! ## The watcher performs them -/

theorem handleCommands_eq (env : Env) (cid : Text) (cmds : List Json) (rcMap : ResizeContainersMap) :
    handleCommands env cid cmds rcMap =
      (rcMap.putAll (okPrefix (cmds.map (attempt env cid))),
        loopOutcome (cmds.map (attempt env cid))) := by
  induction cmds generalizing rcMap with
  | nil => rfl
  | cons cmd cmds ih =>
    cases htext : cmd.asStr with
    | none => simp [handleCommands, attempt, htext, okPrefix, loopOutcome]
    | some text =>
      cases hentry : resizeEntry env cid text with
      | error cause =>
        simp [handleCommands, createResizeBpfMapEntry, attempt, htext, hentry, okPrefix, loopOutcome]
      | ok entry =>
        simp [handleCommands, createResizeBpfMapEntry, attempt, htext, hentry, okPrefix, loopOutcome,
          ih]

theorem namedIds_cons (cname : Text) (cs : ContainerStatus) (css : List ContainerStatus) :
    namedIds cname (cs :: css) =
      (if cname = cs.name then cs.containerId.toList else []) ++ namedIds cname css := by
  by_cases h : cname = cs.name
  · cases hid : cs.containerId <;> simp [namedIds, h, hid]
  · simp [namedIds, h]

/-- Where `commands` is no list, the first named status with an id ends the loop. -/
theorem handleStatuses_of_not_list (env : Env) (cname : Text) (resizeJson : Json)
    (css : List ContainerStatus) (rcMap : ResizeContainersMap)
    (h : (resizeJson.index commandsKey).asArr = none) :
    handleStatuses env cname resizeJson css rcMap =
      (rcMap, if namedIds cname css = [] then .ok else .err) := by
  induction css with
  | nil => rfl
  | cons cs css ih =>
    rw [handleStatuses, namedIds_cons]
    by_cases hname : cname = cs.name
    · rw [if_pos hname, if_pos hname]
      cases cs.containerId with
      | none => exact ih
      | some cid => simp [h]
    · rw [if_neg hname, if_neg hname]
      exact ih

theorem handleStatuses_of_list (env : Env) (cname : Text) (resizeJson : Json)
    (css : List ContainerStatus) (rcMap : ResizeContainersMap) (cmds : List Json)
    (h : (resizeJson.index commandsKey).asArr = some cmds) :
    handleStatuses env cname resizeJson css rcMap =
      (rcMap.putAll (okPrefix (attempts env (namedIds cname css) cmds)),
        loopOutcome (attempts env (namedIds cname css) cmds)) := by
  induction css generalizing rcMap with
  | nil => rfl
  | cons cs css ih =>
    rw [handleStatuses, namedIds_cons]
    by_cases hname : cname = cs.name
    · rw [if_pos hname, if_pos hname]
      cases cs.containerId with
      | none => exact ih rcMap
      | some cid =>
        have hids : attempts env ((some cid).toList ++ namedIds cname css) cmds =
            cmds.map (attempt env cid) ++ attempts env (namedIds cname css) cmds := rfl
        rw [hids, loopOutcome_append]
        simp only [h, handleCommands_eq]
        cases houtcome : loopOutcome (cmds.map (attempt env cid)) with
        | ok => simp [okPrefix_append_of_ok _ _ houtcome, BoundedMap.putAll_append, ih]
        | err => exact absurd houtcome (loopOutcome_ne_err _)
        | panic cause =>
          have hne : loopOutcome (cmds.map (attempt env cid)) ≠ .ok := by simp [houtcome]
          simp [okPrefix_append_of_panic _ _ hne]
    · rw [if_neg hname, if_neg hname]
      exact ih rcMap

/-- Handling a pod performs the updates it asks for. -/
theorem handleK8sPod_eq (env : Env) (p : Pod) (rcMap : ResizeContainersMap) :
    handleK8sPod env p rcMap = (rcMap.putAll (podUpdates env p), podOutcome env p) := by
  unfold handleK8sPod podUpdates podOutcome request
  cases env.myNodeName with
  | none => rfl
  | some myNodeName =>
    by_cases hnode : ∃ spec ∈ p.spec, spec.nodeName ≠ some myNodeName
    · simp only [if_pos hnode]
      rfl
    simp only [if_neg hnode]
    cases p.annotations.lookup annotationKey with
    | none => rfl
    | some text =>
      dsimp only
      cases Json.parse (serdeJson env.numberOk) text with
      | none => rfl
      | some resizeJson =>
        dsimp only
        cases (resizeJson.index cnameKey).asStr with
        | none => rfl
        | some cname =>
          dsimp only
          calc
            _ = handleStatuses env cname resizeJson p.statuses rcMap := by
              unfold Pod.statuses
              cases p.status with
              | none => rfl
              | some status => cases hcss : status.containerStatuses <;> simp [hcss, handleStatuses]
            _ = _ := by
              cases hcmds : (resizeJson.index commandsKey).asArr with
              | none =>
                rw [handleStatuses_of_not_list _ _ _ _ _ hcmds]
                cases namedIds cname p.statuses <;> rfl
              | some cmds =>
                rw [handleStatuses_of_list _ _ _ _ _ _ hcmds]
                cases namedIds cname p.statuses <;> rfl

/-! ## Where an update comes from -/

theorem mem_namedIds {cname cid : Text} {css : List ContainerStatus} :
    cid ∈ namedIds cname css ↔ ∃ cs ∈ css, cs.name = cname ∧ cs.containerId = some cid := by
  simp only [namedIds, List.mem_filterMap, List.mem_filter, decide_eq_true_eq]
  exact ⟨fun ⟨cs, ⟨hmem, hname⟩, hid⟩ ↦ ⟨cs, hmem, hname.symm, hid⟩,
    fun ⟨cs, hmem, hname, hid⟩ ↦ ⟨cs, ⟨hmem, hname.symm⟩, hid⟩⟩

/-- A request passes every check of `handle_k8s_pod`. -/
theorem request_eq_ok {env : Env} {p : Pod} {cids : List Text} {cmds : List Json} :
    request env p = .ok (cids, cmds) ↔
      p.OnNode env ∧ (∃ cname, p.cname env = some cname ∧ namedIds cname p.statuses = cids) ∧
        cids ≠ [] ∧ p.commands env = some cmds := by
  unfold request Pod.OnNode Pod.cname Pod.commands Pod.resizeJson
  cases env.myNodeName with
  | none => simp
  | some myNodeName =>
    simp only [Option.some.injEq, exists_eq_left']
    by_cases hnode : ∃ spec ∈ p.spec, spec.nodeName ≠ some myNodeName
    · have hoff : ¬ ∀ spec ∈ p.spec, spec.nodeName = some myNodeName := by simpa using hnode
      rw [if_pos hnode]
      exact iff_of_false (by simp) fun h ↦ hoff h.1
    have hon : ∀ spec ∈ p.spec, spec.nodeName = some myNodeName := by simpa using hnode
    rw [if_neg hnode, and_iff_right hon]
    cases p.annotations.lookup annotationKey with
    | none => simp
    | some text =>
      simp only [Option.bind_some]
      cases Json.parse (serdeJson env.numberOk) text with
      | none => simp
      | some resizeJson =>
        simp only [Option.bind_some]
        cases (resizeJson.index cnameKey).asStr with
        | none => simp
        | some cname =>
          simp only [Option.some.injEq, exists_eq_left']
          cases hids : namedIds cname p.statuses with
          | nil => simpa using fun h h' ↦ absurd h h'
          | cons cid rest =>
            cases (resizeJson.index commandsKey).asArr with
            | none => simp
            | some list =>
              simp only [Except.ok.injEq, Prod.mk.injEq, Option.some.injEq]
              exact ⟨fun h ↦ ⟨h.1, h.1 ▸ List.cons_ne_nil cid rest, h.2⟩, fun h ↦ ⟨h.1, h.2.2⟩⟩

theorem attempt_eq_ok {env : Env} {cid : Text} {cmd : Json} {entry : UInt64 × PodCommand} :
    attempt env cid cmd = .ok entry ↔
      ∃ text, cmd = .str text ∧ containerCgroupId env cid = .ok entry.1 ∧
        ofBytes bufSize (asBytes text) = some entry.2 := by
  unfold attempt resizeEntry
  cases cmd with
  | str text =>
    simp only [Json.asStr, Json.str.injEq, exists_eq_left']
    cases hgroup : containerCgroupId env cid with
    | error cause => simp [bind, Except.bind]
    | ok cgroupIdKey =>
      cases hvalue : ofBytes bufSize (asBytes text) with
      | none => simp [bind, Except.bind]
      | some value => simp [bind, Except.bind, Prod.ext_iff]
  | _ => simp [Json.asStr]

/-- The pod asks for an entry under this cgroup id with this C string: it is on this node, its
annotation names one of its containers, that container has the cgroup id, and the string is one of
the listed commands. -/
def Requests (env : Env) (p : Pod) (cgroupId : UInt64) (command : List UInt8) : Prop :=
  p.OnNode env ∧
    (∃ cs ∈ p.statuses, p.cname env = some cs.name ∧
      ∃ cid, cs.containerId = some cid ∧ containerCgroupId env cid = .ok cgroupId) ∧
    ∃ text, p.Lists env text ∧ cstr (asBytes text) = command

theorem requests_of_mem_podUpdates {env : Env} {p : Pod} {entry : UInt64 × PodCommand}
    (h : entry ∈ podUpdates env p) : Requests env p entry.1 (cstr entry.2.toList) := by
  unfold podUpdates at h
  cases hrequest : request env p with
  | error outcome => simp [hrequest] at h
  | ok found =>
    obtain ⟨cids, cmds⟩ := found
    obtain ⟨hnode, ⟨cname, hcname, hids⟩, -, hcmds⟩ := request_eq_ok.mp hrequest
    rw [hrequest] at h
    have hattempt := mem_of_mem_okPrefix h
    simp only [attempts, List.mem_flatMap, List.mem_map] at hattempt
    obtain ⟨cid, hcid, cmd, hcmd, hok⟩ := hattempt
    obtain ⟨text, rfl, hgroup, hvalue⟩ := attempt_eq_ok.mp hok
    rw [← hids] at hcid
    obtain ⟨cs, hcs, hname, hid⟩ := mem_namedIds.mp hcid
    exact ⟨hnode, ⟨cs, hcs, hname.symm ▸ hcname, cid, hid, hgroup⟩, text,
      ⟨cmds, hcmds, hcmd⟩, (cstr_ofBytes hvalue).symm⟩

/-! ## Pods that are handled without a failure -/

/-- The annotation is well formed and this is the cgroup id of a container that it names: `cname` is
a string, the named containers that have an id have a cgroup, and `commands` is a non-empty list of
strings that fit the buffer. -/
structure WellFormed (env : Env) (p : Pod) (cgroupId : UInt64) : Prop where
  onNode : p.OnNode env
  named : ∃ cname, p.cname env = some cname ∧
    (∃ cid ∈ namedIds cname p.statuses, containerCgroupId env cid = .ok cgroupId) ∧
    ∀ cid ∈ namedIds cname p.statuses, ∃ other, containerCgroupId env cid = .ok other
  listed : ∃ cmds : List Text, p.commands env = some (cmds.map .str) ∧ cmds ≠ [] ∧
    ∀ cmd ∈ cmds, (asBytes cmd).length ≤ bufSize

/-- The attempts that do not fail: a string that fits, for a container that has a cgroup. -/
theorem exists_attempt_eq_ok {env : Env} {cid : Text} {cmd : Json} :
    (∃ entry, attempt env cid cmd = .ok entry) ↔
      (∃ cgroupId, containerCgroupId env cid = .ok cgroupId) ∧
        ∃ text, cmd = .str text ∧ (asBytes text).length ≤ bufSize := by
  constructor
  · rintro ⟨⟨cgroupId, value⟩, hentry⟩
    obtain ⟨text, htext, hgroup, hvalue⟩ := attempt_eq_ok.mp hentry
    exact ⟨⟨cgroupId, hgroup⟩, text, htext, (ofBytes_eq_some.mp hvalue).1⟩
  · rintro ⟨⟨cgroupId, hgroup⟩, text, htext, hlength⟩
    obtain ⟨value, hvalue⟩ := Option.isSome_iff_exists.mp (isSome_ofBytes.mpr hlength)
    exact ⟨(cgroupId, value), attempt_eq_ok.mpr ⟨text, htext, hgroup, hvalue⟩⟩

theorem mem_attempts {env : Env} {cids : List Text} {cmds : List Json}
    {result : Except Panic (UInt64 × PodCommand)} :
    result ∈ attempts env cids cmds ↔ ∃ cid ∈ cids, ∃ cmd ∈ cmds, attempt env cid cmd = result := by
  simp only [attempts, List.mem_flatMap, List.mem_map]

theorem mem_okPrefix_of_ok {α : Type} {l : List (Except Panic α)} (h : loopOutcome l = .ok) {a : α} :
    a ∈ okPrefix l ↔ .ok a ∈ l := by
  constructor
  · exact mem_of_mem_okPrefix
  · intro hmem
    rw [← map_ok_okPrefix h, List.mem_map] at hmem
    obtain ⟨b, hb, heq⟩ := hmem
    cases heq
    exact hb

theorem WellFormed.request {env : Env} {p : Pod} {cgroupId : UInt64}
    (h : WellFormed env p cgroupId) :
    ∃ cids, ∃ cmds : List Text, request env p = .ok (cids, cmds.map .str) ∧
      p.commands env = some (cmds.map .str) ∧ cmds ≠ [] ∧
      (∃ cid ∈ cids, containerCgroupId env cid = .ok cgroupId) ∧
      loopOutcome (attempts env cids (cmds.map .str)) = .ok := by
  obtain ⟨cname, hcname, ⟨cid, hcid, hgroup⟩, hall⟩ := h.named
  obtain ⟨cmds, hcmds, hne, hfits⟩ := h.listed
  refine ⟨namedIds cname p.statuses, cmds, ?_, hcmds, hne, ⟨cid, hcid, hgroup⟩, ?_⟩
  · exact request_eq_ok.mpr
      ⟨h.onNode, ⟨cname, hcname, rfl⟩, List.ne_nil_of_mem hcid, hcmds⟩
  · rw [loopOutcome_eq_ok]
    intro result hresult
    obtain ⟨other, hother, cmd, hcmd, rfl⟩ := mem_attempts.mp hresult
    obtain ⟨text, htext, rfl⟩ := List.mem_map.mp hcmd
    exact exists_attempt_eq_ok.mpr ⟨hall other hother, text, rfl, hfits text htext⟩

/-- Handling a well-formed pod ends well. -/
theorem WellFormed.podOutcome {env : Env} {p : Pod} {cgroupId : UInt64}
    (h : WellFormed env p cgroupId) : podOutcome env p = .ok := by
  obtain ⟨cids, cmds, hrequest, -, -, -, hok⟩ := h.request
  rw [CoRe.podOutcome, hrequest]
  exact hok

/-- A well-formed pod asks for an entry of its container. -/
theorem WellFormed.mem_podUpdates {env : Env} {p : Pod} {cgroupId : UInt64}
    (h : WellFormed env p cgroupId) : cgroupId ∈ (podUpdates env p).map Prod.fst := by
  obtain ⟨cids, cmds, hrequest, -, hne, ⟨cid, hcid, hgroup⟩, hok⟩ := h.request
  obtain ⟨text, rest, rfl⟩ := List.exists_cons_of_ne_nil hne
  have hattempt : attempt env cid (.str text) ∈ attempts env cids ((text :: rest).map .str) :=
    mem_attempts.mpr ⟨cid, hcid, .str text, List.mem_cons_self, rfl⟩
  obtain ⟨entry, hentry⟩ := loopOutcome_eq_ok.mp hok _ hattempt
  have hkey : entry.1 = cgroupId := by
    obtain ⟨-, -, hother, -⟩ := attempt_eq_ok.mp hentry
    rw [hgroup] at hother
    cases hother
    rfl
  rw [List.mem_map]
  refine ⟨entry, ?_, hkey⟩
  rw [podUpdates, hrequest]
  exact (mem_okPrefix_of_ok hok).mpr (hentry ▸ hattempt)

/-- A pod of the demo is well formed where its annotation lists strings that fit. -/
theorem wellFormed_demoPod {annotations : List (Text × Text)} {cid : Text} (cmds : List Text)
    {cgroupId : UInt64} (hcname : (demoPod annotations cid).cname demoEnv = some "ctr".toList)
    (hcmds : (demoPod annotations cid).commands demoEnv = some (cmds.map .str))
    (hgroup : containerCgroupId demoEnv ("containerd://".toList ++ cid) = .ok cgroupId)
    (hne : cmds ≠ []) (hfits : ∀ cmd ∈ cmds, (asBytes cmd).length ≤ bufSize) :
    WellFormed demoEnv (demoPod annotations cid) cgroupId := by
  have hids : namedIds "ctr".toList (demoPod annotations cid).statuses =
      ["containerd://".toList ++ cid] := rfl
  refine ⟨⟨"node1".toList, rfl, by rintro spec ⟨⟩; rfl⟩, ⟨_, hcname, ?_, ?_⟩, ⟨cmds, hcmds, hne, hfits⟩⟩
  · exact ⟨_, hids ▸ List.mem_cons_self, hgroup⟩
  · intro other hother
    rw [hids, List.mem_singleton] at hother
    exact ⟨_, hother ▸ hgroup⟩

end EbpfPlayground.CoRe
