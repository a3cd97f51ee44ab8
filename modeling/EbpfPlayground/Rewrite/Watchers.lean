import EbpfPlayground.Bcc.Turns
import EbpfPlayground.CoRe.Triggers

/-!
# The rewrite and the original

The CO-RE daemon is the rewrite of the BCC daemon.  Both are given the same pod on the same node,
each as its own client decodes it, and start from the same entries.  The original writes the first
command for the first container; the rewrite writes the last command for every container that
`cname` names.
-/

namespace EbpfPlayground.Rewrite

open CString Python Text

/-- A container that is ready and started, with the inode of its cgroup directory. -/
structure RunningContainer where
  name : Text
  runtime : Text
  id : Text
  cgroup : ℕ

/-- A pod that is not being deleted and whose containers are all running. -/
structure RunningPod where
  ns : Text
  name : Text
  nodeName : Text
  annotations : List (Text × Text)
  specContainers : List Bcc.V1Container
  containers : List RunningContainer

def RunningContainer.containerId (c : RunningContainer) : Text :=
  c.runtime ++ [':'] ++ '/' :: '/' :: c.id

/-- The key of the map. -/
def RunningContainer.key (c : RunningContainer) : UInt64 := UInt64.ofNat c.cgroup

/-- The pod as the Rust client decodes it. -/
def RunningPod.pod (k : RunningPod) : CoRe.Pod where
  ns := k.ns
  name := k.name
  annotations := k.annotations
  spec := some ⟨some k.nodeName⟩
  status := some ⟨some (k.containers.map fun c ↦ ⟨c.name, some c.containerId⟩)⟩

/-- The pod as the Python client decodes it. -/
def RunningPod.v1Pod (k : RunningPod) : Bcc.V1Pod where
  ns := k.ns
  name := k.name
  deletionTimestamp := none
  annotations := some k.annotations
  containers := k.specContainers
  containerStatuses :=
    some (k.containers.map fun c ↦ ⟨c.name, some c.containerId, true, some true⟩)

/-- What the two daemons get from outside their own code. -/
structure Node where
  env : CoRe.Env
  watchEnv : Bcc.WatchEnv

def unifiedRoot : Text := "/sys/fs/cgroup/unified/kubepods".toList

def legacyRoot : Text := "/sys/fs/cgroup/kubepods".toList

/-- `find` prints this for the container, to both daemons. -/
structure Node.Finds (node : Node) (root id output : Text) : Prop where
  env : node.env.find root id = some (asBytes output)
  watchEnv : node.watchEnv.find root id = output

/-- The container has one directory, and `ls` prints its inode to both daemons. -/
structure Node.Locates (node : Node) (c : RunningContainer) (path : Text) : Prop where
  path_ne : path ≠ []
  noSpace : ∀ char ∈ path, isSpace char = false
  find : node.Finds unifiedRoot c.id (path ++ ['\n']) ∨
    node.Finds unifiedRoot c.id [] ∧ node.Finds legacyRoot c.id (path ++ ['\n'])
  ls : ∃ rest, node.env.ls path = some (asBytes (decimal c.cgroup ++ ' ' :: rest))
  lsAwk : node.watchEnv.ls path = decimal c.cgroup ++ ['\n']

/-- The node runs this pod: both daemons get the pod and find its containers. -/
structure Node.Runs (node : Node) (k : RunningPod) : Prop where
  name_ne : k.name ≠ []
  myNodeName : node.env.myNodeName = some k.nodeName
  readNamespacedPod : node.watchEnv.readNamespacedPod k.name (stripQuotes k.ns) = some k.v1Pod
  containerId : ∀ c ∈ k.containers, '/' ∉ c.runtime ∧ '/' ∉ c.id
  cgroup_lt : ∀ c ∈ k.containers, c.cgroup < 2 ^ 31
  locates : ∀ c ∈ k.containers, ∃ path, node.Locates c path
  /-- `json.loads` reads whatever `serde_json` reads. -/
  decoders : 127 ≤ node.watchEnv.py.recursionLimit ∧
    ∀ literal, node.env.numberOk literal = true → node.watchEnv.py.numberOk literal = true

/-- The annotation has this string `cname` and these `commands`, none of them empty. -/
structure Asks (node : Node) (k : RunningPod) (cname : Text) (cmds : List Text) : Prop where
  value : ∃ text members, k.annotations.lookup "ebpf-resize".toList = some text ∧
    jsonLoads node.watchEnv.py text = .ok (.obj members) ∧
    members.lookup "cname".toList = some (.str cname) ∧
    members.lookup "commands".toList = some (.arr (cmds.map .str))
  fits : ∀ cmd ∈ cmds, cmd ≠ [] ∧ (asBytes cmd).length ≤ 32 ∧ 0 ∉ asBytes cmd

/-- The rewrite writes this key: its decoder reads the annotation, and `cname` names the container. -/
def Writes (node : Node) (k : RunningPod) (cname : Text) (key : UInt64) : Prop :=
  (k.pod.resizeJson node.env).isSome ∧ ∃ c ∈ k.containers, c.name = cname ∧ c.key = key

/-- Both daemons handle the pod, and the same entries are left. -/
def SameTriggers (node : Node) (type : Text) (k : RunningPod) (rcMap : CoRe.ResizeContainersMap)
    (rcMap' : Bcc.ResizeContainersMap) : Prop :=
  ∃ after, Bcc.watchStep rcMap' (node.watchEnv, ⟨type, k.v1Pod⟩) = some after ∧
    ∀ key, (CoRe.handleK8sPod node.env k.pod rcMap).1.lookup key = after.lookup key

/-- The original can print the command and has bytes for it. -/
structure Takes (watchEnv : Bcc.WatchEnv) (cmd : Text) : Prop where
  printable : Bcc.Printable watchEnv (.str cmd)
  encodes : ∀ char ∈ cmd, watchEnv.py.isSurrogate char = false

/-- The original takes its command; what only one of the daemons writes is there already, and what both
write is the same. -/
structure SameChoice (node : Node) (k : RunningPod) (cname : Text) (cmds : List Text)
    (hne : cmds ≠ []) (rcMap : CoRe.ResizeContainersMap) : Prop where
  takes : k.containers ≠ [] → Takes node.watchEnv (cmds.head hne)
  both : ∀ c ∈ k.containers.head?, Writes node k cname c.key → cmds.head hne = cmds.getLast hne
  original : ∀ c ∈ k.containers.head?, ¬ Writes node k cname c.key →
    rcMap.lookup c.key = ofBytes 32 (asBytes (cmds.head hne))
  rewrite : ∀ key, Writes node k cname key → (∀ c ∈ k.containers.head?, c.key ≠ key) →
    rcMap.lookup key = ofBytes 32 (asBytes (cmds.getLast hne))

/-! ## The cgroup directory -/

section Directory

variable {node : Node} {c : RunningContainer} {path : Text}

theorem Node.Locates.trim_path (h : node.Locates c path) : trim (path ++ ['\n']) = path := by
  refine stripBy_append (p := isWhitespace) (fun char hchar ↦ ?_) (by decide)
  have hspace := h.noSpace char hchar
  rw [isSpace, Bool.or_eq_false_iff] at hspace
  exact hspace.1

theorem Node.Locates.strip_path (h : node.Locates c path) : strip (path ++ ['\n']) = path :=
  stripBy_append h.noSpace (by decide)

theorem asBytes_ne_nil {text : Text} (h : text ≠ []) : asBytes text ≠ [] := by
  intro hnil
  exact h (asBytes_injective hnil)

theorem isSpace_of_mem_decimal {n : ℕ} {char : Char} (h : char ∈ decimal n) :
    isSpace char = false := by
  have hdigit := isDigit_of_mem_decimal h
  obtain ⟨hlow, -⟩ := Char.isDigit_iff_toNat.mp hdigit
  change 48 ≤ char.toNat at hlow
  rw [isSpace, isWhitespace_of_isDigit hdigit, Bool.false_or, Bool.and_eq_false_iff]
  right
  rw [decide_eq_false_iff_not]
  omega

theorem splitSlashes_containerId (hruntime : '/' ∉ c.runtime) (hid : '/' ∉ c.id) :
    splitSlashes c.containerId = [c.runtime ++ [':'], c.id] := by
  apply splitSlashes_append _ _ _ hid
  simpa using hruntime

/-- The first field of `ls` is the inode. -/
theorem Node.Locates.cgroupIdOf (h : node.Locates c path) (hlt : c.cgroup < 2 ^ 64) :
    CoRe.cgroupIdOf node.env c.id = .ok c.key := by
  obtain ⟨rest, hls⟩ := h.ls
  have hfield : ((decimal c.cgroup ++ ' ' :: rest).splitOn ' ').headD [] = decimal c.cgroup := by
    have hdigits : ' ' ∉ decimal c.cgroup := fun hspace ↦
      absurd (isDigit_of_mem_decimal hspace) (by decide)
    rw [List.splitOn_append_cons_self, List.splitOn_eq_singleton hdigits]
    rfl
  have hnumber : CoRe.unwrapped (u64FromStr (((decimal c.cgroup ++ ' ' :: rest).splitOn ' ').headD
      [])) = .ok c.key := by
    rw [hfield, u64FromStr_decimal hlt]
    rfl
  have hlength : (asBytes (path ++ ['\n'])).length ≠ 0 := by
    intro hzero
    exact asBytes_ne_nil (by simp) (List.length_eq_zero_iff.mp hzero)
  have hread : CoRe.unwrapped (fromUtf8 (asBytes (path ++ ['\n']))) = .ok (path ++ ['\n']) := by
    rw [fromUtf8_asBytes]
    rfl
  have hls : (CoRe.spawned (node.env.ls (trim (path ++ ['\n']))) >>= fun lsCgidOut ↦
      CoRe.unwrapped (fromUtf8 lsCgidOut) >>= fun lsCgOut ↦
        CoRe.unwrapped (u64FromStr ((lsCgOut.splitOn ' ').headD []))) = .ok c.key := by
    rw [h.trim_path, hls]
    change (CoRe.unwrapped (fromUtf8 (asBytes _)) >>= _) = _
    rw [fromUtf8_asBytes]
    exact hnumber
  rw [CoRe.cgroupIdOf]
  rcases h.find with hfound | ⟨hnone, hfound⟩
  · change (CoRe.spawned (node.env.find unifiedRoot c.id) >>= _) = _
    rw [hfound.env]
    refine (if_neg hlength).trans ?_
    rw [hread]
    exact hls
  · change (CoRe.spawned (node.env.find unifiedRoot c.id) >>= _) = _
    rw [hnone.env]
    change (CoRe.spawned (node.env.find legacyRoot c.id) >>= _) = _
    rw [hfound.env]
    change (CoRe.unwrapped (fromUtf8 (asBytes _)) >>= _) = _
    rw [hread]
    exact hls

/-- The rewrite's key of the container. -/
theorem Node.Runs.containerCgroupId {k : RunningPod} (h : node.Runs k) (hc : c ∈ k.containers) :
    CoRe.containerCgroupId node.env c.containerId = .ok c.key := by
  obtain ⟨hruntime, hid⟩ := h.containerId c hc
  obtain ⟨path, hpath⟩ := h.locates c hc
  have hlt : c.cgroup < 2 ^ 64 := (h.cgroup_lt c hc).trans (by decide)
  rw [CoRe.containerCgroupId, splitSlashes_containerId hruntime hid]
  exact hpath.cgroupIdOf hlt

/-- The original's path of the container. -/
theorem Node.Locates.cgroupPath (h : node.Locates c path) :
    Bcc.cgroupPath node.watchEnv c.id = path := by
  rw [Bcc.cgroupPath]
  change (if strip (node.watchEnv.find unifiedRoot c.id) = [] then
    strip (node.watchEnv.find legacyRoot c.id) else strip (node.watchEnv.find unifiedRoot c.id)) = _
  rcases h.find with hfound | ⟨hnone, hfound⟩
  · rw [hfound.watchEnv, h.strip_path, if_neg h.path_ne]
  · rw [hnone.watchEnv, hfound.watchEnv, h.strip_path]
    exact if_pos rfl

theorem Node.Locates.strip_ls (h : node.Locates c path) :
    strip (node.watchEnv.ls path) = decimal c.cgroup := by
  rw [h.lsAwk]
  exact stripBy_append (fun char ↦ isSpace_of_mem_decimal) (by decide)

theorem parseInt_decimal (n : ℕ) : parseInt (decimal n) = .ok n := by
  rw [parseInt, if_pos, decimalValue_decimal]
  exact ⟨decimal_ne_nil n, List.all_eq_true.mpr fun _ ↦ isDigit_of_mem_decimal⟩

theorem mapKey_cgroup {n : ℕ} (h : n < 2 ^ 31) : Bcc.mapKey n = UInt64.ofNat n := by
  symm
  rw [Bcc.eq_mapKey_iff (h.trans (by decide)), UInt64.toNat_ofNat_of_lt']
  exact h.trans (by decide)

end Directory

/-! ## What the rewrite leaves -/

section Rewritten

variable {node : Node} {k : RunningPod} {cname : Text} {cmds : List Text}
  {rcMap : CoRe.ResizeContainersMap} {key : UInt64}

/-- `json.loads` reads what `serde_json` reads. -/
theorem Node.Runs.jsonLoads (h : node.Runs k) {text : Text} {value : Json}
    (hvalue : Json.parse (CoRe.serdeJson node.env.numberOk) text = some value) :
    jsonLoads node.watchEnv.py text = .ok value := by
  have hwithin : (CoRe.serdeJson node.env.numberOk).Within node.watchEnv.py.dialect :=
    ⟨h.decoders.2, Bool.noConfusion, fun _ _ hnone ↦ nomatch hnone⟩
  rw [Python.jsonLoads, Json.parse_of_within hwithin h.decoders.1 hvalue]

/-- Where the rewrite's decoder reads the annotation, it finds the same members. -/
theorem Asks.rewrite (hasks : Asks node k cname cmds) (hruns : node.Runs k)
    (hread : (k.pod.resizeJson node.env).isSome) :
    k.pod.cname node.env = some cname ∧ k.pod.commands node.env = some (cmds.map .str) := by
  obtain ⟨json, hjson⟩ := Option.isSome_iff_exists.mp hread
  obtain ⟨text, members, htext, hloads, hcname, hcommands⟩ := hasks.value
  obtain ⟨text', htext', hparse⟩ := Option.bind_eq_some_iff.mp hjson
  obtain rfl : text = text' := Option.some.inj (htext.symm.trans htext')
  obtain rfl := Except.ok.inj ((hruns.jsonLoads hparse).symm.trans hloads)
  have hindex : ∀ {name : Text} {value : Json}, members.lookup name = some value →
      (Json.obj members).index name = value := by
    intro name value hvalue
    rw [Json.index, Json.get, hvalue]
    rfl
  constructor
  · rw [CoRe.Pod.cname, hjson, Option.bind_some]
    exact congrArg Json.asStr (hindex hcname)
  · rw [CoRe.Pod.commands, hjson, Option.bind_some]
    exact congrArg Json.asArr (hindex hcommands)

/-- A key that the rewrite does not write keeps its entry. -/
theorem lookup_of_not_writes (hruns : node.Runs k) (hasks : Asks node k cname cmds)
    (h : ¬ Writes node k cname key) :
    (CoRe.handleK8sPod node.env k.pod rcMap).1.lookup key = rcMap.lookup key := by
  rw [CoRe.handleK8sPod_eq]
  apply BoundedMap.lookup_putAll_of_notMem
  intro hmem
  obtain ⟨⟨key', value⟩, hentry, rfl⟩ := List.mem_map.mp hmem
  obtain ⟨-, ⟨cs, hcs, hcname, cid, hcid, hgroup⟩, -⟩ := CoRe.requests_of_mem_podUpdates hentry
  obtain ⟨c, hc, rfl⟩ := List.mem_map.mp hcs
  obtain rfl := Option.some.inj hcid
  have hread : (k.pod.resizeJson node.env).isSome := by
    rw [CoRe.Pod.cname] at hcname
    obtain ⟨json, hjson, -⟩ := Option.bind_eq_some_iff.mp hcname
    exact Option.isSome_iff_exists.mpr ⟨json, hjson⟩
  have hname : cname = c.name := Option.some.inj ((hasks.rewrite hruns hread).1.symm.trans hcname)
  have hkey : c.key = key' := Except.ok.inj ((hruns.containerCgroupId hc).symm.trans hgroup)
  exact h ⟨hread, c, hc, hname.symm, hkey⟩

/-- A key that it writes has the last command. -/
theorem lookup_of_writes (hruns : node.Runs k) (hasks : Asks node k cname cmds) (hne : cmds ≠ [])
    (hroom : rcMap.AcceptsAll (CoRe.podUpdates node.env k.pod)) (h : Writes node k cname key) :
    (CoRe.handleK8sPod node.env k.pod rcMap).1.lookup key =
      ofBytes 32 (asBytes (cmds.getLast hne)) := by
  obtain ⟨hread, c, hc, hname, rfl⟩ := h
  obtain ⟨hcname, hcommands⟩ := hasks.rewrite hruns hread
  have hid : c.containerId ∈ CoRe.namedIds cname k.pod.statuses :=
    CoRe.mem_namedIds.mpr ⟨_, List.mem_map.mpr ⟨c, hc, rfl⟩, hname, rfl⟩
  have hnode : k.pod.OnNode node.env := by
    refine ⟨k.nodeName, hruns.myNodeName, ?_⟩
    rintro spec ⟨⟩
    rfl
  have hrequest : CoRe.request node.env k.pod =
      .ok (CoRe.namedIds cname k.pod.statuses, cmds.map .str) :=
    CoRe.request_eq_ok.mpr ⟨hnode, ⟨cname, hcname, rfl⟩, List.ne_nil_of_mem hid, hcommands⟩
  have hok : CoRe.loopOutcome (CoRe.attempts node.env (CoRe.namedIds cname k.pod.statuses)
      (cmds.map .str)) = .ok := by
    rw [CoRe.loopOutcome_eq_ok]
    intro result hresult
    obtain ⟨cid, hcid, cmd, hcmd, rfl⟩ := CoRe.mem_attempts.mp hresult
    obtain ⟨text, htext, rfl⟩ := List.mem_map.mp hcmd
    obtain ⟨cs, hcs, -, hcsid⟩ := CoRe.mem_namedIds.mp hcid
    obtain ⟨c', hc', rfl⟩ := List.mem_map.mp hcs
    obtain rfl := Option.some.inj hcsid
    exact CoRe.exists_attempt_eq_ok.mpr
      ⟨⟨_, hruns.containerCgroupId hc'⟩, text, rfl, (hasks.fits text htext).2.1⟩
  rw [CoRe.podUpdates, hrequest] at hroom
  rw [CoRe.handleK8sPod_eq, CoRe.podUpdates, hrequest]
  obtain ⟨value, hvalue, hlookup⟩ :=
    CoRe.lookup_putAll_attempts hne hid (hruns.containerCgroupId hc) hok hroom
  exact hlookup.trans hvalue.symm

end Rewritten

/-! ## What the original leaves -/

section Original

variable {node : Node} {k : RunningPod} {cname : Text} {cmds : List Text} {type : Text}

variable (type) in
/-- The event gets to the first command with the first container. -/
theorem triggered_first (hruns : node.Runs k) (hasks : Asks node k cname cmds) (hne : cmds ≠ [])
    {c : RunningContainer} {rest : List RunningContainer} (hcontainers : k.containers = c :: rest) :
    ∃ value resizeJson, Bcc.Triggered node.watchEnv ⟨type, k.v1Pod⟩
      ⟨c.name, some c.containerId, true, some true⟩ k.v1Pod value (decimal c.cgroup) resizeJson
      (.str (cmds.head hne)) := by
  have hc : c ∈ k.containers := by
    rw [hcontainers]
    exact List.mem_cons_self
  obtain ⟨text, members, htext, hloads, -, hcommands⟩ := hasks.value
  obtain ⟨hruntime, hid⟩ := hruns.containerId c hc
  obtain ⟨path, hpath⟩ := hruns.locates c hc
  have htextne : text ≠ [] := by
    rintro rfl
    rw [jsonLoads, Json.parse_nil] at hloads
    cases hloads
  have hmembers : members ≠ [] := by
    rintro rfl
    cases hcommands
  have hcid : Bcc.cidOf (some c.containerId) = .ok c.id := by
    rw [Bcc.cidOf, splitSlashes_containerId hruntime hid]
    rfl
  refine ⟨text, .obj members, ⟨⟨⟨⟨⟨hruns.name_ne, ?_, rfl, rfl⟩, hruns.readNamespacedPod⟩,
    ⟨k.annotations, rfl, htext⟩, htextne⟩, ⟨c.id, hcid, ?_, ?_⟩, decimal_ne_nil _⟩, hloads, ?_⟩, ?_⟩
  · exact ⟨_, by rw [RunningPod.v1Pod, hcontainers, List.map_cons]⟩
  · rw [hpath.cgroupPath]
    exact hpath.path_ne
  · rw [hpath.cgroupPath, hpath.strip_ls]
  · simpa [truthy] using hmembers
  · obtain ⟨cmd, cmds, rfl⟩ := List.exists_cons_of_ne_nil hne
    have htruthy : truthy node.watchEnv.py (.str cmd) = true := by
      simpa [truthy] using (hasks.fits cmd List.mem_cons_self).1
    have hitem : getItem (.obj members) "commands".toList =
        .ok (.arr ((cmd :: cmds).map .str)) := by
      rw [getItem, hcommands]
    rw [Bcc.resizeTrigger, hitem]
    change Except.ok (if truthy node.watchEnv.py (.str cmd) = true then _ else _) = _
    rw [if_pos htruthy]
    rfl

/-- The original writes the first command for the first container, if it takes it. -/
theorem watchStep_first (htype : type = "ADDED".toList ∨ type = "MODIFIED".toList)
    (hruns : node.Runs k) (hasks : Asks node k cname cmds) (hne : cmds ≠ [])
    {c : RunningContainer} {rest : List RunningContainer} (hcontainers : k.containers = c :: rest)
    (htakes : Takes node.watchEnv (cmds.head hne))
    {rcMap : Bcc.ResizeContainersMap} (hroom : rcMap.Accepts c.key) :
    ∃ after, Bcc.watchStep rcMap (node.watchEnv, ⟨type, k.v1Pod⟩) = some after ∧
      ∀ key, after.lookup key =
        if key = c.key then ofBytes 32 (asBytes (cmds.head hne)) else rcMap.lookup key := by
  have hc : c ∈ k.containers := by
    rw [hcontainers]
    exact List.mem_cons_self
  have hkey : Bcc.mapKey c.cgroup = c.key := mapKey_cgroup (hruns.cgroup_lt c hc)
  have hadds : Bcc.WatchEvent.Adds ⟨type, k.v1Pod⟩ k.v1Pod := htype.imp id fun h ↦ ⟨h, rfl⟩
  obtain ⟨-, hfits, hnul⟩ := hasks.fits _ (List.head_mem hne)
  obtain ⟨cmd, hcmd⟩ := Option.isSome_iff_exists.mp (isSome_ofBytes.mpr hfits)
  obtain ⟨value, resizeJson, htriggered⟩ := triggered_first type hruns hasks hne hcontainers
  have hhandled : Bcc.Handled node.watchEnv ⟨type, k.v1Pod⟩ k.v1Pod (.str (cmds.head hne))
      (decimal c.cgroup) :=
    ⟨_, value, resizeJson, htriggered, htakes.printable⟩
  have hop : Bcc.watchEvent node.watchEnv ⟨type, k.v1Pod⟩ = .ok (some (.insert c.cgroup cmd)) := by
    rw [hhandled.watchEvent, Bcc.opFor_eq_insert, Bcc.resizeCmd_eq_ok, cstr_eq_self hnul]
    exact ⟨hadds, ⟨htakes.encodes, hcmd⟩, parseInt_decimal _⟩
  have hstep : Bcc.applyOp rcMap (.insert c.cgroup cmd) = some (rcMap.put c.key cmd) := by
    rw [Bcc.applyOp, hkey, BoundedMap.update_of_accepts cmd hroom]
  refine ⟨rcMap.put c.key cmd, ?_, fun key ↦ ?_⟩
  · rw [Bcc.watchStep, hop]
    exact hstep
  · rw [Bcc.lookup_applyOp_insert hstep, hkey, hcmd]

/-- If it does not, it ends. -/
theorem takes_of_watchStep (htype : type = "ADDED".toList ∨ type = "MODIFIED".toList)
    (hruns : node.Runs k) (hasks : Asks node k cname cmds) (hne : cmds ≠ [])
    {c : RunningContainer} {rest : List RunningContainer} (hcontainers : k.containers = c :: rest)
    {rcMap after : Bcc.ResizeContainersMap}
    (hstep : Bcc.watchStep rcMap (node.watchEnv, ⟨type, k.v1Pod⟩) = some after) :
    Takes node.watchEnv (cmds.head hne) := by
  have hadds : Bcc.WatchEvent.Adds ⟨type, k.v1Pod⟩ k.v1Pod := htype.imp id fun h ↦ ⟨h, rfl⟩
  have hraises := Bcc.not_raises_of_watchStep hstep
  obtain ⟨value, resizeJson, htriggered⟩ := triggered_first type hruns hasks hne hcontainers
  have hprintable : Bcc.Printable node.watchEnv (.str (cmds.head hne)) := by
    by_contra hprint
    exact hraises (Bcc.Stuck.printed _ _ _ _ _ _ htriggered hprint).raises
  refine ⟨hprintable, fun char hchar ↦ ?_⟩
  have hhandled : Bcc.Handled node.watchEnv ⟨type, k.v1Pod⟩ k.v1Pod (.str (cmds.head hne))
      (decimal c.cgroup) :=
    ⟨_, value, resizeJson, htriggered, hprintable⟩
  rw [hhandled.watchEvent, Bcc.opFor_of_adds hadds, raises_bind, not_or,
    raises_iff_not_exists, not_not] at hraises
  obtain ⟨cmd, hcmd⟩ := hraises.1
  exact (Bcc.resizeCmd_eq_ok.mp hcmd).1 char hchar

/-- Without containers it does nothing. -/
theorem watchStep_nil (hcontainers : k.containers = []) (rcMap : Bcc.ResizeContainersMap) :
    Bcc.watchStep rcMap (node.watchEnv, ⟨type, k.v1Pod⟩) = some rcMap := by
  have hnone : Bcc.watchEvent node.watchEnv ⟨type, k.v1Pod⟩ = .ok none := by
    apply Bcc.watchEvent_of_not_firstReady
    intro cs hready
    obtain ⟨css, hcss⟩ := hready.first
    rw [RunningPod.v1Pod, hcontainers] at hcss
    cases hcss
  rw [Bcc.watchStep, hnone]

end Original

/-! ## Both -/

/-- Commands without NUL are the same where their buffers are. -/
theorem eq_of_ofBytes_eq {text other : Text} (hfits : (asBytes text).length ≤ 32)
    (hnul : 0 ∉ asBytes text) (hnul' : 0 ∉ asBytes other)
    (h : ofBytes 32 (asBytes text) = ofBytes 32 (asBytes other)) : text = other := by
  obtain ⟨buffer, hbuffer⟩ := Option.isSome_iff_exists.mp (isSome_ofBytes.mpr hfits)
  have hfirst := cstr_ofBytes hbuffer
  have hsecond := cstr_ofBytes (h.symm.trans hbuffer)
  rw [cstr_eq_self hnul] at hfirst
  rw [cstr_eq_self hnul'] at hsecond
  exact asBytes_injective (hfirst.symm.trans hsecond)

section Both

variable {node : Node} {type : Text} {k : RunningPod} {cname : Text} {cmds : List Text}
  {rcMap : CoRe.ResizeContainersMap} {rcMap' : Bcc.ResizeContainersMap}

theorem sameTriggers_iff_of_watchStep {after : Bcc.ResizeContainersMap}
    (hafter : Bcc.watchStep rcMap' (node.watchEnv, ⟨type, k.v1Pod⟩) = some after) :
    SameTriggers node type k rcMap rcMap' ↔
      ∀ key, (CoRe.handleK8sPod node.env k.pod rcMap).1.lookup key = after.lookup key := by
  constructor
  · rintro ⟨after', hafter', h⟩
    obtain rfl : after = after' := Option.some.inj (hafter.symm.trans hafter')
    exact h
  · intro h
    exact ⟨after, hafter, h⟩

/-- The rewrite leaves what the original does: the first command for the first container. -/
theorem lookup_eq_first_iff (hruns : node.Runs k) (hasks : Asks node k cname cmds) (hne : cmds ≠ [])
    (htakes : Takes node.watchEnv (cmds.head hne))
    (hroom : rcMap.AcceptsAll (CoRe.podUpdates node.env k.pod)) {c : RunningContainer}
    (hhead : ∀ c', c' ∈ k.containers.head? ↔ c' = c) :
    (∀ key, (CoRe.handleK8sPod node.env k.pod rcMap).1.lookup key =
      if key = c.key then ofBytes 32 (asBytes (cmds.head hne)) else rcMap.lookup key) ↔
        SameChoice node k cname cmds hne rcMap := by
  have hwrites : ∀ key, Writes node k cname key →
      (CoRe.handleK8sPod node.env k.pod rcMap).1.lookup key =
        ofBytes 32 (asBytes (cmds.getLast hne)) := fun key h ↦
    lookup_of_writes hruns hasks hne hroom h
  have hkeeps : ∀ key, ¬ Writes node k cname key →
      (CoRe.handleK8sPod node.env k.pod rcMap).1.lookup key = rcMap.lookup key := fun key h ↦
    lookup_of_not_writes hruns hasks h
  have hfirst : c ∈ k.containers.head? := (hhead c).mpr rfl
  constructor
  · intro h
    refine ⟨fun _ ↦ htakes, fun c' hc' hwrite ↦ ?_, fun c' hc' hwrite ↦ ?_, fun key hwrite hother ↦ ?_⟩
    · obtain rfl := (hhead c').mp hc'
      have hkey := h c'.key
      rw [hwrites _ hwrite, if_pos rfl] at hkey
      obtain ⟨-, hfits, hnul⟩ := hasks.fits _ (List.head_mem hne)
      exact eq_of_ofBytes_eq hfits hnul (hasks.fits _ (List.getLast_mem hne)).2.2 hkey.symm
    · obtain rfl := (hhead c').mp hc'
      have hkey := h c'.key
      rwa [hkeeps _ hwrite, if_pos rfl] at hkey
    · have hkey := h key
      rw [hwrites _ hwrite, if_neg (Ne.symm (hother c hfirst))] at hkey
      exact hkey.symm
  · intro h key
    by_cases hwrite : Writes node k cname key
    · rw [hwrites _ hwrite]
      split
      · next hkey => rw [h.both c hfirst (hkey ▸ hwrite)]
      · next hkey =>
        refine (h.rewrite key hwrite ?_).symm
        intro c' hc' heq
        exact hkey (heq ▸ congrArg _ ((hhead c').mp hc'))
    · rw [hkeeps _ hwrite]
      split
      · next hkey =>
        rw [hkey]
        exact h.original c hfirst (hkey ▸ hwrite)
      · rfl

/-- Without containers neither daemon writes anything. -/
theorem sameChoice_of_nil (hcontainers : k.containers = []) (hne : cmds ≠ []) :
    SameChoice node k cname cmds hne rcMap := by
  have hnone : k.containers.head? = none := by rw [hcontainers, List.head?_nil]
  refine ⟨fun h ↦ absurd hcontainers h, ?_, ?_, ?_⟩
  · rw [hnone]
    exact fun c hc ↦ nomatch hc
  · rw [hnone]
    exact fun c hc ↦ nomatch hc
  · rintro key ⟨-, c, hc, -⟩
    rw [hcontainers] at hc
    cases hc

end Both

/-- From the same entries, with no update refused, both daemons leave the same entries exactly when
the original takes its command, what only one of them writes is there already, and what both write is
the same. -/
theorem sameTriggers_iff (node : Node) (type : Text) (k : RunningPod) (cname : Text)
    (cmds : List Text) (hne : cmds ≠ []) (rcMap : CoRe.ResizeContainersMap)
    (rcMap' : Bcc.ResizeContainersMap)
    (htype : type = "ADDED".toList ∨ type = "MODIFIED".toList) (hruns : node.Runs k)
    (hasks : Asks node k cname cmds) (hsame : ∀ key, rcMap.lookup key = rcMap'.lookup key)
    (hroom : rcMap.AcceptsAll (CoRe.podUpdates node.env k.pod))
    (hroom' : ∀ c ∈ k.containers.head?, rcMap'.Accepts c.key) :
    SameTriggers node type k rcMap rcMap' ↔ SameChoice node k cname cmds hne rcMap := by
  cases hcontainers : k.containers with
  | nil =>
    refine iff_of_true ?_ (sameChoice_of_nil hcontainers hne)
    rw [sameTriggers_iff_of_watchStep (watchStep_nil hcontainers rcMap')]
    intro key
    rw [← hsame]
    apply lookup_of_not_writes hruns hasks
    rintro ⟨-, c, hc, -⟩
    rw [hcontainers] at hc
    cases hc
  | cons c rest =>
    have hhead : ∀ c', c' ∈ k.containers.head? ↔ c' = c := by
      intro c'
      rw [hcontainers]
      exact Option.some_inj.trans eq_comm
    by_cases htakes : Takes node.watchEnv (cmds.head hne)
    swap
    · refine iff_of_false ?_ fun h ↦ htakes (h.takes (by simp [hcontainers]))
      rintro ⟨after, hafter, -⟩
      exact htakes (takes_of_watchStep htype hruns hasks hne hcontainers hafter)
    obtain ⟨after, hafter, hlookup⟩ := watchStep_first htype hruns hasks hne hcontainers htakes
      (hroom' c ((hhead c).mpr rfl))
    rw [sameTriggers_iff_of_watchStep hafter, ← lookup_eq_first_iff hruns hasks hne htakes hroom hhead]
    apply forall_congr'
    intro key
    rw [hlookup, hsame]

/-! ## The demo -/

/-- The pod of the demo, with these commands. -/
def demoRunning (commands : Text) : RunningPod where
  ns := "default".toList
  name := "demo".toList
  nodeName := "node1".toList
  annotations := CoRe.demoAnnotations commands
  specContainers := []
  containers := [⟨"ctr".toList, "containerd".toList, "4242".toList, 4242⟩]

def demoNode (commands : Text) : Node where
  env := CoRe.demoEnv
  watchEnv := Bcc.demoWatchEnv (some (demoRunning commands).v1Pod)

theorem runs_demo (commands : Text) : (demoNode commands).Runs (demoRunning commands) where
  name_ne := (by decide : "demo".toList ≠ [])
  myNodeName := rfl
  readNamespacedPod := rfl
  containerId := by
    intro c hc
    obtain rfl := List.mem_singleton.mp hc
    exact ⟨by decide, by decide⟩
  cgroup_lt := by
    intro c hc
    obtain rfl := List.mem_singleton.mp hc
    decide
  locates := by
    intro c hc
    obtain rfl := List.mem_singleton.mp hc
    refine ⟨unifiedRoot ++ '/' :: "4242".toList, ?_, ?_, .inl ⟨rfl, rfl⟩, ⟨['.', '\n'], ?_⟩, ?_⟩
    · decide
    · decide +kernel
    · have hls : CoRe.demoEnv.ls (unifiedRoot ++ '/' :: "4242".toList) =
          some (asBytes (decimal 4242 ++ ' ' :: ['.', '\n'])) := by
        decide +kernel
      exact hls
    · have hls : (Bcc.demoWatchEnv none).ls (unifiedRoot ++ '/' :: "4242".toList) =
          decimal 4242 ++ ['\n'] := by
        decide +kernel
      exact hls
  decoders := ⟨(by decide : 127 ≤ 1000), fun _ _ ↦ rfl⟩

theorem asks_demo (commands : Text) (cmds : List Text)
    (hvalue : jsonLoads Bcc.demoInterpreter ("\x7b\"cname\":\"ctr\",\"commands\":".toList ++
      commands ++ ",\"resize\":\"\x7b\x7d\"\x7d".toList) =
        .ok (.obj [("cname".toList, .str "ctr".toList), ("commands".toList, .arr (cmds.map .str)),
          ("resize".toList, .str ['\x7b', '\x7d'])]))
    (hfits : ∀ cmd ∈ cmds, cmd ≠ [] ∧ (asBytes cmd).length ≤ 32 ∧ 0 ∉ asBytes cmd) :
    Asks (demoNode commands) (demoRunning commands) "ctr".toList cmds where
  value := ⟨_, _, rfl, hvalue, rfl, rfl⟩
  fits := hfits

/-- One container and one command. -/
theorem sameTriggers_make :
    SameTriggers (demoNode "[\"make\"]".toList) "ADDED".toList (demoRunning "[\"make\"]".toList)
      .empty .empty := by
  have hkeys : (BoundedMap.empty : CoRe.ResizeContainersMap).keys.card = 0 := by
    rw [BoundedMap.keys_empty, Finset.card_empty]
  have hupdates : (CoRe.podUpdates (demoNode "[\"make\"]".toList).env
      (demoRunning "[\"make\"]".toList).pod).length = 1 := by
    decide +kernel
  have hread : ((demoRunning "[\"make\"]".toList).pod.resizeJson CoRe.demoEnv).isSome := by
    decide +kernel
  have hfits : ∀ cmd ∈ ["make".toList],
      cmd ≠ [] ∧ (asBytes cmd).length ≤ 32 ∧ 0 ∉ asBytes cmd := by
    decide +kernel
  refine (sameTriggers_iff _ _ _ "ctr".toList ["make".toList] (List.cons_ne_nil _ _) .empty .empty
    (.inl rfl) (runs_demo _) (asks_demo _ _ (by decide +kernel) hfits) (fun key ↦ ?_) ?_ ?_).mpr ?_
  · rw [BoundedMap.lookup_empty, BoundedMap.lookup_empty]
  · apply BoundedMap.acceptsAll_of_length_le
    rw [hkeys, hupdates]
    decide
  · intro c hc
    right
    rw [BoundedMap.keys_empty, Finset.card_empty]
    decide
  · have hwrites : ∀ c ∈ (demoRunning "[\"make\"]".toList).containers.head?,
        Writes (demoNode "[\"make\"]".toList) (demoRunning "[\"make\"]".toList) "ctr".toList c.key := by
      rintro c ⟨⟩
      exact ⟨hread, _, List.mem_cons_self, rfl, rfl⟩
    have htakes : Takes (demoNode "[\"make\"]".toList).watchEnv "make".toList :=
      ⟨fun _ _ ↦ rfl, by decide +kernel⟩
    refine ⟨fun _ ↦ htakes, fun c hc hwrite ↦ rfl, fun c hc hnot ↦ absurd (hwrites c hc) hnot, ?_⟩
    rintro key ⟨-, c, hc, -, rfl⟩ hother
    obtain rfl := List.mem_singleton.mp hc
    exact absurd rfl (hother _ rfl)

/-- Of two commands the rewrite leaves the second one, the original the first. -/
theorem sameTriggers_counterexample :
    ∃ node k cmds, node.Runs k ∧ Asks node k "ctr".toList cmds ∧
      ¬ SameTriggers node "ADDED".toList k .empty .empty := by
  have hfits : ∀ cmd ∈ ["make".toList, "gcc".toList],
      cmd ≠ [] ∧ (asBytes cmd).length ≤ 32 ∧ 0 ∉ asBytes cmd := by
    decide +kernel
  refine ⟨demoNode "[\"make\",\"gcc\"]".toList, demoRunning "[\"make\",\"gcc\"]".toList,
    ["make".toList, "gcc".toList], runs_demo _, asks_demo _ _ (by decide +kernel) hfits, ?_⟩
  rintro ⟨after, hafter, hlookup⟩
  have hrewrite : (CoRe.handleK8sPod CoRe.demoEnv (demoRunning "[\"make\",\"gcc\"]".toList).pod
      .empty).1.lookup 4242 = ofBytes 32 (asBytes "gcc".toList) := by
    decide +kernel
  have horiginal : (Bcc.watchStep .empty ((demoNode "[\"make\",\"gcc\"]".toList).watchEnv,
      ⟨"ADDED".toList, (demoRunning "[\"make\",\"gcc\"]".toList).v1Pod⟩)).map
        (fun rcMap ↦ rcMap.lookup 4242) = some (ofBytes 32 (asBytes "make".toList)) := by
    decide +kernel
  rw [hafter, Option.map_some, Option.some.injEq, ← hlookup 4242] at horiginal
  have hne : ofBytes 32 (asBytes "gcc".toList) ≠ ofBytes 32 (asBytes "make".toList) := by
    decide +kernel
  exact hne (hrewrite.symm.trans horiginal)

end EbpfPlayground.Rewrite
