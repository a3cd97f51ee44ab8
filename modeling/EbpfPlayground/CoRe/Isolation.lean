import EbpfPlayground.CoRe.Daemon

/-!
# What stops the watcher

The loop of `load_ebpf_tracer_and_watch_k8s_pods` drops the results of `handle_k8s_pod`, but a panic
under it ends the loop, and an `Err` item of the stream makes the function return.  The inputs that
do so are listed; without them the loop reads the whole stream and every well-formed pod gets its
entry.
-/

namespace EbpfPlayground.CoRe

open CString Text

/-- `while let Some(pod) = podstream.try_next().await?`, with what the outside world answers in each
turn. -/
def watchLoop : List (Env × StreamItem) → ResizeContainersMap → ResizeContainersMap × Outcome
  | [], rcMap => (rcMap, .ok)
  | (_, .error) :: _, rcMap => (rcMap, .err)
  | (env, .pod p) :: rest, rcMap =>
    match handleK8sPod env p rcMap with
    | (rcMap', .panic cause) => (rcMap', .panic cause)
    | (rcMap', _) => watchLoop rest rcMap'

/-! ## The inputs that stop it -/

/-- The pods on which `handle_k8s_pod` panics. -/
inductive Aborts (env : Env) (p : Pod) : Prop where
  /-- `$MY_NODE_NAME` is not set. -/
  | nodeName (hname : env.myNodeName = none)
  /-- The annotation is JSON without a string under `cname`. -/
  | cname (hnode : p.OnNode env) (resizeJson : Json) (hjson : p.resizeJson env = some resizeJson)
      (hcname : (resizeJson.index cnameKey).asStr = none)
  /-- There is a command for a container whose id or cgroup cannot be read. -/
  | container (hnode : p.OnNode env) (cname cid : Text) (cmds : List Json)
      (hcname : p.cname env = some cname) (hcid : cid ∈ namedIds cname p.statuses)
      (hcmds : p.commands env = some cmds) (hne : cmds ≠ [])
      (hgroup : ∀ cgroupId, containerCgroupId env cid ≠ .ok cgroupId)
  /-- There is a container for a command that is no string or does not fit the buffer. -/
  | command (hnode : p.OnNode env) (cname cid : Text) (cmds : List Json) (cmd : Json)
      (hcname : p.cname env = some cname) (hcid : cid ∈ namedIds cname p.statuses)
      (hcmds : p.commands env = some cmds) (hcmd : cmd ∈ cmds)
      (hlength : ∀ text, cmd = .str text → bufSize < (asBytes text).length)

/-- The loop goes on after this item. -/
def Harmless : Env × StreamItem → Prop
  | (_, .error) => False
  | (env, .pod p) => ¬ Aborts env p

/-- The checks of `handle_k8s_pod` panic without the node's name and without a string `cname`. -/
theorem request_eq_panic {env : Env} {p : Pod} :
    (∃ cause, request env p = .error (.panic cause)) ↔
      env.myNodeName = none ∨ p.OnNode env ∧ ∃ resizeJson, p.resizeJson env = some resizeJson ∧
        (resizeJson.index cnameKey).asStr = none := by
  unfold request Pod.OnNode Pod.resizeJson
  cases env.myNodeName with
  | none => simp
  | some myNodeName =>
    simp only [reduceCtorEq, false_or, Option.some.injEq, exists_eq_left']
    by_cases hnode : ∃ spec ∈ p.spec, spec.nodeName ≠ some myNodeName
    · have hoff : ¬ ∀ spec ∈ p.spec, spec.nodeName = some myNodeName := by simpa using hnode
      rw [if_pos hnode]
      exact iff_of_false (by simp) fun h ↦ hoff h.1
    have hon : ∀ spec ∈ p.spec, spec.nodeName = some myNodeName := by simpa using hnode
    rw [if_neg hnode, and_iff_right hon]
    cases p.annotations.lookup annotationKey with
    | none => simp
    | some text =>
      simp only [Option.bind_some]
      cases Json.parse (serdeJson env.numberOk) text with
      | none => simp
      | some resizeJson =>
        simp only [Option.some.injEq, exists_eq_left']
        cases (resizeJson.index cnameKey).asStr with
        | none => simp
        | some cname =>
          simp only [reduceCtorEq, iff_false]
          cases namedIds cname p.statuses with
          | nil => simp
          | cons cid rest => cases (resizeJson.index commandsKey).asArr <;> simp

/-- One attempt that fails makes the loop over all of them panic. -/
theorem podOutcome_of_failed_attempt {env : Env} {p : Pod} {cname cid : Text} {cmds : List Json}
    (hnode : p.OnNode env) (hcname : p.cname env = some cname)
    (hcid : cid ∈ namedIds cname p.statuses) (hcmds : p.commands env = some cmds) {cmd : Json}
    (hcmd : cmd ∈ cmds) (hno : ∀ entry, attempt env cid cmd ≠ .ok entry) :
    ∃ cause, podOutcome env p = .panic cause := by
  have hrequest : request env p = .ok (namedIds cname p.statuses, cmds) :=
    request_eq_ok.mpr ⟨hnode, ⟨cname, hcname, rfl⟩, List.ne_nil_of_mem hcid, hcmds⟩
  rw [podOutcome, hrequest]
  cases hloop : loopOutcome (attempts env (namedIds cname p.statuses) cmds) with
  | ok =>
    obtain ⟨entry, hentry⟩ :=
      loopOutcome_eq_ok.mp hloop _ (mem_attempts.mpr ⟨cid, hcid, cmd, hcmd, rfl⟩)
    exact absurd hentry (hno entry)
  | err => exact absurd hloop (loopOutcome_ne_err _)
  | panic cause => exact ⟨cause, hloop⟩

theorem Aborts.podOutcome_eq_panic {env : Env} {p : Pod} (h : Aborts env p) :
    ∃ cause, podOutcome env p = .panic cause := by
  cases h with
  | nodeName hname =>
    obtain ⟨cause, hrequest⟩ := request_eq_panic.mpr (.inl hname)
    exact ⟨cause, by rw [podOutcome, hrequest]⟩
  | cname hnode resizeJson hjson hcname =>
    obtain ⟨cause, hrequest⟩ := request_eq_panic.mpr (.inr ⟨hnode, resizeJson, hjson, hcname⟩)
    exact ⟨cause, by rw [podOutcome, hrequest]⟩
  | container hnode cname cid cmds hcname hcid hcmds hne hgroup =>
    obtain ⟨cmd, hcmd⟩ := List.exists_mem_of_ne_nil cmds hne
    apply podOutcome_of_failed_attempt hnode hcname hcid hcmds hcmd
    intro entry hentry
    obtain ⟨cgroupId, h⟩ := (exists_attempt_eq_ok.mp ⟨entry, hentry⟩).1
    exact hgroup cgroupId h
  | command hnode cname cid cmds cmd hcname hcid hcmds hcmd hlength =>
    apply podOutcome_of_failed_attempt hnode hcname hcid hcmds hcmd
    intro entry hentry
    obtain ⟨-, text, htext, hfits⟩ := exists_attempt_eq_ok.mp ⟨entry, hentry⟩
    exact absurd (hlength text htext) (Nat.not_lt_of_le hfits)

theorem podOutcome_eq_panic {env : Env} {p : Pod} :
    (∃ cause, podOutcome env p = .panic cause) ↔ Aborts env p := by
  refine ⟨?_, Aborts.podOutcome_eq_panic⟩
  rintro ⟨cause, hcause⟩
  unfold podOutcome at hcause
  split at hcause
  · next outcome hrequest =>
    subst hcause
    rcases request_eq_panic.mp ⟨cause, hrequest⟩ with hname | ⟨hnode, resizeJson, hjson, hcname⟩
    · exact .nodeName hname
    · exact .cname hnode resizeJson hjson hcname
  · next cids cmds hrequest =>
    obtain ⟨hnode, ⟨cname, hcname, rfl⟩, -, hcmds⟩ := request_eq_ok.mp hrequest
    have hfail : ¬ ∀ result ∈ attempts env (namedIds cname p.statuses) cmds,
        ∃ entry, result = .ok entry := by
      rw [← loopOutcome_eq_ok, hcause]
      simp
    push Not at hfail
    obtain ⟨result, hresult, hno⟩ := hfail
    obtain ⟨cid, hcid, cmd, hcmd, rfl⟩ := mem_attempts.mp hresult
    by_cases hgroup : ∃ cgroupId, containerCgroupId env cid = .ok cgroupId
    · refine .command hnode cname cid cmds cmd hcname hcid hcmds hcmd fun text htext ↦ ?_
      by_contra hfits
      obtain ⟨entry, hentry⟩ :=
        exists_attempt_eq_ok.mpr ⟨hgroup, text, htext, Nat.le_of_not_lt hfits⟩
      exact hno entry hentry
    · exact .container hnode cname cid cmds hcname hcid hcmds (List.ne_nil_of_mem hcmd)
        fun cgroupId h ↦ hgroup ⟨cgroupId, h⟩

/-! ## The loop -/

theorem watchLoop_cons_pod (env : Env) (p : Pod) (rest : List (Env × StreamItem))
    (rcMap : ResizeContainersMap) (h : ¬ Aborts env p) :
    watchLoop ((env, .pod p) :: rest) rcMap = watchLoop rest (rcMap.putAll (podUpdates env p)) := by
  rw [watchLoop, handleK8sPod_eq]
  split
  · next cause hresult => exact absurd (podOutcome_eq_panic.mp ⟨cause, congrArg Prod.snd hresult⟩) h
  · next rcMap' outcome _ hresult =>
    obtain rfl := (Prod.mk.inj hresult).1
    rfl

/-- The loop reads the whole stream exactly when no item stops it. -/
theorem watchLoop_eq_ok {items : List (Env × StreamItem)} {rcMap : ResizeContainersMap} :
    (watchLoop items rcMap).2 = .ok ↔ ∀ item ∈ items, Harmless item := by
  induction items generalizing rcMap with
  | nil => simp [watchLoop]
  | cons item items ih =>
    obtain ⟨env, item⟩ := item
    cases item with
    | error => simp [watchLoop, Harmless]
    | pod p =>
      by_cases h : Aborts env p
      · obtain ⟨cause, hcause⟩ := podOutcome_eq_panic.mpr h
        simp [watchLoop, handleK8sPod_eq, hcause, Harmless, h]
      · rw [watchLoop_cons_pod env p items rcMap h, ih]
        simp [Harmless, h]

theorem watchLoop_append {first second : List (Env × StreamItem)} (rcMap : ResizeContainersMap)
    (h : ∀ item ∈ first, Harmless item) :
    watchLoop (first ++ second) rcMap = watchLoop second (watchLoop first rcMap).1 := by
  induction first generalizing rcMap with
  | nil => rfl
  | cons item first ih =>
    obtain ⟨env, item⟩ := item
    cases item with
    | error => exact absurd (h _ List.mem_cons_self) id
    | pod p =>
      have hp : ¬ Aborts env p := h _ List.mem_cons_self
      rw [List.cons_append, watchLoop_cons_pod env p _ rcMap hp, watchLoop_cons_pod env p _ rcMap hp]
      exact ih _ fun other hother ↦ h other (List.mem_cons_of_mem _ hother)

/-- No entry is ever removed. -/
theorem keys_subset_watchLoop (items : List (Env × StreamItem)) (rcMap : ResizeContainersMap) :
    rcMap.keys ⊆ (watchLoop items rcMap).1.keys := by
  induction items generalizing rcMap with
  | nil => exact Finset.Subset.refl _
  | cons item items ih =>
    obtain ⟨env, item⟩ := item
    cases item with
    | error => exact Finset.Subset.refl _
    | pod p =>
      have hput := rcMap.keys_subset_putAll (podUpdates env p)
      rw [watchLoop, handleK8sPod_eq]
      split
      · next rcMap' cause hresult =>
        obtain rfl := (Prod.mk.inj hresult).1
        exact hput
      · next rcMap' outcome _ hresult =>
        obtain rfl := (Prod.mk.inj hresult).1
        exact hput.trans (ih _)

/-- The loop reads the whole stream, and a well-formed pod whose updates were not refused has an
entry at its end. -/
def Isolated (items : List (Env × StreamItem)) (rcMap : ResizeContainersMap) : Prop :=
  (watchLoop items rcMap).2 = .ok ∧
    ∀ before env p after cgroupId, items = before ++ (env, .pod p) :: after →
      WellFormed env p cgroupId → (watchLoop before rcMap).1.AcceptsAll (podUpdates env p) →
        cgroupId ∈ (watchLoop items rcMap).1.keys

/-- Pods and errors do not disturb the others exactly when the stream has no `Err` item and no pod
that makes `handle_k8s_pod` panic. -/
theorem watch_isolated_iff (items : List (Env × StreamItem)) (rcMap : ResizeContainersMap) :
    Isolated items rcMap ↔ ∀ item ∈ items, Harmless item := by
  constructor
  · intro h
    exact watchLoop_eq_ok.mp h.1
  · intro h
    refine ⟨watchLoop_eq_ok.mpr h, ?_⟩
    rintro before env p after cgroupId rfl hformed hroom
    have hbefore : ∀ item ∈ before, Harmless item := fun item hitem ↦
      h item (List.mem_append_left _ hitem)
    have hp : ¬ Aborts env p := h (env, .pod p) (List.mem_append_right _ List.mem_cons_self)
    rw [watchLoop_append rcMap hbefore, watchLoop_cons_pod env p after _ hp]
    apply keys_subset_watchLoop
    obtain ⟨value, -, hlookup⟩ := BoundedMap.lookup_putAll_of_mem
      (fun first value rest hsplit ↦ hroom first (cgroupId, value) rest hsplit)
      hformed.mem_podUpdates
    exact BoundedMap.mem_keys.mpr ⟨value, hlookup⟩

/-- A pod whose annotation is the empty object comes first: the loop panics, and the well-formed pod
behind it gets no entry. -/
theorem watch_isolated_counterexample :
    let items := [(demoEnv, .pod (demoPod [(annotationKey, ['\x7b', '\x7d'])] "1".toList)),
      (demoEnv, .pod (demoPod (demoAnnotations "[\"make\"]".toList) "4242".toList))]
    (watchLoop items .empty).2 = .panic .unwrap ∧ (watchLoop items .empty).1.keys = ∅ ∧
      ¬ Isolated items .empty := by
  intro items
  have houtcome : (watchLoop items .empty).2 = .panic .unwrap := by decide +kernel
  refine ⟨houtcome, by decide +kernel, ?_⟩
  rintro ⟨hok, -⟩
  rw [houtcome] at hok
  cases hok

end EbpfPlayground.CoRe
