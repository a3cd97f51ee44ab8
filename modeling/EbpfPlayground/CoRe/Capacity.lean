import EbpfPlayground.CoRe.Daemon

/-!
# When an entry is refused

Nothing removes an entry, and an update with a new key is refused once the map is full.  So the keys
of the map are the first cgroup ids that the handled pods asked for, as many as fit, whether their
containers still run or not.
-/

namespace EbpfPlayground.CoRe

open CString Text

/-- Every update that the handled pods asked for, oldest first. -/
def requestedUpdates (handled : List Handled) : List (UInt64 × PodCommand) :=
  handled.reverse.flatMap fun call ↦ podUpdates call.env call.pod

/-- The first distinct cgroup ids among them, as many as the map has room for. -/
def firstRequested (handled : List Handled) : List UInt64 :=
  ((requestedUpdates handled).map Prod.fst).eraseDups.take maxNumContainers

theorem requestedUpdates_cons (call : Handled) (handled : List Handled) :
    requestedUpdates (call :: handled) =
      requestedUpdates handled ++ podUpdates call.env call.pod := by
  simp [requestedUpdates]

/-- The map is what these updates make of the empty map. -/
def Accumulated (s : State) : Prop := s.rcMap = BoundedMap.empty.putAll (requestedUpdates s.handled)

theorem accumulated_init : Accumulated State.init := rfl

theorem Accumulated.step {s s' : State} {action : Action} (hs : Accumulated s)
    (h : step s action = some s') : Accumulated s' := by
  cases steps_of_step h with
  | handle env p rest =>
    unfold Accumulated
    calc
      (s.handlePod env p rest).rcMap = s.rcMap.putAll (podUpdates env p) := handlePod_rcMap ..
      _ = (BoundedMap.empty.putAll (requestedUpdates s.handled)).putAll (podUpdates env p) := by
        rw [hs]
      _ = BoundedMap.empty.putAll (requestedUpdates (s.handlePod env p rest).handled) := by
        rw [← BoundedMap.putAll_append, handlePod_handled, requestedUpdates_cons]
  | watch item => exact hs
  | watchError env rest => exact hs
  | execve task => exact hs
  | emit task event => exact hs
  | deliver index env emitted => exact hs
  | lose index emitted => exact hs

/-- The map of every state with this history holds the first requested keys. -/
theorem Accumulated.keys {s : State} (hs : Accumulated s) :
    s.rcMap.keys = (firstRequested s.handled).toFinset := by
  rw [show s.rcMap = _ from hs]
  exact BoundedMap.keys_putAll_empty _

/-- The map holds one of the pod's commands under this cgroup id. -/
def HoldsCommand (rcMap : ResizeContainersMap) (env : Env) (p : Pod) (cgroupId : UInt64) : Prop :=
  ∃ value, rcMap.lookup cgroupId = some value ∧
    ∃ text, p.Lists env text ∧ ofBytes bufSize (asBytes text) = some value

/-- Where the action handles a pod with a well-formed annotation, the map holds afterwards one of the
pod's commands for each of its named containers. -/
def TriggerKept (s : State) (action : Action) : Prop :=
  ∀ env p rest cgroupId, action = .handle env → s.watching = true → s.stream = .pod p :: rest →
    WellFormed env p cgroupId → HoldsCommand (s.handlePod env p rest).rcMap env p cgroupId

/-- Where the action handles such a pod, its containers are among the first that the pods handled so
far asked for. -/
def AmongFirst (s : State) (action : Action) : Prop :=
  ∀ env p rest cgroupId, action = .handle env → s.watching = true → s.stream = .pod p :: rest →
    WellFormed env p cgroupId → cgroupId ∈ firstRequested (⟨env, p⟩ :: s.handled)

/-- An update writes one of the pod's commands. -/
theorem lists_of_mem_podUpdates {env : Env} {p : Pod} {entry : UInt64 × PodCommand}
    (h : entry ∈ podUpdates env p) :
    ∃ text, p.Lists env text ∧ ofBytes bufSize (asBytes text) = some entry.2 := by
  unfold podUpdates at h
  split at h
  · cases h
  · next cids cmds hrequest =>
    obtain ⟨-, -, -, hcmds⟩ := request_eq_ok.mp hrequest
    obtain ⟨cid, -, cmd, hcmd, hattempt⟩ := mem_attempts.mp (mem_of_mem_okPrefix h)
    obtain ⟨text, rfl, -, hvalue⟩ := attempt_eq_ok.mp hattempt
    exact ⟨text, ⟨cmds, hcmds, hcmd⟩, hvalue⟩

/-- After a well-formed pod is handled, its container has one of its commands if and only if it is
among the first requested. -/
theorem holdsCommand_iff {s : State} (hs : Accumulated s) {env : Env} {p : Pod}
    {rest : List StreamItem} {cgroupId : UInt64} (hformed : WellFormed env p cgroupId) :
    HoldsCommand (s.handlePod env p rest).rcMap env p cgroupId ↔
      cgroupId ∈ firstRequested (⟨env, p⟩ :: s.handled) := by
  have hnext : Accumulated (s.handlePod env p rest) := by
    unfold Accumulated
    rw [handlePod_rcMap, show s.rcMap = _ from hs, ← BoundedMap.putAll_append, handlePod_handled,
      requestedUpdates_cons]
  have hkeys : cgroupId ∈ (s.handlePod env p rest).rcMap.keys ↔
      cgroupId ∈ firstRequested (⟨env, p⟩ :: s.handled) := by
    rw [hnext.keys, List.mem_toFinset, handlePod_handled]
  rw [← hkeys]
  constructor
  · rintro ⟨value, hlookup, -⟩
    exact BoundedMap.mem_keys.mpr ⟨value, hlookup⟩
  · intro hmem
    rw [handlePod_rcMap] at hmem
    have haccepts : ∀ first value last, podUpdates env p = first ++ (cgroupId, value) :: last →
        (s.rcMap.putAll first).Accepts cgroupId := by
      -- A refused update means a full map, and then the key would be missing at the end too.
      intro first value last hsplit
      by_contra hrefused
      have hfull : maxNumContainers ≤ (s.rcMap.putAll first).keys.card :=
        Nat.le_of_not_lt fun hroom ↦ hrefused (.inr hroom)
      have hsub : (s.rcMap.putAll first).keys ⊆ (s.rcMap.putAll (podUpdates env p)).keys := by
        rw [hsplit, BoundedMap.putAll_append]
        exact BoundedMap.keys_subset_putAll _ _
      have hcard := (s.rcMap.putAll (podUpdates env p)).card_le
      have hsame := Finset.eq_of_subset_of_card_le hsub (hcard.trans hfull)
      exact hrefused (.inl (hsame ▸ hmem))
    obtain ⟨value, hvalue, hlookup⟩ :=
      BoundedMap.lookup_putAll_of_mem haccepts hformed.mem_podUpdates
    exact ⟨value, by rwa [handlePod_rcMap], lists_of_mem_podUpdates hvalue⟩

/-- In every run, no trigger is lost if and only if every well-formed pod that is handled has its
containers among the first that were requested. -/
theorem no_trigger_lost_iff (history : List Action) :
    Run.Meets step TriggerKept State.init history ↔ Run.Meets step AmongFirst State.init history := by
  apply Run.meets_congr history accumulated_init fun s action s' hs hstep ↦ hs.step hstep
  intro s action hs
  constructor
  · intro h env p rest cgroupId haction hwatching hstream hformed
    exact (holdsCommand_iff hs hformed).mp (h env p rest cgroupId haction hwatching hstream hformed)
  · intro h env p rest cgroupId haction hwatching hstream hformed
    exact (holdsCommand_iff hs hformed).mpr (h env p rest cgroupId haction hwatching hstream hformed)

/-! ## A pod that is restarted often -/

/-- The pods that the API server has after these actions. -/
def livePods : List Action → List Pod := List.foldl (fun pods action ↦
  match action with
  | .watch (.event (.applied p)) => p :: pods.filter (·.key ≠ p.key)
  | .watch (.event (.deleted p)) => pods.filter (·.key ≠ p.key)
  | .watch (.event (.restarted ps)) => ps
  | _ => pods) []

/-- The containers of these pods that `cname` names. -/
def liveNamed (env : Env) (history : List Action) : List Text :=
  (livePods history).flatMap fun p ↦ ((p.cname env).map (namedIds · p.statuses)).getD []

/-- At no moment of the run more containers are named than the map has room for. -/
def LiveBound (env : Env) (history : List Action) : Prop :=
  ∀ first, first <+: history → (liveNamed env first).length ≤ maxNumContainers

/-- The pod after its container has been restarted this often. -/
def generation (n : ℕ) : Pod := demoPod (demoAnnotations "[\"make\"]".toList) (decimal n)

/-- The pod is applied and handled in each of its first `n` generations. -/
def restarts (n : ℕ) : List Action :=
  (List.range n).flatMap fun k ↦ [.watch (.event (.applied (generation k))), .handle demoEnv]

theorem containerCgroupId_demoEnv {n : ℕ} (h : n < 2 ^ 64) :
    containerCgroupId demoEnv ("containerd://".toList ++ decimal n) = .ok (UInt64.ofNat n) := by
  have hread := u64FromStr_decimal h
  have hdigit : ∀ c ∈ decimal n, c.isDigit = true := fun _ ↦ isDigit_of_mem_decimal
  have hne := decimal_ne_nil n
  generalize decimal n = digits at *
  have hslash : '/' ∉ digits := fun hmem ↦ absurd (hdigit '/' hmem) (by decide)
  have hblank : ' ' ∉ digits := fun hmem ↦ absurd (hdigit ' ' hmem) (by decide)
  obtain ⟨last, hlast⟩ : ∃ last, digits.getLast? = some last :=
    ⟨digits.getLast hne, List.getLast?_eq_some_getLast _⟩
  have hsplit : splitSlashes ("containerd://".toList ++ digits) = ["containerd:".toList, digits] :=
    splitSlashes_append "containerd:".toList digits (by decide) hslash
  obtain ⟨root, hroot⟩ : ∃ root, "/sys/fs/cgroup/unified/kubepods".toList = root := ⟨_, rfl⟩
  have htrim : trim (root ++ '/' :: digits ++ ['\n']) = root ++ '/' :: digits := by
    apply trim_append_newline _ '/' last
    · rw [← hroot]
      rfl
    · simp [List.getLast?_append, List.getLast?_cons, hlast]
    · decide
    · exact isWhitespace_of_isDigit (hdigit last (List.mem_of_getLast? hlast))
  have hpath : ((root ++ '/' :: digits).splitOn '/').getLastD [] = digits := by
    rw [List.splitOn_append_cons_self, List.splitOn_eq_singleton hslash]
    simp
  have hfield : ((digits ++ [' ', '.', '\n']).splitOn ' ').headD [] = digits := by
    rw [List.splitOn_append_cons_self_of_not_mem hblank]
    rfl
  have hfind : (asBytes (root ++ '/' :: digits ++ ['\n'])).length ≠ 0 := by
    intro hempty
    have hnil : root ++ '/' :: digits ++ ['\n'] = [] :=
      asBytes_injective (List.length_eq_zero_iff.mp hempty)
    simp at hnil
  have hgroup : cgroupIdOf demoEnv digits = .ok (UInt64.ofNat n) := by
    simp only [cgroupIdOf, demoEnv, spawned, fromUtf8_asBytes, unwrapped, bind, Except.bind, hroot,
      if_neg hfind, htrim, hpath, hfield, hread]
  rw [containerCgroupId, hsplit]
  exact hgroup

theorem generation_namedIds (n : ℕ) :
    (generation n).cname demoEnv = some "ctr".toList ∧
      namedIds "ctr".toList (generation n).statuses = ["containerd://".toList ++ decimal n] := by
  have hcname : (demoPod (demoAnnotations "[\"make\"]".toList) []).cname demoEnv = some "ctr".toList := by
    decide +kernel
  exact ⟨hcname, rfl⟩

theorem generation_commands (n : ℕ) :
    (generation n).commands demoEnv = some (["make".toList].map .str) := by
  have hcommands : (demoPod (demoAnnotations "[\"make\"]".toList) []).commands demoEnv =
      some (["make".toList].map .str) := by
    decide +kernel
  exact hcommands

theorem wellFormed_generation {n : ℕ} (h : n < 2 ^ 64) :
    WellFormed demoEnv (generation n) (UInt64.ofNat n) :=
  wellFormed_demoPod ["make".toList] (generation_namedIds n).1 (generation_commands n)
    (containerCgroupId_demoEnv h) (by simp) (by decide)

theorem podUpdates_generation {n : ℕ} (h : n < 2 ^ 64) :
    (podUpdates demoEnv (generation n)).map Prod.fst = [UInt64.ofNat n] := by
  obtain ⟨hcname, hids⟩ := generation_namedIds n
  have hrequest : request demoEnv (generation n) =
      .ok (["containerd://".toList ++ decimal n], ["make".toList].map .str) :=
    request_eq_ok.mpr ⟨(wellFormed_generation h).onNode, ⟨_, hcname, hids⟩, by simp,
      generation_commands n⟩
  obtain ⟨entry, hentry⟩ := exists_attempt_eq_ok.mpr
    ⟨⟨_, containerCgroupId_demoEnv h⟩, "make".toList, rfl, by decide⟩
  obtain ⟨-, -, hkey, -⟩ := attempt_eq_ok.mp hentry
  have hattempts : attempts demoEnv ["containerd://".toList ++ decimal n] (["make".toList].map .str) =
      [.ok entry] := by
    rw [← hentry]
    rfl
  have hupdates : podUpdates demoEnv (generation n) = [entry] := by
    simp only [podUpdates, hrequest, hattempts]
    rfl
  rw [hupdates, List.map_cons, List.map_nil,
    Except.ok.inj (hkey.symm.trans (containerCgroupId_demoEnv h))]

theorem restarts_succ (n : ℕ) : restarts (n + 1) =
    restarts n ++ [.watch (.event (.applied (generation n))), .handle demoEnv] := by
  simp [restarts, List.range_succ]

/-- The watcher keeps up with every generation. -/
theorem reaches_restarts {n : ℕ} (h : n ≤ 2 ^ 64) :
    ∃ s, Reaches (restarts n) s ∧ s.watching = true ∧ s.stream = [] ∧
      (requestedUpdates s.handled).map Prod.fst = (List.range n).map UInt64.ofNat := by
  induction n with
  | zero => exact ⟨State.init, rfl, rfl, rfl, rfl⟩
  | succ n ih =>
    obtain ⟨s, hreach, hwatching, hstream, hkeys⟩ := ih (by omega)
    have hn : n < 2 ^ 64 := by omega
    have hok := (wellFormed_generation hn).podOutcome
    refine ⟨{ s with stream := [.pod (generation n)] }.handlePod demoEnv (generation n) [],
      ?_, ?_, rfl, ?_⟩
    · rw [Reaches, restarts_succ, Run.run_append, hreach]
      simp [step, hwatching, hstream, WatchItem.appliedObjects]
    · simp [State.handlePod, handleK8sPod_eq, hok]
    · rw [handlePod_handled, requestedUpdates_cons, List.map_append, hkeys,
        podUpdates_generation hn, List.range_succ, List.map_append]
      rfl

/-- One pod at most is live while it is restarted. -/
theorem livePods_restarting {history : List Action}
    (h : ∀ action ∈ history, action = .handle demoEnv ∨
      ∃ n, action = .watch (.event (.applied (generation n)))) :
    livePods history = [] ∨ ∃ n, livePods history = [generation n] := by
  induction history using List.reverseRecOn with
  | nil => exact .inl rfl
  | append_singleton history action ih =>
    have hbefore := ih fun other hother ↦ h other (List.mem_append_left _ hother)
    rcases h action (by simp) with rfl | ⟨n, rfl⟩
    · simpa [livePods] using hbefore
    · right
      refine ⟨n, ?_⟩
      have hkey : ∀ m, (generation m).key = (generation n).key := fun _ ↦ rfl
      rcases hbefore with hnil | ⟨m, hm⟩
      · simp [livePods, List.foldl_append] at hnil ⊢
        simp [hnil]
      · simp [livePods, List.foldl_append] at hm ⊢
        simp [hm, hkey m]

theorem nodup_map_ofNat {n : ℕ} (h : n ≤ 2 ^ 64) : ((List.range n).map UInt64.ofNat).Nodup := by
  apply List.Nodup.map_on _ List.nodup_range
  intro a ha b hb heq
  have hnat := congrArg UInt64.toNat heq
  rw [List.mem_range] at ha hb
  rwa [UInt64.toNat_ofNat_of_lt' (by change a < 2 ^ 64; omega),
    UInt64.toNat_ofNat_of_lt' (by change b < 2 ^ 64; omega)] at hnat

theorem liveBound_restarts (n : ℕ) : LiveBound demoEnv (restarts n) := by
  intro first hfirst
  have hactions : ∀ action ∈ first, action = .handle demoEnv ∨
      ∃ k, action = .watch (.event (.applied (generation k))) := by
    intro action haction
    have hmem := hfirst.subset haction
    simp only [restarts, List.mem_flatMap, List.mem_cons, List.not_mem_nil, or_false] at hmem
    obtain ⟨k, -, hwatch | hhandle⟩ := hmem
    · exact .inr ⟨k, hwatch⟩
    · exact .inl hhandle
  rcases livePods_restarting hactions with hnil | ⟨k, hk⟩
  · rw [liveNamed, hnil]
    exact Nat.zero_le _
  · obtain ⟨hcname, hids⟩ := generation_namedIds k
    rw [liveNamed, hk, List.flatMap_singleton, hcname]
    simp only [Option.map_some, Option.getD_some, hids, List.length_singleton]
    decide

/-- One pod is restarted until its container has had more cgroup ids than the map has room for; the
last restart gets no entry, although never more than one container is named. -/
theorem no_trigger_lost_counterexample :
    ∃ history, (Run.run step State.init history).isSome ∧ LiveBound demoEnv history ∧
      ¬ Run.Meets step TriggerKept State.init history := by
  -- The capacity stays a variable, so that nothing computes with thousands of generations.
  obtain ⟨n, hn, hbound⟩ : ∃ n, n = maxNumContainers ∧ n + 1 ≤ 2 ^ 64 :=
    ⟨maxNumContainers, rfl, by unfold maxNumContainers; omega⟩
  refine ⟨restarts (n + 1), ?_, liveBound_restarts _, ?_⟩
  · obtain ⟨s, hreach, -⟩ := reaches_restarts hbound
    exact Option.isSome_iff_exists.mpr ⟨s, hreach⟩
  · intro h
    obtain ⟨s, hreach, hwatching, hstream, hkeys⟩ := reaches_restarts (Nat.le_of_succ_le hbound)
    rw [restarts_succ] at h
    obtain ⟨-, hlast⟩ := (Run.meets_append hreach h).2
    have hwatch : step s (.watch (.event (.applied (generation n)))) =
        some { s with stream := s.stream ++ [.pod (generation n)] } := rfl
    obtain ⟨hkept, -⟩ := hlast _ hwatch
    have hformed := wellFormed_generation (Nat.lt_of_succ_le hbound)
    have hholds := hkept demoEnv (generation n) [] _ rfl hwatching (by rw [hstream]; rfl) hformed
    have hs := Run.invariant (I := fun _ ↦ Accumulated) accumulated_init
      (fun _ _ _ _ hacc hstep ↦ hacc.step hstep) hreach
    have hfirst := (holdsCommand_iff (hs.step hwatch) hformed).mp hholds
    have hlist : (requestedUpdates (⟨demoEnv, generation n⟩ :: s.handled)).map Prod.fst =
        (List.range n).map UInt64.ofNat ++ [UInt64.ofNat n] := by
      rw [requestedUpdates_cons, List.map_append, hkeys]
      exact congrArg _ (podUpdates_generation (Nat.lt_of_succ_le hbound))
    have hnodup := nodup_map_ofNat hbound
    rw [List.range_succ, List.map_append, List.nodup_append] at hnodup
    obtain ⟨hbefore, -, hne⟩ := hnodup
    have hnew : UInt64.ofNat n ∉ (List.range n).map UInt64.ofNat :=
      fun hmem ↦ hne _ hmem _ List.mem_cons_self rfl
    have hlength : ((List.range n).map UInt64.ofNat).length = maxNumContainers := by
      rw [List.length_map, List.length_range, hn]
    rw [firstRequested, hlist, BoundedMap.eraseDups_concat, if_neg hnew,
      BoundedMap.eraseDups_eq_self hbefore, List.take_left' hlength] at hfirst
    exact hnew hfirst

end EbpfPlayground.CoRe
