import EbpfPlayground.HostProcessId.MagicScript

/-!
# Whose cgroup is registered

The key that a run writes is the inode number of what `ls` lists first.  That is a directory of the
container where `crictl` lists one with `bank-auditor` and a directory's path contains its id, and the
working directory else.
-/

namespace EbpfPlayground.HostProcessId

open CString Hex Shell Text

namespace MagicEnv

/-- A directory whose path contains the id of a container listed with `bank-auditor`. -/
structure AuditorDir (env : MagicEnv) (dir : Text) (inode : UInt64) : Prop where
  mem : dir ∈ env.dirs
  contains_id : ∃ id ∈ env.auditorIds, contains id dir = true
  inode_eq : env.inode dir = some inode

/-- Whatever the map, a run that writes to it writes under the inode number of such a directory. -/
def RegistersAuditor (env : MagicEnv) (argument : Text) : Prop :=
  ∀ netidMap netidMap', env.run argument netidMap = some netidMap' →
    ∃ dir inode value, env.AuditorDir dir inode ∧
      netidMap.update (leBuffer 8 inode.toNat) value = some netidMap'

/-- One container is listed with `bank-auditor`, and a directory's path contains its id. -/
def FindsAuditor (env : MagicEnv) : Prop :=
  ∃ id, env.auditorIds = [id] ∧ ∃ dir ∈ env.dirs, contains id dir = true

variable {env : MagicEnv}

theorem unexpanded_of_isContainerId {id : Text} (h : IsContainerId id) : Unexpanded id := by
  refine ⟨⟨h.ne_nil, fun c hc ↦ isBlank_of_isSome_digitValue (h.digits c hc)⟩, fun c hc ↦ ?_⟩
  refine ⟨?_, ?_, ?_, ?_⟩
  all_goals
    rintro rfl
    exact absurd (h.digits _ hc) (by decide)

theorem expand_cId : env.expand env.cId = env.auditorIds := by
  rw [cId, expand_commandSubst]
  apply expand_stdout
  intro id hid
  obtain ⟨line, hline, rfl⟩ := List.mem_map.mp hid
  obtain ⟨hmem, hauditor⟩ := List.mem_filter.mp hline
  exact unexpanded_of_isContainerId (env.isContainerId line hmem hauditor)

/-- With one container, `grep` finds the directories with its id. -/
theorem mem_auditorDirs {dir : Text} :
    dir ∈ env.auditorDirs ↔
      ∃ id, env.auditorIds = [id] ∧ dir ∈ env.dirs ∧ contains id dir = true := by
  rw [auditorDirs, expand_cId]
  split
  · next pattern hids => simp [hids, grep]
  · next hids =>
    refine iff_of_false List.not_mem_nil ?_
    rintro ⟨id, hid, -⟩
    exact hids id hid

theorem auditorDirs_ne_nil : env.auditorDirs ≠ [] ↔ env.FindsAuditor := by
  constructor
  · intro hne
    obtain ⟨dir, hmem⟩ := List.exists_mem_of_ne_nil _ hne
    obtain ⟨id, hid, hdir, hcontains⟩ := mem_auditorDirs.mp hmem
    exact ⟨id, hid, dir, hdir, hcontains⟩
  · rintro ⟨id, hid, dir, hdir, hcontains⟩
    exact List.ne_nil_of_mem (mem_auditorDirs.mpr ⟨id, hid, hdir, hcontains⟩)

/-- Without a directory the number is that of the working directory. -/
theorem cgroupNumber_of_not_findsAuditor (h : ¬ env.FindsAuditor) :
    env.cgroupNumber = env.workDir.toNat := by
  have hnil : env.auditorDirs = [] := of_not_not fun hne ↦ h (auditorDirs_ne_nil.mp hne)
  rw [cgroupNumber, listed, hnil, lsInodes, if_pos rfl]
  rfl

/-- With directories of the container, the number is that of one of them. -/
theorem cgroupNumber_of_findsAuditor (h : env.FindsAuditor) :
    ∃ dir inode, env.AuditorDir dir inode ∧ env.cgroupNumber = inode.toNat := by
  have hne : env.auditorDirs ≠ [] := auditorDirs_ne_nil.mpr h
  have hlisted : env.listed = (env.auditorDirs.insertionSort fun a b ↦
      env.collate a b = true).filterMap env.inode := if_neg hne
  have hmem : ∀ inode ∈ env.listed, ∃ dir ∈ env.auditorDirs, env.inode dir = some inode := by
    intro inode hinode
    rw [hlisted] at hinode
    obtain ⟨dir, hdir, heq⟩ := List.mem_filterMap.mp hinode
    exact ⟨dir, (List.mem_insertionSort _).mp hdir, heq⟩
  obtain ⟨first, rest, hfirst⟩ : ∃ first rest, env.listed = first :: rest := by
    apply List.exists_cons_of_ne_nil
    obtain ⟨dir, hdir⟩ := List.exists_mem_of_ne_nil _ hne
    obtain ⟨-, -, hdirs, -⟩ := mem_auditorDirs.mp hdir
    obtain ⟨inode, hinode⟩ := Option.isSome_iff_exists.mp (env.isSome_inode dir hdirs)
    apply List.ne_nil_of_mem (a := inode)
    rw [hlisted]
    exact List.mem_filterMap.mpr ⟨dir, (List.mem_insertionSort _).mpr hdir, hinode⟩
  obtain ⟨dir, hdir, hinode⟩ := hmem first (hfirst ▸ List.mem_cons_self)
  obtain ⟨id, hid, hdirs, hcontains⟩ := mem_auditorDirs.mp hdir
  refine ⟨dir, first, ⟨hdirs, ⟨id, hid ▸ List.mem_cons_self, hcontains⟩, hinode⟩, ?_⟩
  rw [cgroupNumber, hfirst]
  rfl

/-- A run registers the auditor, unless it gets to no write, if it reads the number of a directory of
the auditor's. -/
theorem registersAuditor_iff_cgroupNumber {argument : Text} (halnum : ∀ c ∈ argument, c.isAlphanum) :
    env.RegistersAuditor argument ↔
      ¬ env.Completes argument ∨ 2 ^ 32 ≤ identityNumber argument ∨
        ∃ dir inode, env.AuditorDir dir inode ∧ env.cgroupNumber = inode.toNat := by
  have hwrites : env.RegistersAuditor argument ↔ ∀ netidMap netidMap',
      env.run argument netidMap = some netidMap' → ∃ key value,
        netidMap.update key value = some netidMap' ∧
          ∃ dir inode, env.AuditorDir dir inode ∧ key = leBuffer 8 inode.toNat := by
    refine forall₂_congr fun netidMap netidMap' ↦ forall_congr' fun _ ↦ ?_
    constructor
    · rintro ⟨dir, inode, value, hdir, hupdate⟩
      exact ⟨_, value, hupdate, dir, inode, hdir, rfl⟩
    · rintro ⟨_, value, hupdate, dir, inode, hdir, rfl⟩
      exact ⟨dir, inode, value, hdir, hupdate⟩
  have hkey : ∀ inode : UInt64,
      leBuffer 8 env.cgroupNumber = leBuffer 8 inode.toNat ↔ env.cgroupNumber = inode.toNat :=
    fun inode ↦ ⟨leBuffer_inj 8 cgroupNumber_lt inode.toNat_lt, fun heq ↦ by rw [heq]⟩
  simp only [hwrites, forall_writes_iff halnum, hkey]

/-- A run registers the auditor's cgroup exactly when it does not get to the update, or one container is
listed with `bank-auditor` and has a directory, or the working directory has the inode number of a
directory of one of the listed containers. -/
theorem registersAuditor_iff (env : MagicEnv) (argument : Text)
    (halnum : ∀ c ∈ argument, c.isAlphanum) :
    env.RegistersAuditor argument ↔
      ¬ env.Completes argument ∨ 2 ^ 32 ≤ identityNumber argument ∨ env.FindsAuditor ∨
        ∃ dir, env.AuditorDir dir env.workDir := by
  rw [registersAuditor_iff_cgroupNumber halnum]
  refine or_congr_right (or_congr_right ?_)
  by_cases hfinds : env.FindsAuditor
  · exact iff_of_true (cgroupNumber_of_findsAuditor hfinds) (.inl hfinds)
  · rw [or_iff_right hfinds, cgroupNumber_of_not_findsAuditor hfinds]
    constructor
    · rintro ⟨dir, inode, hdir, hnumber⟩
      exact ⟨dir, UInt64.toNat_inj.mp hnumber ▸ hdir⟩
    · rintro ⟨dir, hdir⟩
      exact ⟨dir, env.workDir, hdir, rfl⟩

/-! ## The demo -/

/-- A line of `crictl ps`. -/
def psLine (id : Text) : Text := id ++ ' ' :: "bank-auditor".toList

theorem awkFirst_psLine {id : Text} (h : IsContainerId id) : awkFirst (psLine id) = id := by
  rw [awkFirst, psLine, words_append_blank _ _ rfl,
    (unexpanded_of_isContainerId h).toPlain.words]
  rfl

/-- A node with one directory, for the container `a1b2`, and these containers. -/
def demo (ids : List Text) (h : ∀ id ∈ ids, IsContainerId id) : MagicEnv where
  crictlPs := ids.map psLine
  dirs := ["/sys/fs/cgroup/kubepods.slice/kubepods-besteffort.slice/a1b2".toList]
  inode := fun _ ↦ some 4242
  workDir := 77
  collate := fun _ _ ↦ true
  glob := fun field ↦ [field]
  hasTmpl := true
  inDemo := true
  demoIdentity := some "34567".toList
  kubectlCreate := fun _ ↦ true
  maps := [(12, "hash  name host_process_ne".toList)]
  isContainerId := by
    intro line hline _
    obtain ⟨id, hid, rfl⟩ := List.mem_map.mp hline
    rw [awkFirst_psLine (h id hid)]
    exact h id hid
  unexpanded := by
    intro dir hdir
    rw [List.mem_singleton.mp hdir]
    exact ⟨⟨by decide, by decide⟩, by decide⟩
  isSome_inode := fun _ _ ↦ rfl
  globsLiterally := fun _ _ ↦ rfl
  isName_demoIdentity := by
    rintro _ ⟨⟩
    decide

theorem completes_demo (ids : List Text) (h : ∀ id ∈ ids, IsContainerId id) (argument : Text) :
    (demo ids h).Completes argument := by
  refine ⟨rfl, rfl, ?_⟩
  change (MagicEnv.hostProcessMaps (demo [] (by simp))).length = 1
  decide +kernel

theorem auditorIds_demo (ids : List Text) (h : ∀ id ∈ ids, IsContainerId id) :
    (demo ids h).auditorIds = ids := by
  have hlines : ∀ line ∈ ids.map psLine, contains "bank-auditor".toList line = true := by
    intro line hline
    obtain ⟨id, -, rfl⟩ := List.mem_map.mp hline
    rw [contains_eq_true]
    exact List.infix_append_of_infix_right (List.infix_cons (List.infix_refl _))
  have hids : ids.map (fun id ↦ awkFirst (psLine id)) = ids := by
    conv_rhs => rw [← List.map_id ids]
    exact List.map_congr_left fun id hid ↦ awkFirst_psLine (h id hid)
  rw [auditorIds, demo, grep, List.filter_eq_self.mpr hlines, List.map_map]
  exact hids

/-- The container has its directory. -/
theorem registersAuditor_demo :
    (demo ["a1b2".toList] (by decide)).RegistersAuditor "12345".toList :=
  (registersAuditor_iff _ _ (by decide)).mpr (.inr (.inr (.inl ⟨"a1b2".toList, auditorIds_demo _ _, _,
    List.mem_cons_self, by decide +kernel⟩)))

/-- Nothing but the listing of the containers is wrong, and the working directory is registered. -/
theorem not_registersAuditor_demo {ids : List Text} (h : ∀ id ∈ ids, IsContainerId id)
    (hids : ∀ id, ids = [id] → contains id
      "/sys/fs/cgroup/kubepods.slice/kubepods-besteffort.slice/a1b2".toList = false) :
    ¬ (demo ids h).RegistersAuditor "12345".toList := by
  intro hregisters
  have hfinds : ¬ (demo ids h).FindsAuditor := by
    rintro ⟨id, hid, dir, hdir, hcontains⟩
    rw [auditorIds_demo] at hid
    rw [List.mem_singleton.mp hdir, hids id hid] at hcontains
    cases hcontains
  rcases (registersAuditor_iff_cgroupNumber (by decide)).mp hregisters with
    hnot | hlarge | ⟨dir, inode, hdir, hnumber⟩
  · exact hnot (completes_demo ids h _)
  · exact absurd hlarge (by decide)
  rw [cgroupNumber_of_not_findsAuditor hfinds, UInt64.toNat_inj] at hnumber
  obtain rfl : (4242 : UInt64) = inode := Option.some.inj hdir.inode_eq
  have hne : (77 : UInt64) ≠ 4242 := by decide
  exact hne hnumber

/-- No container is listed with `bank-auditor`, or two are, or the one has no directory. -/
theorem registersAuditor_counterexample :
    ¬ (demo [] (by decide)).RegistersAuditor "12345".toList ∧
      ¬ (demo ["a1b2".toList, "c3d4".toList] (by decide)).RegistersAuditor "12345".toList ∧
      ¬ (demo ["c3d4".toList] (by decide)).RegistersAuditor "12345".toList := by
  refine ⟨not_registersAuditor_demo _ (by simp), not_registersAuditor_demo _ (by simp),
    not_registersAuditor_demo _ ?_⟩
  intro id hid
  obtain rfl : "c3d4".toList = id := List.singleton_inj.mp hid
  decide +kernel

end MagicEnv

end EbpfPlayground.HostProcessId
