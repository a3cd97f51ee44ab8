import EbpfPlayground.Foundation.Name
import EbpfPlayground.HostProcessId.NumToHexStr
import Mathlib.Data.List.Sort

/-!
# The whole script

Four pipelines of `DO-eBPF-MAGIC.sh` hand their output to the next command without quotes.  Where
`crictl` lists no container or several, or where no directory belongs to the one it lists, `ls` gets no
operand and lists the working directory.  `sed` writes the `CiliumIdentity` object to the working
directory, and `kubectl` reads the one under `~/demo`; it is the last command of its list, so `bash -e`
ends the script where it fails.
-/

namespace EbpfPlayground.HostProcessId

open CString Hex Shell Text

/-- `awk '\x7bprint $1\x7d'` on one line. -/
def awkFirst (line : Text) : Text := (words line).headD []

/-- Hexadecimal digits. -/
structure IsContainerId (id : Text) : Prop where
  ne_nil : id ≠ []
  digits : ∀ c ∈ id, (digitValue c).isSome

instance (id : Text) : Decidable (IsContainerId id) :=
  decidable_of_iff (id ≠ [] ∧ ∀ c ∈ id, (digitValue c).isSome)
    ⟨fun h ↦ ⟨h.1, h.2⟩, fun h ↦ ⟨h.ne_nil, h.digits⟩⟩

/-- What one run of the script gets from outside its own text. -/
structure MagicEnv where
  /-- Lines of `crictl ps`. -/
  crictlPs : List Text
  /-- Lines of `find .. -type d`. -/
  dirs : List Text
  /-- The inode number of the file with this name. -/
  inode : Text → Option UInt64
  /-- The inode number of the working directory. -/
  workDir : UInt64
  /-- The order in which `ls` lists its operands. -/
  collate : Text → Text → Bool
  /-- Pathname expansion of one field. -/
  glob : Text → List Text
  /-- The working directory has `z-ciliumid/ciliumid-auditor.yaml.tmpl`, without which `sed` fails. -/
  hasTmpl : Bool
  /-- The working directory is `~/demo`. -/
  inDemo : Bool
  /-- The identity in `~/demo/z-ciliumid/ciliumid-auditor.yaml` before the run, if there is this file. -/
  demoIdentity : Option Text
  /-- `kubectl create` accepts the object with these lines. -/
  kubectlCreate : List Text → Bool
  /-- The maps that `bpftool map list` lists: the id, and the rest of the line. -/
  maps : List (ℕ × Text)
  /-- The first column of a container is its id. -/
  isContainerId : ∀ line ∈ crictlPs, contains "bank-auditor".toList line = true →
    IsContainerId (awkFirst line)
  /-- The node's cgroup directories have names without blanks and pattern characters. -/
  unexpanded : ∀ dir ∈ dirs, Unexpanded dir
  isSome_inode : ∀ dir ∈ dirs, (inode dir).isSome
  globsLiterally : ∀ field, Unexpanded field → glob field = [field]
  /-- An earlier run of the script made that file. -/
  isName_demoIdentity : ∀ identity ∈ demoIdentity, IsName identity

/-- `z-ciliumid/ciliumid-auditor.yaml.tmpl`. -/
def ciliumIdentityTmpl : List Text :=
  ["apiVersion: cilium.io/v2".toList,
    "kind: CiliumIdentity".toList,
    "metadata:".toList,
    "  labels:".toList,
    "    io.cilium.k8s.policy.cluster: kubernetes".toList,
    "    io.cilium.k8s.policy.serviceaccount: default".toList,
    "    io.kubernetes.pod.namespace: default".toList,
    "    role: auditor".toList,
    "  name: __AUDITOR_POD_IDENTITY__".toList,
    "security-labels:".toList,
    "  k8s:io.cilium.k8s.namespace.labels.kubernetes.io/metadata.name: default".toList,
    "  k8s:io.cilium.k8s.policy.cluster: kubernetes".toList,
    "  k8s:io.cilium.k8s.policy.serviceaccount: default".toList,
    "  k8s:io.kubernetes.pod.namespace: default".toList,
    "  k8s:role: auditor".toList]

/-- `sed s/pattern/replacement/` on one line, for texts without special characters. -/
def sedSubst (pattern replacement : Text) : Text → Text
  | [] => []
  | c :: line =>
    if pattern.isPrefixOf (c :: line) then replacement ++ (c :: line).drop pattern.length
    else c :: sedSubst pattern replacement line

/-- The lines of the `CiliumIdentity` object. -/
def ciliumIdentity (networkIdentity : Text) : List Text :=
  ciliumIdentityTmpl.map
    (sedSubst "__AUDITOR_POD_IDENTITY__".toList ('"' :: networkIdentity ++ ['"']))

/-- `NETWORK_IDENTITY`. -/
def networkIdentity (argument : Text) : Text := if argument = [] then "12345".toList else argument

namespace MagicEnv

variable (env : MagicEnv)

/-- The containers of the lines with `bank-auditor`. -/
def auditorIds : List Text := (grep "bank-auditor".toList env.crictlPs).map awkFirst

/-- `C_ID`. -/
def cId : Text := commandSubst (stdout env.auditorIds)

/-- Field splitting and pathname expansion of an unquoted expansion. -/
def expand (text : Text) : List Text := (words text).flatMap env.glob

/-- `find .. -type d | grep ${C_ID}`.  Without a pattern `grep` fails; with several words the others
are names of files, and no file in the working directory is named like a container. -/
def auditorDirs : List Text :=
  match env.expand env.cId with
  | [pattern] => grep pattern env.dirs
  | _ => []

/-- The inode numbers that `ls -ldi` lists; without operands it lists the working directory. -/
def lsInodes (operands : List Text) : List UInt64 :=
  if operands = [] then [env.workDir]
  else (operands.insertionSort fun a b ↦ env.collate a b = true).filterMap env.inode

/-- A line of `ls -ldi`, without the columns that nothing reads. -/
def lsLine (inode : UInt64) : Text := decimal inode.toNat ++ " drwxr-xr-x".toList

/-- `CG_ID`. -/
def cgId : Text :=
  commandSubst (stdout ((env.lsInodes (env.expand (stdout env.auditorDirs))).map fun inode ↦
    awkFirst (lsLine inode)))

/-- A line of `bpftool map list`. -/
def mapLine (map : ℕ × Text) : Text := decimal map.1 ++ ':' :: ' ' :: map.2

/-- The maps with `host_process` in their line. -/
def hostProcessMaps : List (ℕ × Text) :=
  env.maps.filter fun map ↦ contains "host_process".toList (mapLine map)

/-- `HP_MAP_ID`. -/
def hpMapId : Text :=
  commandSubst (stdout (env.hostProcessMaps.map fun map ↦
    (awkFirst (mapLine map)).takeWhile (· ≠ ':')))

/-- `$2` of a function that is called with a first argument and this expansion. -/
def secondArgument (text : Text) : Text := (env.expand text).headD []

/-- The identity in `~/demo/z-ciliumid/ciliumid-auditor.yaml` once `sed` has written to the working
directory. -/
def auditorIdentity (argument : Text) : Option Text :=
  if env.inDemo then some (networkIdentity argument) else env.demoIdentity

/-- `kubectl create -f ~/demo/z-ciliumid/ciliumid-auditor.yaml`. -/
def createsIdentity (argument : Text) : Bool :=
  (env.auditorIdentity argument).any fun identity ↦ env.kubectlCreate (ciliumIdentity identity)

/-- What a run of the script does to the map; `none` where it does not get to the update or the update
fails. -/
def run (argument : Text) (netidMap : HostProcessNetidMap) : Option HostProcessNetidMap :=
  if env.hasTmpl = true ∧ env.createsIdentity argument = true then
    doEbpfMagic env.hpMapId (env.secondArgument env.cgId)
      (env.secondArgument (networkIdentity argument)) netidMap
  else none

/-! ## What a run writes -/

/-- `sed` finds the template, `kubectl` accepts the object, and there is one map to write. -/
structure Completes (argument : Text) : Prop where
  tmpl : env.hasTmpl = true
  created : env.createsIdentity argument = true
  oneMap : env.hostProcessMaps.length = 1

/-- The inode numbers that the script reads its cgroup id from. -/
def listed : List UInt64 := env.lsInodes env.auditorDirs

/-- The number that the key is made of. -/
def cgroupNumber : ℕ := (env.listed.head?.map UInt64.toNat).getD 0

/-- The number that the value is made of. -/
def identityNumber (argument : Text) : ℕ := strtoumax (networkIdentity argument)

variable {env}

theorem isName_networkIdentity {argument : Text} (h : ∀ c ∈ argument, c.isAlphanum) :
    IsName (networkIdentity argument) := by
  rw [networkIdentity]
  split
  · decide
  · next hne => exact ⟨hne, fun c hc ↦ .inl (h c hc)⟩

/-- Lines that are one name each are expanded to these names. -/
theorem expand_stdout {names : List Text} (h : ∀ name ∈ names, Unexpanded name) :
    env.expand (stdout names) = names := by
  have hwords : names.flatMap words = names := by
    rw [List.flatMap_congr fun name hname ↦ (h name hname).toPlain.words]
    simp
  rw [expand, words_stdout, hwords,
    List.flatMap_congr fun name hname ↦ env.globsLiterally name (h name hname)]
  simp

theorem expand_commandSubst (text : Text) : env.expand (commandSubst text) = env.expand text := by
  rw [expand, expand, words_commandSubst]

theorem secondArgument_of_isName {text : Text} (h : IsName text) : env.secondArgument text = text := by
  rw [secondArgument, expand, h.plain.words, List.flatMap_singleton,
    env.globsLiterally text h.unexpanded]
  rfl

theorem unexpanded_of_mem_auditorDirs : ∀ dir ∈ env.auditorDirs, Unexpanded dir := by
  intro dir hdir
  rw [auditorDirs] at hdir
  split at hdir
  · exact env.unexpanded dir (List.mem_of_mem_filter hdir)
  · cases hdir

theorem awkFirst_lsLine (inode : UInt64) : awkFirst (lsLine inode) = decimal inode.toNat := by
  have hblank : lsLine inode = decimal inode.toNat ++ ' ' :: "drwxr-xr-x".toList := rfl
  rw [awkFirst, hblank, words_append_blank _ _ rfl, (plain_decimal _).words]
  rfl

theorem secondArgument_cgId : env.secondArgument env.cgId =
    (env.listed.map fun inode ↦ decimal inode.toNat).headD [] := by
  have hnames : ∀ name ∈ env.listed.map (fun inode ↦ decimal inode.toNat), Unexpanded name := by
    intro name hname
    obtain ⟨inode, -, rfl⟩ := List.mem_map.mp hname
    exact (isName_decimal _).unexpanded
  have hcgId : env.cgId = commandSubst (stdout (env.listed.map fun inode ↦ decimal inode.toNat)) := by
    simp only [cgId, expand_stdout unexpanded_of_mem_auditorDirs, awkFirst_lsLine, listed]
  calc
    env.secondArgument env.cgId
        = (env.expand (stdout (env.listed.map fun inode ↦ decimal inode.toNat))).headD [] := by
      rw [secondArgument, hcgId, expand_commandSubst]
    _ = (env.listed.map fun inode ↦ decimal inode.toNat).headD [] := by
      rw [expand_stdout hnames]

theorem strtoumax_cgId : strtoumax (env.secondArgument env.cgId) = env.cgroupNumber := by
  rw [secondArgument_cgId, cgroupNumber]
  cases env.listed with
  | nil => rfl
  | cons inode inodes =>
    rw [List.map_cons, List.headD_cons, strtoumax_decimal inode.toNat_lt]
    rfl

theorem cgroupNumber_lt : env.cgroupNumber < 2 ^ 64 := by
  rw [← strtoumax_cgId]
  exact strtoumax_lt _

theorem awkFirst_mapLine (map : ℕ × Text) :
    (awkFirst (mapLine map)).takeWhile (· ≠ ':') = decimal map.1 := by
  have hcolon : ∀ c ∈ decimal map.1, decide (c ≠ ':') = true := by
    intro c hc
    apply decide_eq_true
    rintro rfl
    exact absurd (isDigit_of_mem_decimal hc) (by decide)
  have hplain : Plain (decimal map.1 ++ [':']) :=
    ⟨by simp, List.forall_mem_append.mpr ⟨(plain_decimal _).no_blank, by decide⟩⟩
  have hline : mapLine map = (decimal map.1 ++ [':']) ++ ' ' :: map.2 := by
    simp [mapLine]
  rw [awkFirst, hline, words_append_blank _ _ rfl, hplain.words, List.singleton_append,
    List.headD_cons, List.takeWhile_append_of_pos hcolon]
  simp

theorem words_hpMapId : words env.hpMapId = env.hostProcessMaps.map fun map ↦ decimal map.1 := by
  calc
    words env.hpMapId = (env.hostProcessMaps.map fun map ↦ decimal map.1).flatMap words := by
      simp only [hpMapId, words_commandSubst, words_stdout, awkFirst_mapLine]
    _ = env.hostProcessMaps.flatMap fun map ↦ [decimal map.1] := by
      rw [List.flatMap_map, List.flatMap_congr fun map _ ↦ (plain_decimal map.1).words]
    _ = env.hostProcessMaps.map fun map ↦ decimal map.1 := List.flatMap_pure_eq_map _ _

/-- A run updates the map with the bytes of both numbers, or fails where the identity has more than four
bytes. -/
theorem run_eq_some {argument : Text} (h : ∀ c ∈ argument, c.isAlphanum)
    {netidMap netidMap' : HostProcessNetidMap} :
    env.run argument netidMap = some netidMap' ↔
      env.Completes argument ∧ identityNumber argument < 2 ^ 32 ∧
        netidMap.update (leBuffer 8 env.cgroupNumber) (leBuffer 4 (identityNumber argument)) =
          some netidMap' := by
  rw [run, Option.ite_none_right_eq_some, secondArgument_of_isName (isName_networkIdentity h)]
  by_cases hmap : env.hostProcessMaps.length = 1
  · obtain ⟨map, hone⟩ := List.length_eq_one_iff.mp hmap
    have hwords : words env.hpMapId = [decimal map.1] := by
      rw [words_hpMapId, hone]
      rfl
    rw [doEbpfMagic_eq_ite hwords, strtoumax_cgId, Option.ite_none_right_eq_some]
    exact and_congr_left fun _ ↦ ⟨fun hcreated ↦ ⟨hcreated.1, hcreated.2, hmap⟩,
      fun hcompletes ↦ ⟨hcompletes.tmpl, hcompletes.created⟩⟩
  · have hnames : ∀ name ∈ words env.hpMapId, name ≠ "key".toList := by
      intro name hname
      rw [words_hpMapId] at hname
      obtain ⟨map, -, rfl⟩ := List.mem_map.mp hname
      intro hkey
      have hdigit : 'k' ∈ decimal map.1 := hkey ▸ List.mem_cons_self
      exact absurd (isDigit_of_mem_decimal hdigit) (by decide)
    have hlength : (words env.hpMapId).length ≠ 1 := by
      rwa [words_hpMapId, List.length_map]
    rw [doEbpfMagic_eq_none hnames hlength]
    constructor
    · rintro ⟨-, hnone⟩
      cases hnone
    · rintro ⟨hcompletes, -⟩
      exact absurd hcompletes.oneMap hmap

/-- What every write of a run meets, the two numbers meet, unless the run gets to no write. -/
theorem forall_writes_iff {argument : Text} (h : ∀ c ∈ argument, c.isAlphanum)
    {Q : Buffer 8 → Buffer 4 → Prop} :
    (∀ netidMap netidMap', env.run argument netidMap = some netidMap' →
        ∃ key value, netidMap.update key value = some netidMap' ∧ Q key value) ↔
      ¬ env.Completes argument ∨ 2 ^ 32 ≤ identityNumber argument ∨
        Q (leBuffer 8 env.cgroupNumber) (leBuffer 4 (identityNumber argument)) := by
  constructor
  · intro hwrites
    by_cases hcompletes : env.Completes argument
    · rcases Nat.lt_or_ge (identityNumber argument) (2 ^ 32) with hsmall | hlarge
      · -- In an empty map the entry is the only one.
        have haccepts : (BoundedMap.empty : HostProcessNetidMap).Accepts (leBuffer 8 env.cgroupNumber) :=
          .inr (by simp)
        have hupdate := BoundedMap.update_of_accepts (leBuffer 4 (identityNumber argument)) haccepts
        have hrun := (run_eq_some h).mpr ⟨hcompletes, hsmall, hupdate⟩
        obtain ⟨key, value, hother, hmeets⟩ := hwrites _ _ hrun
        obtain ⟨hkey, hvalue⟩ := BoundedMap.update_empty_inj hupdate hother
        exact .inr (.inr (hkey ▸ hvalue ▸ hmeets))
      · exact .inr (.inl hlarge)
    · exact .inl hcompletes
  · intro hmeets netidMap netidMap' hrun
    obtain ⟨hcompletes, hsmall, hupdate⟩ := (run_eq_some h).mp hrun
    rcases hmeets with hnot | hlarge | hmeets
    · exact absurd hcompletes hnot
    · exact absurd hsmall (Nat.not_lt.mpr hlarge)
    · exact ⟨_, _, hupdate, hmeets⟩

end MagicEnv

end EbpfPlayground.HostProcessId
