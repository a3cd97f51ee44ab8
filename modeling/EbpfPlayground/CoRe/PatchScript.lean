import EbpfPlayground.CoRe.Snoop
import EbpfPlayground.Foundation.Name
import EbpfPlayground.Foundation.StrategicMerge

/-!
# What a resize can change

`resize_k8s_pod` hands the `resize` string of the annotation to `patch-pod-resources.sh` as it stands,
and the script pastes it into the text of a strategic-merge patch.  The patch changes nothing but the
resources of the container, exactly when the pasted text makes it name nothing else; a text that is
one JSON value never does.
-/

namespace EbpfPlayground.CoRe

open Shell Text

/-! ## The script -/

/-- `patch_str`. -/
def patchStr (containerName resources : Text) : Text :=
  "\x7b\"spec\":\x7b\"containers\":[\x7b\"name\":\"".toList ++ containerName ++
    "\",\"resources\":".toList ++ resources ++ "\x7d]\x7d\x7d".toList

/-- The arguments that `patch-pod-resources.sh` makes for `kubectl`; that the kernel may refuse an argument
for its length is left to the start of `kubectl`.  The offset in `${4:default}` is the arithmetic value of
an unset variable, so `pod_ns` is the whole fourth argument. -/
def kubectlArgs (env : SnoopEnv) (call : PatchCall) : List Text :=
  ["-n".toList] ++ env.expand call.podNs ++ ["patch".toList, "pod".toList] ++
    env.expand call.podName ++ ["--patch".toList] ++
    env.expand (patchStr call.containerName call.resources)

/-! ## The patch -/

/-- What `kubectl -n <ns> patch pod <name> --patch <text>` patches. -/
structure KubectlPatch where
  ns : Text
  name : Text
  text : Text
  deriving DecidableEq

def kubectl : List Text → Option KubectlPatch
  | [n, ns, patch, pod, name, flag, text] =>
    if [n, patch, pod, flag] = ["-n".toList, "patch".toList, "pod".toList, "--patch".toList] then
      some ⟨ns, name, text⟩
    else none
  | _ => none

/-- Go's JSON decoder. -/
def kubectlJson (numberOk : Text → Bool) : Json.Dialect where
  maxDepth := 10000
  numberOk := numberOk
  nonFinite := false
  loneSurrogate := fun _ ↦ some '\uFFFD'

/-- The pod after a run of the script; `none` where `kubectl` is not called in this way or reads a text
that is no JSON. -/
def patchedPod (env : SnoopEnv) (numberOk : Text → Bool) (merge : List Text → Json → Json → Json)
    (call : PatchCall) (pod : Json) : Option Json := do
  let command ← kubectl (kubectlArgs env call)
  let patch ← Json.parse (kubectlJson numberOk) command.text
  return merge [] patch pod

/-- The resources of the containers with this name. -/
def resourcesOf (containerName : Text) : Merge.Scope :=
  .member "spec".toList (.member "containers".toList
    (.field "name".toList containerName "resources".toList))

/-- Whatever the schema, as long as it merges containers by their names, whatever the merge, as long
as it follows the rules, and whatever the pod, as long as it has the container: a run of the script
changes nothing but the container's resources. -/
def ChangesOnlyResources (env : SnoopEnv) (numberOk : Text → Bool) (call : PatchCall) : Prop :=
  ∀ mergeKeys merge pod pod', mergeKeys ["spec".toList, "containers".toList] = some "name".toList →
    Merge.StrategicMerge mergeKeys merge → (resourcesOf call.containerName).Fits pod →
      patchedPod env numberOk merge call pod = some pod' →
        (resourcesOf call.containerName).Unchanged pod' pod

/-- The patch text, where it is JSON, names nothing but the resources of the container. -/
def NamesOnlyResources (d : Json.Dialect) (containerName resources : Text) : Prop :=
  ∀ patch, Json.parse d (patchStr containerName resources) = some patch →
    (resourcesOf containerName).Names patch

/-- The string in the `resize` member of the pod's annotation. -/
def resizeText (env : SnoopEnv) (podNs podName : Text) : Option Text := do
  let annotations ← env.getPod podNs podName
  let text ← annotations.lookup annotationKey
  let resizeJson ← Json.parse (serdeJson env.numberOk) text
  (resizeJson.index resizeKey).asStr

/-- The texts that the script expands without quotes are one argument each. -/
structure OneArgumentEach (env : SnoopEnv) (call : PatchCall) : Prop where
  podNs : IsName call.podNs
  podName : IsName call.podName
  containerName : IsName call.containerName
  resources : ∀ c ∈ call.resources, isBlank c = false
  /-- Names have no character that is special in a pattern. -/
  globName : ∀ name, IsName name → env.glob name = [name]
  /-- No file matches the patch text. -/
  globPatch : env.glob (patchStr call.containerName call.resources) =
    [patchStr call.containerName call.resources]

/-! ## One JSON value -/

section Template

variable {d : Json.Dialect} {containerName resources : Text}

/-- The patch that the script means. -/
def resourcesPatch (containerName : Text) (resources : Json) : Json :=
  .obj [("spec".toList, .obj [("containers".toList, .arr [.obj
    [("name".toList, .str containerName), ("resources".toList, resources)]])])]

theorem patchStr_before : "\x7b\"spec\":\x7b\"containers\":[\x7b\"name\":\"".toList =
    (['{'] ++ Json.quote "spec".toList ++ [':', '{'] ++ Json.quote "containers".toList ++
      [':', '[', '{'] ++ Json.quote "name".toList ++ [':', '"'] : Text) := by
  decide +kernel

theorem patchStr_between : "\",\"resources\":".toList =
    (['"', ','] ++ Json.quote "resources".toList ++ [':'] : Text) := by
  decide +kernel

theorem patchStr_after : "\x7d]\x7d\x7d".toList = ['}', ']', '}', '}'] := by
  decide +kernel

theorem patchStr_eq (hname : IsName containerName) :
    patchStr containerName resources =
      '{' :: [','].intercalate [Json.quote "spec".toList ++ ':' ::
        ('{' :: [','].intercalate [Json.quote "containers".toList ++ ':' ::
          ('[' :: [','].intercalate ['{' :: [','].intercalate
            [Json.quote "name".toList ++ ':' :: Json.quote containerName,
              Json.quote "resources".toList ++ ':' :: resources] ++ ['}']] ++ [']'])] ++ ['}'])] ++
        ['}'] := by
  have hquote : Json.quote containerName = '"' :: containerName ++ ['"'] := by
    rw [Json.quote, hname.escaped_eq]
  unfold patchStr
  simp only [patchStr_before, patchStr_between, patchStr_after]
  simp only [hquote, List.intercalate_singleton, List.intercalate_cons_cons]
  simp only [List.append_assoc, List.cons_append, List.nil_append]

theorem reads_patchStr (hname : IsName containerName) {depth : ℕ} {value : Json}
    (hvalue : Json.Reads (Json.scanValue d depth) resources value) :
    Json.Reads (Json.scanValue d (depth + 4)) (patchStr containerName resources)
      (resourcesPatch containerName value) := by
  have hkeys : ∀ key ∈ ["spec".toList, "containers".toList, "name".toList, "resources".toList],
      Json.Printable key := by
    decide +kernel
  simp only [List.forall_mem_cons] at hkeys
  obtain ⟨hspec, hcontainers, hnameKey, hresources, -⟩ := hkeys
  have hdistinct : ([("name".toList, Json.str containerName), ("resources".toList, value)].map
      Prod.fst).Nodup :=
    (by decide +kernel : ["name".toList, "resources".toList].Nodup)
  have hcontainer := Json.reads_obj (.cons (Json.reads_member hnameKey
    (Json.reads_quote (d := d) hname.printable depth)) (.cons (Json.reads_member hresources hvalue) .nil))
  rw [Json.ofMembers_of_nodup hdistinct] at hcontainer
  have hspecValue := Json.reads_obj (.cons (Json.reads_member hcontainers
    (Json.reads_arr (.cons hcontainer .nil))) .nil)
  rw [Json.ofMembers_singleton] at hspecValue
  have hpatch := Json.reads_obj (.cons (Json.reads_member hspec hspecValue) .nil)
  rw [Json.ofMembers_singleton] at hpatch
  rw [patchStr_eq hname]
  exact hpatch

theorem names_resourcesPatch (containerName : Text) (value : Json) :
    (resourcesOf containerName).Names (resourcesPatch containerName value) := by
  refine ⟨_, rfl, ?_⟩
  intro spec hspec
  cases List.mem_singleton.mp hspec
  refine ⟨rfl, _, rfl, ?_⟩
  intro containers hcontainers
  cases List.mem_singleton.mp hcontainers
  refine ⟨rfl, _, rfl, ?_⟩
  intro container hcontainer
  refine ⟨_, List.mem_singleton.mp hcontainer, List.lookup_cons_self, ?_⟩
  intro m hm
  rcases List.mem_cons.mp hm with rfl | hm
  · exact .inl rfl
  · cases List.mem_singleton.mp hm
    exact .inr rfl

/-- A text that is one JSON value stays in its place. -/
theorem namesOnlyResources_of_parse (hname : IsName containerName) {value : Json}
    (h : Json.parse d resources = some value) : NamesOnlyResources d containerName resources := by
  intro patch hpatch
  have htemplate := reads_patchStr hname (Json.reads_of_parse h le_rfl)
  obtain rfl := Json.eq_of_parse_of_reads hpatch (Nat.le_add_right _ 4) htemplate
  exact names_resourcesPatch containerName value

end Template

/-! ## Any text -/

theorem expand_of_glob {env : SnoopEnv} {text : Text} (hplain : Shell.Plain text)
    (hglob : env.glob text = [text]) : env.expand text = [text] := by
  rw [SnoopEnv.expand, hplain.words, List.flatMap_singleton, hglob]

theorem patchStr_no_blank :
    (∀ c ∈ "\x7b\"spec\":\x7b\"containers\":[\x7b\"name\":\"".toList, isBlank c = false) ∧
      (∀ c ∈ "\",\"resources\":".toList, isBlank c = false) ∧
      ∀ c ∈ "\x7d]\x7d\x7d".toList, isBlank c = false := by
  decide +kernel

theorem plain_patchStr {containerName resources : Text} (hname : IsName containerName)
    (hresources : ∀ c ∈ resources, isBlank c = false) :
    Shell.Plain (patchStr containerName resources) := by
  obtain ⟨hbefore, hbetween, hafter⟩ := patchStr_no_blank
  unfold patchStr
  constructor
  · intro hnil
    have hlast := (List.append_eq_nil_iff.mp hnil).2
    rw [patchStr_after] at hlast
    cases hlast
  · intro c hc
    simp only [List.mem_append] at hc
    rcases hc with (((hc | hc) | hc) | hc) | hc
    · exact hbefore c hc
    · exact hname.plain.no_blank c hc
    · exact hbetween c hc
    · exact hresources c hc
    · exact hafter c hc

theorem patchedPod_eq {env : SnoopEnv} {call : PatchCall} (hone : OneArgumentEach env call)
    (numberOk : Text → Bool) (merge : List Text → Json → Json → Json) (pod : Json) :
    patchedPod env numberOk merge call pod =
      (Json.parse (kubectlJson numberOk) (patchStr call.containerName call.resources)).map
        fun patch ↦ merge [] patch pod := by
  have hns := expand_of_glob hone.podNs.plain (hone.globName _ hone.podNs)
  have hname := expand_of_glob hone.podName.plain (hone.globName _ hone.podName)
  have htext := expand_of_glob (plain_patchStr hone.containerName hone.resources) hone.globPatch
  have hargs : kubectl (kubectlArgs env call) =
      some ⟨call.podNs, call.podName, patchStr call.containerName call.resources⟩ := by
    rw [kubectlArgs, hns, hname, htext]
    simp only [List.cons_append, List.nil_append]
    rw [kubectl, if_pos rfl]
  rw [patchedPod, hargs]
  simp only [Option.bind_eq_bind, Option.bind_some]
  generalize Json.parse (kubectlJson numberOk) _ = patch
  cases patch with
  | none => rfl
  | some patch => rfl

/-- A schema that merges containers by their names. -/
def podMergeKeys (path : List Text) : Option Text :=
  if path = ["spec".toList, "containers".toList] then some "name".toList else none

theorem podMergeKeys_containers :
    podMergeKeys ["spec".toList, "containers".toList] = some "name".toList := if_pos rfl

theorem follows_resourcesOf (containerName : Text) {mergeKeys : List Text → Option Text}
    (h : mergeKeys ["spec".toList, "containers".toList] = some "name".toList) :
    (resourcesOf containerName).Follows mergeKeys [] := by
  have hnames : "spec".toList.head? ≠ some '$' ∧ "containers".toList.head? ≠ some '$' ∧
      "name".toList ≠ "resources".toList ∧ "name".toList.head? ≠ some '$' ∧
      "resources".toList.head? ≠ some '$' := by
    decide +kernel
  exact ⟨hnames.1, hnames.2.1, h, hnames.2.2⟩

theorem resizeText_of_call {env : SnoopEnv} {podNs podName containerName : Text} {call : PatchCall}
    (h : (resizeK8sPod env podNs podName containerName).2 = some call) :
    resizeText env podNs podName = some call.resources := by
  unfold resizeK8sPod at h
  split at h
  · cases h
  · next annotations hpod =>
    split at h
    · cases h
    · next text htext =>
      split at h
      · cases h
      · next resizeJson hjson =>
        split at h
        · cases h
        · next resize hresize =>
          split at h
          · cases h
            simp [resizeText, hpod, htext, hjson, hresize]
          · cases h

/-- A run of the patch script gets the `resize` string as it stands, and changes nothing but the
resources of the container exactly when the patch text names nothing else. -/
theorem changesOnlyResources_iff {env : SnoopEnv} {podNs podName containerName : Text}
    {call : PatchCall} (hcall : (resizeK8sPod env podNs podName containerName).2 = some call)
    (hone : OneArgumentEach env call) (numberOk : Text → Bool) :
    resizeText env podNs podName = some call.resources ∧
      (ChangesOnlyResources env numberOk call ↔
        NamesOnlyResources (kubectlJson numberOk) call.containerName call.resources) := by
  refine ⟨resizeText_of_call hcall, ?_, ?_⟩
  · intro hchanges patch hpatch
    by_contra hnames
    obtain ⟨pod, hfits, hchanged⟩ := Merge.exists_changed
      (follows_resourcesOf call.containerName podMergeKeys_containers)
      (Json.distinct_of_parse hpatch) hnames
    have hpod' : patchedPod env numberOk (Merge.applyPatch podMergeKeys) call pod =
        some (Merge.applyPatch podMergeKeys [] patch pod) := by
      rw [patchedPod_eq hone, hpatch, Option.map_some]
    exact hchanged (hchanges podMergeKeys (Merge.applyPatch podMergeKeys) pod _
      podMergeKeys_containers Merge.strategicMerge_applyPatch hfits hpod')
  · intro hnames mergeKeys merge pod pod' hkeys hmerge hfits hpod'
    rw [patchedPod_eq hone] at hpod'
    obtain ⟨patch, hpatch, hpatched⟩ := Option.map_eq_some_iff.mp hpod'
    subst hpatched
    exact hmerge.unchanged (follows_resourcesOf call.containerName hkeys)
      (Json.distinct_of_parse hpatch) (hnames patch hpatch) hfits

/-! ## The demo -/

/-- An annotation with this `resize` string. -/
def demoResize (resources : Text) : List (Text × Text) :=
  [(annotationKey, Json.stringObject [] [(resizeKey, resources)])]

def demoCall (resources : Text) : PatchCall where
  podName := "demo".toList
  containerName := "ctr".toList
  resources := resources
  podNs := "default".toList

theorem oneArgumentEach_demoCall {resources : Text} (h : ∀ c ∈ resources, isBlank c = false) :
    OneArgumentEach (demoSnoopEnv "demo".toList (demoResize resources)) (demoCall resources) where
  podNs := (by decide +kernel : IsName "default".toList)
  podName := (by decide +kernel : IsName "demo".toList)
  containerName := (by decide +kernel : IsName "ctr".toList)
  resources := h
  globName := fun _ _ ↦ rfl
  globPatch := rfl

/-- A `resize` string that is one JSON value. -/
theorem changesOnlyResources_limits :
    ChangesOnlyResources
      (demoSnoopEnv "demo".toList (demoResize "\x7b\"limits\":\x7b\"cpu\":\"2\"\x7d\x7d".toList))
      (fun _ ↦ true) (demoCall "\x7b\"limits\":\x7b\"cpu\":\"2\"\x7d\x7d".toList) := by
  have hcall : (resizeK8sPod (demoSnoopEnv "demo".toList
      (demoResize "\x7b\"limits\":\x7b\"cpu\":\"2\"\x7d\x7d".toList))
        "default".toList "demo".toList "ctr".toList).2 =
      some (demoCall "\x7b\"limits\":\x7b\"cpu\":\"2\"\x7d\x7d".toList) := by
    decide +kernel
  have hblank : ∀ c ∈ "\x7b\"limits\":\x7b\"cpu\":\"2\"\x7d\x7d".toList, isBlank c = false := by
    decide +kernel
  have hvalue : Json.parse (kubectlJson fun _ ↦ true)
      "\x7b\"limits\":\x7b\"cpu\":\"2\"\x7d\x7d".toList =
        some (.obj [("limits".toList, .obj [("cpu".toList, .str ['2'])])]) := by
    decide +kernel
  exact (changesOnlyResources_iff hcall (oneArgumentEach_demoCall hblank) _).2.mpr
    (namesOnlyResources_of_parse (by decide +kernel) hvalue)

/-- A text that closes the container and opens another one. -/
def evilResize : Text :=
  "\x7b\x7d\x7d,\x7b\"name\":\"other\",\"image\":\"evil\"".toList

/-- A pod with two containers. -/
def demoPodJson (first second : List (Text × Json)) : Json :=
  .obj [("spec".toList, .obj [("containers".toList, .arr [
    .obj (("name".toList, .str "ctr".toList) :: first),
    .obj (("name".toList, .str "other".toList) :: second)])])]

theorem fits_demoPodJson (first second : List (Text × Json)) :
    (resourcesOf "ctr".toList).Fits (demoPodJson first second) := by
  refine ⟨_, _, rfl, List.lookup_cons_self, _, _, rfl, List.lookup_cons_self, _, rfl, ?_, _,
    List.mem_cons_self, ?_⟩
  · intro container hcontainer
    rcases List.mem_cons.mp hcontainer with rfl | hcontainer
    · exact ⟨_, _, rfl, List.lookup_cons_self⟩
    · exact ⟨_, _, List.mem_singleton.mp hcontainer, List.lookup_cons_self⟩
  · simp only [Json.get, List.lookup_cons_self]

/-- Only the first container has the name. -/
theorem eq_of_unchanged_demoPodJson {first second first' second' : List (Text × Json)}
    (h : (resourcesOf "ctr".toList).Unchanged (demoPodJson first' second')
      (demoPodJson first second)) : second' = second := by
  have hindex : ∀ first second, ((demoPodJson first second).index "spec".toList).index
      "containers".toList = .arr [.obj (("name".toList, .str "ctr".toList) :: first),
        .obj (("name".toList, .str "other".toList) :: second)] := by
    intro first second
    simp only [demoPodJson, Json.index, Json.get, List.lookup_cons_self, Option.getD_some]
  have hfield := h.2.2
  rw [hindex, hindex] at hfield
  cases hfield with
  | cons _ hrest =>
    cases hrest with
    | cons hsame _ =>
      rcases hsame with heq | ⟨hname, _⟩
      · simpa using heq
      · simp only [Json.get, List.lookup_cons_self, Option.some.injEq, Json.str.injEq] at hname
        exact absurd hname (by decide +kernel)

/-- The text replaces the image of the other container. -/
theorem changesOnlyResources_counterexample :
    (resizeK8sPod (demoSnoopEnv "demo".toList (demoResize evilResize)) "default".toList
        "demo".toList "ctr".toList).2 = some (demoCall evilResize) ∧
      patchedPod (demoSnoopEnv "demo".toList (demoResize evilResize)) (fun _ ↦ true)
        (Merge.applyPatch podMergeKeys) (demoCall evilResize)
        (demoPodJson [] [("image".toList, .str "good".toList)]) =
          some (demoPodJson [("resources".toList, .obj [])] [("image".toList, .str "evil".toList)]) ∧
      ¬ ChangesOnlyResources (demoSnoopEnv "demo".toList (demoResize evilResize)) (fun _ ↦ true)
        (demoCall evilResize) := by
  have hpatched : patchedPod (demoSnoopEnv "demo".toList (demoResize evilResize)) (fun _ ↦ true)
      (Merge.applyPatch podMergeKeys) (demoCall evilResize)
      (demoPodJson [] [("image".toList, .str "good".toList)]) =
        some (demoPodJson [("resources".toList, .obj [])] [("image".toList, .str "evil".toList)]) := by
    decide +kernel
  refine ⟨by decide +kernel, hpatched, ?_⟩
  intro hchanges
  have hunchanged := hchanges podMergeKeys (Merge.applyPatch podMergeKeys) _ _
    podMergeKeys_containers Merge.strategicMerge_applyPatch (fits_demoPodJson _ _) hpatched
  exact absurd (eq_of_unchanged_demoPodJson hunchanged) (by decide +kernel)

end EbpfPlayground.CoRe
