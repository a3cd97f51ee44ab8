import EbpfPlayground.CoRe.PatchScript

/-!
# The arguments of `kubectl`

`patch-pod-resources.sh` leaves its expansions unquoted.  Names are one argument each, and so is the
patch where the resources have no blank; then it is the document that it should be.  One blank anywhere
in the resources makes two arguments of the patch.
-/

namespace EbpfPlayground.CoRe

open Shell Text

/-- `kubectl` is called in the intended way, with a patch that sets these resources of the container.
The patch nests four levels deeper than the resources. -/
def ReachesKubectl (env : SnoopEnv) (d : Json.Dialect) (call : PatchCall) (resources : Json) : Prop :=
  ∃ patch, kubectlArgs env call = ["-n".toList, call.podNs, "patch".toList, "pod".toList, call.podName,
      "--patch".toList, patch] ∧
    Json.parse { d with maxDepth := d.maxDepth + 4 } patch =
      some (resourcesPatch call.containerName resources)

variable {env : SnoopEnv} {d : Json.Dialect} {call : PatchCall} {resources : Json}

/-- A blank in the resources splits the patch. -/
theorem two_le_length_words_patchStr (containerName : Text) {resources : Text} {c : Char}
    (hmem : c ∈ resources) (hblank : isBlank c = true) :
    2 ≤ (words (patchStr containerName resources)).length := by
  obtain ⟨front, rest, rfl⟩ := List.append_of_mem hmem
  have hsplit : patchStr containerName (front ++ c :: rest) =
      ('{' :: ("\"spec\":\x7b\"containers\":[\x7b\"name\":\"".toList ++ containerName ++
        "\",\"resources\":".toList ++ front)) ++ c :: (rest ++ ['}', ']', '}'] ++ ['}']) := by
    have hbefore : "\x7b\"spec\":\x7b\"containers\":[\x7b\"name\":\"".toList =
        '{' :: "\"spec\":\x7b\"containers\":[\x7b\"name\":\"".toList := by
      decide +kernel
    unfold patchStr
    simp only [hbefore, patchStr_after, List.append_assoc, List.cons_append, List.nil_append]
  rw [hsplit, words_append_blank _ _ hblank, List.length_append]
  exact Nat.add_le_add (List.length_pos_of_ne_nil (words_cons_ne_nil rfl _))
    (List.length_pos_of_ne_nil (words_append_singleton_ne_nil rfl _))

/-- A JSON text reaches `kubectl` intact exactly where it has no space, no tab and no newline. -/
theorem reachesKubectl_iff (hglob : ∀ field, env.glob field = [field]) (hns : IsName call.podNs)
    (hpod : IsName call.podName) (hcontainer : IsName call.containerName)
    (hparse : Json.parse d call.resources = some resources) :
    ReachesKubectl env d call resources ↔ ∀ c ∈ call.resources, isBlank c = false := by
  have hexpand : ∀ text, env.expand text = words text :=
    fun _ ↦ SnoopEnv.expand_eq_words fun field _ ↦ hglob field
  have hargs : kubectlArgs env call = ["-n".toList, call.podNs, "patch".toList, "pod".toList,
      call.podName, "--patch".toList] ++ words (patchStr call.containerName call.resources) := by
    rw [kubectlArgs, hexpand, hexpand, hexpand, hns.plain.words, hpod.plain.words]
    rfl
  constructor
  · rintro ⟨patch, hcall, -⟩ c hmem
    by_contra hblank
    rw [Bool.not_eq_false] at hblank
    have htwo := two_le_length_words_patchStr call.containerName hmem hblank
    rw [hargs] at hcall
    have hlength := congrArg List.length hcall
    rw [List.length_append] at hlength
    simp only [List.length_cons, List.length_nil] at hlength
    omega
  · intro hblank
    refine ⟨patchStr call.containerName call.resources, ?_, ?_⟩
    · rw [hargs, (plain_patchStr hcontainer hblank).words]
      rfl
    · have hwithin : d.Within { d with maxDepth := d.maxDepth + 4 } :=
        ⟨fun _ ↦ id, id, fun _ _ ↦ id⟩
      exact Json.parse_of_reads
        (reads_patchStr hcontainer (Json.reads_of_parse_within hwithin hparse (Nat.le_refl _)))

/-- A limit on the processor. -/
theorem reachesKubectl_limits :
    ReachesKubectl (demoSnoopEnv "demo".toList []) (serdeJson fun _ ↦ true)
      (demoCall "\x7b\"limits\":\x7b\"cpu\":\"2\"\x7d\x7d".toList)
      (.obj [("limits".toList, .obj [("cpu".toList, .str "2".toList)])]) :=
  (reachesKubectl_iff (fun _ ↦ rfl) (by decide +kernel) (by decide +kernel) (by decide +kernel)
    (by decide +kernel)).mpr (by decide +kernel)

/-- The same limit, with a space behind a colon. -/
theorem reachesKubectl_counterexample :
    Json.parse (serdeJson fun _ ↦ true) "\x7b\"limits\": \x7b\"cpu\":\"2\"\x7d\x7d".toList =
        some (.obj [("limits".toList, .obj [("cpu".toList, .str "2".toList)])]) ∧
      ¬ ReachesKubectl (demoSnoopEnv "demo".toList []) (serdeJson fun _ ↦ true)
        (demoCall "\x7b\"limits\": \x7b\"cpu\":\"2\"\x7d\x7d".toList)
        (.obj [("limits".toList, .obj [("cpu".toList, .str "2".toList)])]) := by
  have hargs : kubectlArgs (demoSnoopEnv "demo".toList [])
      (demoCall "\x7b\"limits\": \x7b\"cpu\":\"2\"\x7d\x7d".toList) =
        ["-n".toList, "default".toList, "patch".toList, "pod".toList, "demo".toList, "--patch".toList,
          "\x7b\"spec\":\x7b\"containers\":[\x7b\"name\":\"ctr\",\"resources\":\x7b\"limits\":".toList,
          "\x7b\"cpu\":\"2\"\x7d\x7d\x7d]\x7d\x7d".toList] := by
    decide +kernel
  refine ⟨by decide +kernel, ?_⟩
  rintro ⟨patch, hcall, -⟩
  rw [hargs] at hcall
  cases congrArg List.length hcall

end EbpfPlayground.CoRe
