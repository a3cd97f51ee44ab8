import EbpfPlayground.Bcc.SnoopTrace

/-!
# What one trace message leaves to the next

A turn of the trace handler that finds a false `resize` value patches with the `req` and `lim` of an
earlier turn.  Every other turn binds them before it reads them, so what it sends does not depend on
the history.
-/

namespace EbpfPlayground.Bcc

open Python Text

/-! ## What a turn does with the variables -/

/-- The event matches the annotation of its pod, but the `resize` text of the annotation is a JSON
value that counts as false, so the turn patches with the values of an earlier turn. -/
def ReusesLocals (handler : Handler) (turn : Turn) : Prop :=
  ∃ found resources, matchTrace handler turn = .ok (some found) ∧
    resourcesJson handler.py found.resizeJson = .ok resources ∧ truthy handler.py resources = false

theorem assignResources_of_false {py : Interpreter} {resizeJson resources : Json}
    (hresources : resourcesJson py resizeJson = .ok resources) (hfalse : truthy py resources = false)
    (locals : Locals) : assignResources py resizeJson locals = .ok locals := by
  rw [assignResources, hresources]
  simp only [bind, Except.bind, hfalse]
  rfl

theorem assignResources_eq {py : Interpreter} {resizeJson : Json}
    (htrue : ∀ resources, resourcesJson py resizeJson = .ok resources → truthy py resources = true)
    (locals₁ locals₂ : Locals) :
    assignResources py resizeJson locals₁ = assignResources py resizeJson locals₂ := by
  unfold assignResources
  cases hresources : resourcesJson py resizeJson with
  | error e => rfl
  | ok resources =>
    simp only [bind, Except.bind, htrue resources hresources]
    rfl

/-- Where a turn binds the variables before it reads them, its patch depends on the turn only. -/
theorem patch_eq_of_not_reusesLocals {handler : Handler} {turn : Turn}
    (h : ¬ ReusesLocals handler turn) (locals₁ locals₂ : Locals) :
    (handleEbpfSnoopTrace handler locals₁ turn).patch =
      (handleEbpfSnoopTrace handler locals₂ turn).patch := by
  unfold handleEbpfSnoopTrace
  cases hfound : matchTrace handler turn with
  | error e => rfl
  | ok result =>
    cases result with
    | none => rfl
    | some found =>
      have htrue : ∀ resources, resourcesJson handler.py found.resizeJson = .ok resources →
          truthy handler.py resources = true := by
        intro resources hresources
        by_contra hfalse
        exact h ⟨found, resources, hfound, hresources, Bool.eq_false_of_not_eq_true hfalse⟩
      have hassigned := assignResources_eq htrue locals₁ locals₂
      dsimp only
      rw [hassigned]
      cases assignResources handler.py found.resizeJson locals₂ with
      | error e => rfl
      | ok assigned => rfl

/-- A turn that reuses the variables patches with their values, and sends nothing while they are
unbound. -/
theorem patch_of_reusesLocals {handler : Handler} {turn : Turn} (h : ReusesLocals handler turn) :
    ∃ found, matchTrace handler turn = .ok (some found) ∧
      ∀ locals, (handleEbpfSnoopTrace handler locals turn).patch =
        locals.req.bind fun req ↦ locals.lim.map fun lim ↦ found.patch req lim := by
  obtain ⟨found, resources, hfound, hresources, hfalse⟩ := h
  refine ⟨found, hfound, fun locals ↦ ?_⟩
  unfold handleEbpfSnoopTrace
  rw [hfound]
  dsimp only
  rw [assignResources_of_false hresources hfalse]
  dsimp only
  cases hreq : locals.req with
  | none => rfl
  | some req =>
    cases hlim : locals.lim with
    | none => rfl
    | some lim => cases hpatch : turn.env.patchNamespacedPod (found.patch req lim) <;> simp [hpatch]

/-! ## A turn that binds the variables -/

/-- A `resize` text with both members. -/
def bindingResources (name : Text) : Text :=
  Json.stringObject [] [("requests".toList, name), ("limits".toList, name)]

def bindingAnnotationText (name : Text) : Text :=
  Json.stringObject [] [("cname".toList, name), ("commands".toList, name),
    ("resize".toList, bindingResources name)]

def bindingMessage (name : Text) : Text :=
  Json.stringObject [] [("cgroup_id".toList, name), ("command".toList, name)]

def bindingPod (name : Text) : V1Pod where
  ns := name
  name := name
  deletionTimestamp := none
  annotations := some [("ebpf-resize".toList, bindingAnnotationText name)]
  containers := []
  containerStatuses := none

/-- A world in which every command prints `name`, and a pod that asks for the resources `name`. -/
def bindingTurn (name : Text) : Turn where
  message := ⟨1, some (bindingMessage name)⟩
  env :=
    { popen := fun _ ↦ .ok name
      readNamespacedPod := fun _ _ ↦ .ok (bindingPod name)
      patchNamespacedPod := fun _ ↦ .ok () }

theorem resizeAnnotation_singleton (value : Text) :
    resizeAnnotation [("ebpf-resize".toList, value)] = .ok value := by
  unfold resizeAnnotation
  simp

/-- The names that the handler looks up in one object are distinct. -/
theorem memberNames_nodup : ["cgroup_id".toList, "command".toList].Nodup ∧
    ["cname".toList, "commands".toList, "resize".toList].Nodup ∧
    ["requests".toList, "limits".toList].Nodup := by
  decide +kernel

theorem printable_of_mem {c : Char} (h : c ∈ ['a', 'b']) :
    Json.Printable [c] ∧ Json.Printable (bindingResources [c]) := by
  revert c
  decide +kernel

theorem strip_of_mem {c : Char} (h : c ∈ ['a', 'b']) :
    strip [c] = [c] ∧ stripQuotes [c] = [c] := by
  revert c
  decide

variable {handler : Handler} {c : Char}

theorem jsonLoads_bindingMessage (hdepth : 0 < handler.py.recursionLimit) (hc : c ∈ ['a', 'b']) :
    jsonLoads handler.py (bindingMessage [c]) =
      .ok (.obj [("cgroup_id".toList, .str [c]), ("command".toList, .str [c])]) := by
  apply jsonLoads_stringObject hdepth
    [("cgroup_id".toList, [c]), ("command".toList, [c])] (List.cons_ne_nil _ _)
    memberNames_nodup.1
  simp only [List.forall_mem_cons, (printable_of_mem hc).1]
  decide +kernel

theorem jsonLoads_bindingResources (hdepth : 0 < handler.py.recursionLimit) (hc : c ∈ ['a', 'b']) :
    jsonLoads handler.py (bindingResources [c]) =
      .ok (.obj [("requests".toList, .str [c]), ("limits".toList, .str [c])]) := by
  apply jsonLoads_stringObject hdepth
    [("requests".toList, [c]), ("limits".toList, [c])] (List.cons_ne_nil _ _)
    memberNames_nodup.2.2
  simp only [List.forall_mem_cons, (printable_of_mem hc).1]
  decide +kernel

theorem jsonLoads_bindingAnnotationText (hdepth : 0 < handler.py.recursionLimit)
    (hc : c ∈ ['a', 'b']) :
    jsonLoads handler.py (bindingAnnotationText [c]) =
      .ok (.obj [("cname".toList, .str [c]), ("commands".toList, .str [c]),
        ("resize".toList, .str (bindingResources [c]))]) := by
  apply jsonLoads_stringObject hdepth
    [("cname".toList, [c]), ("commands".toList, [c]), ("resize".toList, bindingResources [c])]
    (List.cons_ne_nil _ _) memberNames_nodup.2.1
  simp only [List.forall_mem_cons, (printable_of_mem hc).1, (printable_of_mem hc).2]
  decide +kernel

theorem matchTrace_bindingTurn (hdepth : 0 < handler.py.recursionLimit) (hc : c ∈ ['a', 'b'])
    (hname : [c] ≠ handler.nodename) :
    matchTrace handler (bindingTurn [c]) = .ok (some ⟨[c], [c], bindingPod [c], [c], .obj
      [("cname".toList, .str [c]), ("commands".toList, .str [c]),
        ("resize".toList, .str (bindingResources [c]))]⟩) := by
  obtain ⟨hspace, hstrip⟩ := strip_of_mem hc
  have houtput : ∀ command, (bindingTurn [c]).env.output command = .ok [c] := fun command ↦
    congrArg Except.ok hspace
  have hcontainer : ∀ cgroupId,
      containerIdOf handler.py (bindingTurn [c]).env cgroupId = .ok [c] := by
    intro cgroupId
    simp [containerIdOf, houtput, bind, Except.bind, pure, Except.pure]
  have hmsg := jsonLoads_bindingMessage hdepth hc
  have hannotation := jsonLoads_bindingAnnotationText hdepth hc
  have hnames := memberNames_nodup
  simp only [List.nodup_cons, List.mem_cons, not_or] at hnames
  have hcommand := getItem_of_ne (Ne.symm hnames.1.1.1)
  have hcommands := getItem_of_ne (Ne.symm hnames.2.1.1.1)
  have hread : (bindingTurn [c]).env.readNamespacedPod [c] [c] = .ok (bindingPod [c]) := rfl
  have htext : (bindingTurn [c]).message.msg = some (bindingMessage [c]) := rfl
  have hpod : (bindingPod [c]).annotations =
      some [("ebpf-resize".toList, bindingAnnotationText [c])] := rfl
  have hempty : bindingAnnotationText [c] ≠ [] := List.cons_ne_nil _ _
  rw [matchTrace]
  simp only [houtput, bind, Except.bind, pure, Except.pure, hname, List.cons_ne_nil, or_self,
    if_false, htext, hmsg, getItem_self, hcommand, hcontainer, hstrip, hread, hpod,
    resizeAnnotation_singleton, hempty, hannotation, hcommands, contains_self]
  simp [truthy, equal]

theorem traceStep_bindingTurn (hdepth : 0 < handler.py.recursionLimit) (hc : c ∈ ['a', 'b'])
    (hname : [c] ≠ handler.nodename) :
    traceStep handler .init (bindingTurn [c]) = some ⟨some (.str [c]), some (.str [c])⟩ := by
  have hmatch := matchTrace_bindingTurn hdepth hc hname
  have hnames := memberNames_nodup
  simp only [List.nodup_cons, List.mem_cons, not_or] at hnames
  have hresize := getItem_of_ne (Ne.symm hnames.2.1.1.2.1)
  have hresize' := getItem_of_ne (Ne.symm hnames.2.1.2.1.1)
  have hlimits := getItem_of_ne (Ne.symm hnames.2.2.1.1)
  have hresources : resourcesJson handler.py (.obj [("cname".toList, .str [c]),
      ("commands".toList, .str [c]), ("resize".toList, .str (bindingResources [c]))]) =
        .ok (.obj [("requests".toList, .str [c]), ("limits".toList, .str [c])]) := by
    simp only [resourcesJson, hresize, hresize', getItem_self, bind, Except.bind,
      jsonLoads_bindingResources hdepth hc]
  rw [traceStep, handleEbpfSnoopTrace, hmatch]
  simp only [assignResources, hresources, getItem_self, hlimits, bind, Except.bind]
  rfl

theorem recursionLimit_pos_of_matchTrace {turn : Turn} {found : Match}
    (h : matchTrace handler turn = .ok (some found)) : 0 < handler.py.recursionLimit := by
  obtain ⟨podName, _, h⟩ := exists_of_bind_eq_ok h
  split at h
  · cases h
  split at h
  · obtain ⟨msgJson, hloads, h⟩ := exists_of_bind_eq_ok h
    split at h
    · cases h
    · obtain ⟨cgroupId, hitem, h⟩ := exists_of_bind_eq_ok h
      exact recursionLimit_pos_of_getItem hloads hitem
  · cases h

/-- Some history of one turn binds both variables. -/
theorem exists_binding_run (hdepth : 0 < handler.py.recursionLimit) :
    ∃ history req lim, Run.run (traceStep handler) .init history = some ⟨some req, some lim⟩ := by
  obtain ⟨c, hc, hname⟩ : ∃ c ∈ ['a', 'b'], [c] ≠ handler.nodename := by
    by_cases hnodename : handler.nodename = ['a']
    · exact ⟨'b', by decide, by rw [hnodename]; decide⟩
    · exact ⟨'a', by decide, Ne.symm hnodename⟩
  refine ⟨[bindingTurn [c]], .str [c], .str [c], ?_⟩
  rw [Run.run_cons, traceStep_bindingTurn hdepth hc hname]
  rfl

/-! ## Two histories -/

/-- What a turn sends does not depend on the turns before it. -/
def HistoryFree (handler : Handler) (turn : Turn) : Prop :=
  ∀ history₁ history₂ locals₁ locals₂,
    Run.run (traceStep handler) .init history₁ = some locals₁ →
    Run.run (traceStep handler) .init history₂ = some locals₂ →
    (handleEbpfSnoopTrace handler locals₁ turn).patch =
      (handleEbpfSnoopTrace handler locals₂ turn).patch

def demoHandler : Handler where
  py :=
    { recursionLimit := 1000
      numberOk := fun _ ↦ true
      numberTruthy := fun literal ↦ literal ≠ ['0']
      numberEq := fun a b ↦ a = b
      numberEqBool := fun _ _ ↦ false
      loneSurrogate := fun _ ↦ none
      tooDeep := fun _ ↦ false
      str := fun _ ↦ [] }
  nodename := "node1".toList

/-- The container `ctr` of a pod runs `make`; the pod's annotation has this `resize` member. -/
def demoTurn (podName resize : Text) : Turn where
  message := ⟨7777, some (Json.stringObject [' ']
    [("cgroup_id".toList, "4242".toList), ("command".toList, "make".toList)])⟩
  env :=
    { popen := fun command ↦ .ok (
        if command.head? = some 'n' then podName ++ ['\n']
        else if command.head? = some 'b' then "c0ffee\n".toList
        else if command = podNsCmd "c0ffee".toList then "\"default\"\n".toList
        else "\"ctr\"\n".toList)
      readNamespacedPod := fun name ns ↦ .ok
        { ns := ns
          name := name
          deletionTimestamp := none
          annotations := some [("ebpf-resize".toList, Json.stringObject []
            [("cname".toList, "ctr".toList), ("commands".toList, "make".toList),
              ("resize".toList, resize)])]
          containers := [⟨"ctr".toList, none⟩]
          containerStatuses := none }
      patchNamespacedPod := fun _ ↦ .ok () }

end EbpfPlayground.Bcc
