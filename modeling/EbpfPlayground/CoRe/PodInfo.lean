import EbpfPlayground.CoRe.EventLoop
import EbpfPlayground.Foundation.JsonReject

/-!
# What the helper script resolves

`get-podns-podname-ctrname.sh` puts together two keys: the hostname that the event's pid sees and the
container that the event's cgroup id belongs to.  Where one of the two is gone, it prints nothing.
Where both are there and the hostname is plain, it prints the container's namespace and name and the
hostname, as strings of one JSON object.  A hostname of several words or with a control character
makes a text that is no JSON; a quote in it can say anything.
-/

namespace EbpfPlayground.CoRe

open Shell Text

/-- A hostname without characters that the shell, JSON's strings or pathname expansion treat
specially, blanks and control characters apart. -/
structure LiteralHostname (hostname : Text) : Prop where
  noQuote : '"' ∉ hostname
  no_pattern : ∀ c ∈ hostname, c ≠ '*' ∧ c ≠ '?' ∧ c ≠ '[' ∧ c ≠ '\\'

/-- A hostname that the script's `printf` puts into its JSON text as it is. -/
structure PlainHostname (hostname : Text) : Prop extends Plain hostname, LiteralHostname hostname where
  printable : Json.Printable hostname

/-- A container with its runtime id, and the pod and the name that its labels say.  All of them are
names as the container runtime and Kubernetes give them. -/
structure RunningContainer where
  id : Text
  container : Container
  isName_id : IsName id
  isName_ns : IsName container.pod.1
  isName_podName : IsName container.pod.2
  isName_name : IsName container.name

def RunningContainer.ns (c : RunningContainer) : Text := c.container.pod.1

def RunningContainer.podName (c : RunningContainer) : Text := c.container.pod.2

def RunningContainer.name (c : RunningContainer) : Text := c.container.name

/-- `find` prints the container's directory, and `crictl inspect` its true labels. -/
structure Describes (env : SnoopEnv) (cgroupId : UInt64) (c : RunningContainer) : Prop where
  directory : ∃ dir, Unexpanded dir ∧ grep "kubepods".toList (env.findInum (decimal cgroupId.toNat)) =
    [dir ++ '/' :: c.id]
  namespaceLabel : env.crictlNamespace c.id = Json.quote c.ns ++ ['\n']
  nameLabel : env.crictlName c.id = Json.quote c.name ++ ['\n']

/-- A field without pattern characters expands to itself. -/
def SnoopEnv.GlobsLiterally (env : SnoopEnv) : Prop :=
  ∀ field, Unexpanded field → env.glob field = [field]

variable {env : SnoopEnv} {event : PodExecEvent} {c : RunningContainer} {hostname : Text}

/-! ## Fields -/

theorem plainHostname_of_isName (h : IsName hostname) : PlainHostname hostname where
  toPlain := h.plain
  noQuote := h.notMem (by decide)
  no_pattern := h.unexpanded.no_pattern
  printable := h.printable

/-- A text without pattern characters expands to its fields. -/
theorem expand_of_no_pattern (hglob : env.GlobsLiterally) {text : Text}
    (h : ∀ c ∈ text, c ≠ '*' ∧ c ≠ '?' ∧ c ≠ '[' ∧ c ≠ '\\') : env.expand text = words text := by
  apply SnoopEnv.expand_eq_words
  intro field hfield
  have hplain := plain_of_mem_words hfield
  exact hglob field ⟨hplain.1, fun c hc ↦ h c (hplain.2 c hc)⟩

theorem expand_of_unexpanded (hglob : env.GlobsLiterally) {text : Text} (h : Unexpanded text) :
    env.expand text = [text] := by
  rw [expand_of_no_pattern hglob h.no_pattern, h.toPlain.words]

theorem LiteralHostname.backslash_notMem (h : LiteralHostname hostname) : '\\' ∉ hostname :=
  fun hmem ↦ (h.no_pattern _ hmem).2.2.2 rfl

theorem LiteralHostname.quote_eq (h : LiteralHostname hostname) :
    Json.quote hostname = '"' :: (hostname ++ ['"']) := by
  rw [Json.quote, Json.escaped_eq_self h.noQuote h.backslash_notMem]
  rfl

theorem LiteralHostname.of_mem_words (h : LiteralHostname hostname) {field : Text}
    (hfield : field ∈ words hostname) : LiteralHostname field := by
  have hsub := (plain_of_mem_words hfield).2
  exact ⟨fun hquote ↦ h.noQuote (hsub _ hquote), fun c hc ↦ h.no_pattern c (hsub c hc)⟩

/-! ## The container id -/

theorem basename_directory {dir id : Text} (hid : IsName id) :
    basename [dir ++ '/' :: id] = id := by
  have hslash : '/' ∉ id := hid.notMem (by decide)
  rw [basename, basename.last, List.splitOn_append_cons_self, List.splitOn_eq_singleton hslash,
    List.filter_append]
  have hkeep : [id].filter (· ≠ []) = [id] := by simp [hid.ne_nil]
  rw [hkeep, List.getLastD_concat]

theorem Describes.ctrIdOf {cgroupId : UInt64} (h : Describes env cgroupId c)
    (hglob : env.GlobsLiterally) : ctrIdOf env (decimal cgroupId.toNat) = c.id := by
  obtain ⟨dir, hdir, hgrep⟩ := h.directory
  have hid := c.isName_id
  have hslash : Unexpanded ['/'] := ⟨⟨by decide, by decide⟩, by decide⟩
  have hpath : Unexpanded (dir ++ '/' :: c.id) := hdir.append (hslash.append hid.unexpanded)
  have hlast : Shell.commandSubst (basename ([dir ++ '/' :: c.id].flatMap env.expand)) = c.id := by
    rw [List.flatMap_singleton, expand_of_unexpanded hglob hpath, basename_directory hid,
      commandSubst_eq_self hid.plain.newline_notMem]
  rw [CoRe.ctrIdOf, hgrep]
  by_cases hunified : contains "unified".toList (dir ++ '/' :: c.id) = true
  · have hfound : grep "unified".toList [dir ++ '/' :: c.id] = [dir ++ '/' :: c.id] := by
      simp only [grep, List.filter_cons, hunified, List.filter_nil, if_true]
    rw [hfound, hlast]
    exact if_neg hid.ne_nil
  · have hnone : grep "unified".toList [dir ++ '/' :: c.id] = [] := by
      simp only [grep, List.filter_cons, hunified, List.filter_nil, Bool.false_eq_true, if_false]
    rw [hnone]
    exact (if_pos rfl).trans hlast

/-- Without a directory there is no container id. -/
theorem ctrIdOf_eq_nil {cgroupId : Text}
    (h : grep "kubepods".toList (env.findInum cgroupId) = []) : ctrIdOf env cgroupId = [] := by
  rw [ctrIdOf, h]
  rfl

/-! ## The output -/

theorem printfPass_cons {c : Char} (h : c ≠ '%') (format : Text) (args : List Text) :
    printfPass (c :: format) args =
      (c :: (printfPass format args).1, (printfPass format args).2) := by
  rw [printfPass]
  exact fun _ heq _ ↦ h heq

theorem printfPass_append {text : Text} (h : '%' ∉ text) (format : Text) (args : List Text) :
    printfPass (text ++ format) args =
      (text ++ (printfPass format args).1, (printfPass format args).2) := by
  induction text with
  | nil => rfl
  | cons c text ih =>
    rw [List.mem_cons, not_or] at h
    rw [List.cons_append, printfPass_cons (Ne.symm h.1), ih h.2]
    rfl

/-- The script's text up to the quote in front of the hostname. -/
def podNsText (ns : Text) : Text :=
  '\x7b' :: (Json.quote "pod_ns".toList ++ ':' :: ' ' :: ns) ++ ',' :: ' ' ::
    Json.quote "pod_name".toList ++ [':', ' ', '"']

/-- The script's text from the quote behind the hostname on. -/
def containerNameText (name : Text) : Text :=
  '"' :: ',' :: ' ' :: Json.quote "container_name".toList ++ ':' :: ' ' :: name ++ ['\x7d']

/-- One pass over the format uses three arguments, missing ones being empty. -/
theorem printfPass_podInfo (args : List Text) :
    printfPass podInfoFormat args =
      (podNsText (args.headD []) ++ args.tail.headD [] ++ containerNameText (args.tail.tail.headD []),
        args.tail.tail.tail) := by
  have hformat : podInfoFormat = "\x7b\"pod_ns\": ".toList ++ '%' :: 's' ::
      (", \"pod_name\": \"".toList ++ '%' :: 's' :: ("\", \"container_name\": ".toList ++
        '%' :: 's' :: ("\x7d".toList ++ []))) := by
    decide +kernel
  have hopen : "\x7b\"pod_ns\": ".toList =
      '\x7b' :: (Json.quote "pod_ns".toList ++ [':', ' ']) := by
    decide +kernel
  have hname : ", \"pod_name\": \"".toList =
      ',' :: ' ' :: Json.quote "pod_name".toList ++ [':', ' ', '"'] := by
    decide +kernel
  have hcontainer : "\", \"container_name\": ".toList =
      '"' :: ',' :: ' ' :: Json.quote "container_name".toList ++ [':', ' '] := by
    decide +kernel
  have hclose : "\x7d".toList = ['\x7d'] := by
    decide +kernel
  rw [hformat, printfPass_append (by decide), printfPass, printfPass_append (by decide), printfPass,
    printfPass_append (by decide), printfPass, printfPass_append (by decide), printfPass, hopen, hname,
    hcontainer, hclose, podNsText, containerNameText]
  simp only [List.append_assoc, List.cons_append, List.nil_append, List.append_nil]

/-- Up to three arguments are used in one pass. -/
theorem printf_podInfo {args : List Text} (h : args.tail.tail.tail = []) :
    printf podInfoFormat args = podNsText (args.headD []) ++ args.tail.headD [] ++
      containerNameText (args.tail.tail.headD []) := by
  rw [printf, printfLoop, printfPass_podInfo]
  exact if_pos h

/-- With more arguments the format is used again. -/
theorem printf_podInfo_cons (podNs podName containerName : Text) {args : List Text} (h : args ≠ []) :
    ∃ rest, printf podInfoFormat (podNs :: podName :: containerName :: args) =
      podNsText podNs ++ podName ++ containerNameText containerName ++ '\x7b' :: rest := by
  obtain ⟨rest, hrest⟩ : ∃ rest, printfLoop podInfoFormat (args.length + 1 + 1 + 1) args =
      '\x7b' :: rest := by
    rw [printfLoop, printfPass_podInfo, podNsText]
    dsimp only
    split
    · exact ⟨_, rfl⟩
    · exact ⟨_, rfl⟩
  refine ⟨rest, ?_⟩
  rw [printf, List.length_cons, List.length_cons, List.length_cons, printfLoop, printfPass_podInfo]
  dsimp only [List.tail_cons, List.headD_cons]
  rw [if_neg h, hrest]

/-! ## What the handler reads -/

theorem podInfo_of_parse_eq_none {output : Text}
    (h : Json.parse (serdeJson env.numberOk) output = none) : podInfo env output = none := by
  rw [podInfo, h]
  rfl

/-- The object's strings are the container's namespace, the hostname and the container's name. -/
theorem podInfo_printf (c : RunningContainer) (hhostname : PlainHostname hostname) :
    podInfo env (printf podInfoFormat [Json.quote c.ns, hostname, Json.quote c.name]) =
      some (c.ns, hostname, c.name) := by
  have htext : printf podInfoFormat [Json.quote c.ns, hostname, Json.quote c.name] =
      Json.stringObject [' '] [("pod_ns".toList, c.ns), ("pod_name".toList, hostname),
        ("container_name".toList, c.name)] := by
    rw [printf_podInfo rfl, podNsText, containerNameText, Json.stringObject]
    simp only [List.tail_cons, List.headD_cons, List.map_cons, List.map_nil,
      List.intercalate_cons_cons, List.intercalate_singleton, hhostname.toLiteralHostname.quote_eq,
      List.append_assoc, List.cons_append, List.nil_append]
  have hparse : Json.parse (serdeJson env.numberOk) (Json.stringObject [' ']
      [("pod_ns".toList, c.ns), ("pod_name".toList, hostname), ("container_name".toList, c.name)]) =
      some (.obj [("pod_ns".toList, .str c.ns), ("pod_name".toList, .str hostname),
        ("container_name".toList, .str c.name)]) := by
    have hnodup : ["pod_ns".toList, "pod_name".toList, "container_name".toList].Nodup := by
      decide
    have hkeys : Json.Printable "pod_ns".toList ∧ Json.Printable "pod_name".toList ∧
        Json.Printable "container_name".toList := by
      decide
    refine Json.parse_stringObject (Nat.succ_pos _) (by decide) (List.cons_ne_nil _ _) hnodup ?_
    rw [List.forall_mem_cons, List.forall_mem_cons, List.forall_mem_singleton]
    exact ⟨⟨hkeys.1, c.isName_ns.printable⟩, ⟨hkeys.2.1, hhostname.printable⟩, hkeys.2.2,
      c.isName_name.printable⟩
  rw [podInfo, htext, hparse]
  rfl

/-- The scanner for a member of the script's object. -/
abbrev infoMember (env : SnoopEnv) (depth : ℕ) : Json.Scanner (Text × Json) :=
  Json.scanMember (serdeJson env.numberOk) (Json.scanValue (serdeJson env.numberOk) depth)

/-- A text that goes wrong after the namespace. -/
theorem podInfo_eq_none_of_rejects (c : RunningContainer) {rest : Text}
    (h : ∀ depth fuel, Json.Rejects (Json.scanItems (infoMember env depth) '\x7d' fuel)
      ([' '] ++ Json.quote "pod_name".toList ++ ':' :: ' ' :: '"' :: rest)) :
    podInfo env (podNsText (Json.quote c.ns) ++ rest) = none := by
  have hkey : Json.Printable "pod_ns".toList := by decide
  have hmember : ∀ depth, Json.Reads (infoMember env depth)
      (Json.quote "pod_ns".toList ++ ':' :: ' ' :: Json.quote c.ns) ("pod_ns".toList, .str c.ns) := by
    intro depth
    apply Json.reads_member hkey
    exact (Json.reads_quote c.isName_ns.printable depth).blank (Json.skipsWs_scanValue depth) rfl
  have hobject := Json.parse_obj_eq_none fun depth fuel ↦
    Json.rejects_scanItems_of_reads (hmember depth) (h depth) fuel
  apply podInfo_of_parse_eq_none
  have htext : podNsText (Json.quote c.ns) ++ rest =
      '\x7b' :: (Json.quote "pod_ns".toList ++ ':' :: ' ' :: Json.quote c.ns ++
        ',' :: ([' '] ++ Json.quote "pod_name".toList ++ ':' :: ' ' :: '"' :: rest)) := by
    rw [podNsText]
    simp only [List.append_assoc, List.cons_append, List.nil_append]
  rw [htext]
  exact hobject

/-- A hostname with a control character. -/
theorem podInfo_eq_none_of_control (c : RunningContainer) (hhostname : LiteralHostname hostname)
    (hcontrol : ¬ Json.Printable hostname) (rest : Text) :
    podInfo env (podNsText (Json.quote c.ns) ++ (hostname ++ rest)) = none := by
  apply podInfo_eq_none_of_rejects
  intro depth fuel
  apply Json.rejects_of_eq_none
  apply Json.scanItems_eq_none_of_string (by decide) (by decide)
  intro value left hstring
  rw [Json.scanString, Json.scanPieces_eq_none_of_control hhostname.noQuote
    hhostname.backslash_notMem hcontrol] at hstring
  cases hstring

/-- A hostname without words. -/
theorem podInfo_printf_two (c : RunningContainer) :
    podInfo env (printf podInfoFormat [Json.quote c.ns, Json.quote c.name]) = none := by
  rw [printf_podInfo rfl, List.append_assoc]
  apply podInfo_eq_none_of_rejects
  intro depth fuel
  apply Json.rejects_of_eq_none
  apply Json.scanItems_eq_none_of_string (by decide) (by decide)
  intro value left hstring
  -- The name's own quote ends the string, so the name follows it.
  obtain ⟨first, rest, hname⟩ := List.exists_cons_of_ne_nil c.isName_name.ne_nil
  have hempty : Json.Printable [] := fun _ hc ↦ absurd hc List.not_mem_nil
  have hfirst := c.isName_name.chars first (hname ▸ List.mem_cons_self)
  have hquote : [Json.quote c.ns, Json.quote c.name].tail.headD [] =
      Json.escaped [] ++ '"' :: (c.name ++ ['"']) := by
    rw [List.tail_cons, List.headD_cons, Json.quote, RunningContainer.name, c.isName_name.escaped_eq]
    rfl
  rw [hquote, List.append_assoc, List.cons_append, Json.scanString_escaped hempty] at hstring
  have hleft := (Prod.mk.inj (Option.some.inj hstring)).2
  rw [RunningContainer.name, hname] at hleft
  refine ⟨first, _, hleft.symm, ?_, ?_, ?_⟩
  · rw [← Bool.not_eq_true]
    intro hws
    simp only [Json.isWs, Bool.or_eq_true, beq_iff_eq] at hws
    rcases hws with ((rfl | rfl) | rfl) | rfl <;> exact absurd hfirst (by decide)
  · rintro rfl
    exact absurd hfirst (by decide)
  · rintro rfl
    exact absurd hfirst (by decide)

/-- A hostname of several words. -/
theorem podInfo_printf_many (c : RunningContainer) {first second : Text} (hplain : LiteralHostname first)
    (hquote : '"' ∉ second) {args : List Text} (hargs : args ≠ []) :
    podInfo env (printf podInfoFormat (Json.quote c.ns :: first :: second :: args)) = none := by
  obtain ⟨rest, hrest⟩ := printf_podInfo_cons (Json.quote c.ns) first second hargs
  rw [hrest, List.append_assoc, List.append_assoc]
  by_cases hprintable : Json.Printable first
  · apply podInfo_eq_none_of_rejects
    intro depth fuel
    have hkeys : Json.Printable "pod_name".toList ∧ Json.Printable "container_name".toList := by
      decide
    have hvalue : Json.Reads (Json.scanValue (serdeJson env.numberOk) depth)
        (' ' :: Json.quote first) (.str first) :=
      (Json.reads_quote hprintable depth).blank (Json.skipsWs_scanValue depth) rfl
    have hmember : Json.Reads (infoMember env depth)
        (' ' :: (Json.quote "pod_name".toList ++ ':' :: ' ' :: Json.quote first))
        ("pod_name".toList, .str first) :=
      (Json.reads_member hkeys.1 hvalue).blank (Json.skipsWs_scanMember _) rfl
    have hbraces : Json.ClosesBefore ('\x7b' :: rest) ((' ' :: second) ++ '\x7d' :: '\x7b' :: rest) := by
      apply Json.closesBefore_append
      rw [List.mem_cons, not_or]
      exact ⟨by decide, hquote⟩
    have hlater : ∀ fuel, Json.Rejects (Json.scanItems (infoMember env depth) '\x7d' fuel)
        ([' '] ++ Json.quote "container_name".toList ++
          ':' :: ((' ' :: second) ++ '\x7d' :: '\x7b' :: rest)) :=
      fun fuel ↦ Json.rejects_scanItems_of_closesBefore (by decide) hkeys.2 hbraces depth fuel
    have hobject := Json.rejects_scanItems_of_reads hmember hlater
    have htext : [' '] ++ Json.quote "pod_name".toList ++ ':' :: ' ' :: '"' ::
        (first ++ (containerNameText second ++ '\x7b' :: rest)) =
        ' ' :: (Json.quote "pod_name".toList ++ ':' :: ' ' :: Json.quote first) ++
          ',' :: ([' '] ++ Json.quote "container_name".toList ++
            ':' :: ((' ' :: second) ++ '\x7d' :: '\x7b' :: rest)) := by
      rw [containerNameText, hplain.quote_eq]
      simp only [List.append_assoc, List.cons_append, List.nil_append]
    rw [htext]
    exact hobject fuel
  · exact podInfo_eq_none_of_control c hplain hprintable _

/-! ## The script -/

theorem helperOutput_of_empty_hostname
    (h : env.nsenterHostname (decimal event.cgroupPid.toNat) = []) : helperOutput env event = [] := by
  rw [helperOutput, getPodnsPodnameCtrname, h]
  rfl

theorem helperOutput_of_no_container
    (h : grep "kubepods".toList (env.findInum (decimal event.cgroupId.toNat)) = []) :
    helperOutput env event = [] := by
  rw [helperOutput, getPodnsPodnameCtrname]
  dsimp only
  rw [ctrIdOf_eq_nil h, if_pos rfl, ite_self]

/-- Both keys are there. -/
theorem helperOutput_eq (hglob : env.GlobsLiterally) (hdescribes : Describes env event.cgroupId c)
    (hhostname : LiteralHostname hostname)
    (hline : env.nsenterHostname (decimal event.cgroupPid.toNat) = hostname ++ ['\n']) :
    helperOutput env event =
      if commandSubst (hostname ++ ['\n']) = [] then []
      else printf podInfoFormat (Json.quote c.ns :: (words hostname ++ [Json.quote c.name])) := by
  have hnsField : Unexpanded (Json.quote c.ns) := c.isName_ns.unexpanded_quote
  have hnameField : Unexpanded (Json.quote c.name) := c.isName_name.unexpanded_quote
  have hns : commandSubst (Json.quote c.ns ++ ['\n']) = Json.quote c.ns :=
    commandSubst_append_newline hnsField.newline_notMem
  have hname : commandSubst (Json.quote c.name ++ ['\n']) = Json.quote c.name :=
    commandSubst_append_newline hnameField.newline_notMem
  have hnewline : ∀ c ∈ hostname ++ ['\n'], c ≠ '*' ∧ c ≠ '?' ∧ c ≠ '[' ∧ c ≠ '\\' := by
    rw [List.forall_mem_append, List.forall_mem_singleton]
    exact ⟨hhostname.no_pattern, by decide⟩
  have hwords : env.expand (commandSubst (hostname ++ ['\n'])) = words hostname := by
    rw [expand_of_no_pattern hglob fun c hc ↦ hnewline c (mem_of_mem_commandSubst hc),
      words_commandSubst, words_append_blanks hostname (by decide)]
  rw [helperOutput, getPodnsPodnameCtrname]
  dsimp only
  rw [hline, hdescribes.ctrIdOf hglob, hdescribes.namespaceLabel, hns,
    hdescribes.nameLabel, hname, hwords, if_neg c.isName_id.ne_nil, if_neg hnsField.ne_nil,
    if_neg hnameField.ne_nil, expand_of_unexpanded hglob hnsField,
    expand_of_unexpanded hglob hnameField]
  rfl

/-- A plain hostname: the handler reads the container's namespace and name and the hostname. -/
theorem podInfo_helperOutput (hglob : env.GlobsLiterally)
    (hdescribes : Describes env event.cgroupId c) (hhostname : PlainHostname hostname)
    (hline : env.nsenterHostname (decimal event.cgroupPid.toNat) = hostname ++ ['\n']) :
    podInfo env (helperOutput env event) = some (c.ns, hostname, c.name) := by
  have hpod : commandSubst (hostname ++ ['\n']) = hostname :=
    commandSubst_append_newline hhostname.newline_notMem
  rw [helperOutput_eq hglob hdescribes hhostname.toLiteralHostname hline, hpod,
    if_neg hhostname.ne_nil, hhostname.words]
  exact podInfo_printf c hhostname

/-- Whatever the handler reads under a literal hostname, it is that container and that hostname. -/
theorem eq_of_podInfo_helperOutput (hglob : env.GlobsLiterally)
    (hdescribes : Describes env event.cgroupId c) (hhostname : LiteralHostname hostname)
    (hline : env.nsenterHostname (decimal event.cgroupPid.toNat) = hostname ++ ['\n'])
    {podNs podName containerName : Text}
    (hinfo : podInfo env (helperOutput env event) = some (podNs, podName, containerName)) :
    podNs = c.ns ∧ words hostname = [podName] ∧ containerName = c.name := by
  rw [helperOutput_eq hglob hdescribes hhostname hline] at hinfo
  split at hinfo
  · rw [podInfo_of_parse_eq_none (Json.parse_nil _)] at hinfo
    cases hinfo
  · cases hwords : words hostname with
    | nil =>
      rw [hwords, List.nil_append, podInfo_printf_two] at hinfo
      cases hinfo
    | cons first more =>
      have hmem : first ∈ words hostname := hwords ▸ List.mem_cons_self
      have hfirst := hhostname.of_mem_words hmem
      cases more with
      | nil =>
        rw [hwords, List.singleton_append] at hinfo
        by_cases hprintable : Json.Printable first
        · have hplain : PlainHostname first :=
            ⟨(plain_of_mem_words hmem).1, hfirst, hprintable⟩
          rw [podInfo_printf c hplain] at hinfo
          obtain ⟨rfl, rfl, rfl⟩ : c.ns = podNs ∧ first = podName ∧ c.name = containerName := by
            simpa using hinfo
          exact ⟨rfl, rfl, rfl⟩
        · rw [printf_podInfo rfl, List.tail_cons, List.headD_cons, List.headD_cons, List.append_assoc,
            podInfo_eq_none_of_control c hfirst hprintable] at hinfo
          cases hinfo
      | cons second more =>
        have hsecond : second ∈ words hostname := by
          rw [hwords]
          exact List.mem_cons_of_mem _ List.mem_cons_self
        rw [hwords, List.cons_append, List.cons_append, podInfo_printf_many c hfirst
          (hhostname.of_mem_words hsecond).noQuote (by simp)] at hinfo
        cases hinfo

end EbpfPlayground.CoRe
