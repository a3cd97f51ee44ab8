import EbpfPlayground.Bcc.Probe
import EbpfPlayground.Bcc.Turns
import EbpfPlayground.Foundation.JsonPlaces
import EbpfPlayground.Foundation.Name
import EbpfPlayground.Foundation.Python

/-!
# The message between probe and handler

The probe prints the command of a task between the quotes of a JSON string, with a format that escapes
nothing.  The handler reads the command back exactly where it is a literal: where it has no quote, no
backslash and no control character.
-/

namespace EbpfPlayground.Bcc

open CString Python Text

/-- The text that the probe prints, where the command is one. -/
def traceMessage (cgroupId : ℕ) (command : Text) : Text :=
  "\x7b \"cgroup_id\": \"".toList ++ decimal cgroupId ++ "\", \"command\": \"".toList ++ command ++
    "\" \x7d".toList

/-- Whenever the probe prints a message for this cgroup and this command, the handler reads the two of
them from it, and finds the command in every list that has it. -/
def Arrives (py : Interpreter) (cgroupId : UInt64) (command : Text) : Prop :=
  ∀ rcMap task line, task.cgroupId = cgroupId → task.comm.bytes = asBytes command →
    sysEnterExecve rcMap task = some line →
      ∃ text msgJson, fromUtf8 line = some text ∧ jsonLoads py text = .ok msgJson ∧
        getItem msgJson "cgroup_id".toList = .ok (.str (decimal cgroupId.toNat)) ∧
          getItem msgJson "command".toList = .ok (.str command) ∧
            ∀ commands, .str command ∈ commands →
              contains py (.str command) (.arr commands) = .ok true

theorem asBytes_append (text text' : Text) : asBytes (text ++ text') = asBytes text ++ asBytes text' :=
  List.flatMap_append

/-- The printed bytes are the text. -/
theorem fromUtf8_of_sysEnterExecve {rcMap : ResizeContainersMap} {task : CoRe.Task} {line : List UInt8}
    {command : Text} (hcomm : task.comm.bytes = asBytes command)
    (h : sysEnterExecve rcMap task = some line) :
    fromUtf8 line = some (traceMessage task.cgroupId.toNat command) := by
  have hread := fromUtf8_asBytes (traceMessage task.cgroupId.toNat command)
  unfold traceMessage at hread ⊢
  rw [(sysEnterExecve_eq_some.mp h).2, hcomm]
  simp only [asBytes_append] at hread ⊢
  exact hread

theorem contains_of_mem (py : Interpreter) {command : Text} {commands : List Json}
    (h : .str command ∈ commands) : contains py (.str command) (.arr commands) = .ok true := by
  have hany : commands.any (equal py · (.str command)) = true :=
    List.any_eq_true.mpr ⟨_, h, beq_self_eq_true command⟩
  rw [contains, hany]

/-- The members of the message, as a document. -/
theorem traceMessage_eq (cgroupId : ℕ) (command : Text) :
    traceMessage cgroupId command =
      '\x7b' :: (' ' :: (Json.quote "cgroup_id".toList ++ ':' :: ' ' :: Json.quote (decimal cgroupId)) ++
        ',' :: ([' '] ++ Json.quote "command".toList ++ ':' :: ' ' :: '"' ::
          (command ++ '"' :: [' ', '\x7d']))) := by
  have hquote : Json.quote (decimal cgroupId) = '"' :: (decimal cgroupId ++ ['"']) := by
    rw [Json.quote, (isName_decimal cgroupId).escaped_eq]
    rfl
  have hopen : "\x7b \"cgroup_id\": \"".toList =
      '\x7b' :: ' ' :: (Json.quote "cgroup_id".toList ++ [':', ' ', '"']) := by
    decide +kernel
  have hmiddle : "\", \"command\": \"".toList =
      '"' :: ',' :: ' ' :: (Json.quote "command".toList ++ [':', ' ', '"']) := by
    decide +kernel
  have hclose : "\" \x7d".toList = ['"', ' ', '\x7d'] := by
    decide +kernel
  unfold traceMessage
  simp only [hopen, hmiddle, hclose, hquote, List.append_assoc, List.cons_append, List.nil_append]

section Parse

variable {d : Json.Dialect} {depth : ℕ}

theorem reads_cgroupId (cgroupId : ℕ) :
    Json.Reads (Json.scanMember d (Json.scanValue d depth))
      (' ' :: (Json.quote "cgroup_id".toList ++ ':' :: ' ' :: Json.quote (decimal cgroupId)))
      ("cgroup_id".toList, .str (decimal cgroupId)) := by
  have hkey : Json.Printable "cgroup_id".toList := by decide
  have hvalue : Json.Reads (Json.scanValue d depth) (' ' :: Json.quote (decimal cgroupId))
      (.str (decimal cgroupId)) :=
    (Json.reads_quote (isName_decimal cgroupId).printable depth).blank (Json.skipsWs_scanValue depth) rfl
  exact (Json.reads_member hkey hvalue).blank (Json.skipsWs_scanMember _) rfl

/-- A literal command is read back. -/
theorem parse_traceMessage (hdepth : 0 < d.maxDepth) (cgroupId : ℕ) {command : Text}
    (hliteral : Json.Literal command) :
    Json.parse d (traceMessage cgroupId command) =
      some (.obj [("cgroup_id".toList, .str (decimal cgroupId)), ("command".toList, .str command)]) := by
  have hkey : Json.Printable "command".toList := by decide
  have hnodup : ["cgroup_id".toList, "command".toList].Nodup := by decide
  have hmember : ∀ depth, Json.Reads (Json.scanMember d (Json.scanValue d depth))
      (' ' :: (Json.quote "command".toList ++ ':' :: ' ' :: Json.quote command) ++ [' '])
      ("command".toList, .str command) := by
    intro depth
    have hvalue : Json.Reads (Json.scanValue d depth) (' ' :: Json.quote command) (.str command) :=
      (Json.reads_quote hliteral.printable depth).blank (Json.skipsWs_scanValue depth) rfl
    exact ((Json.reads_member hkey hvalue).blank (Json.skipsWs_scanMember _) rfl).append_blank rfl
  have htext : traceMessage cgroupId command = '\x7b' :: [','].intercalate
      [' ' :: (Json.quote "cgroup_id".toList ++ ':' :: ' ' :: Json.quote (decimal cgroupId)),
        ' ' :: (Json.quote "command".toList ++ ':' :: ' ' :: Json.quote command) ++ [' ']] ++
          ['\x7d'] := by
    rw [traceMessage_eq, hliteral.quote_eq, List.intercalate_cons_cons, List.intercalate_singleton]
    simp only [List.append_assoc, List.cons_append, List.nil_append]
  rw [htext]
  exact Json.parse_obj_of_reads hdepth
    (fun depth ↦ .cons (reads_cgroupId cgroupId) (.cons (hmember depth) .nil)) hnodup

/-- Behind the quote of the command, the object ends. -/
theorem places_tail : Json.Places d (fun _ ↦ False)
    (fun text ↦ Json.Stuck text ∨ text = [' ', '\x7d'] ∨ text = []) where
  stuck := fun _ ↦ .inl
  fromBefore := fun _ ↦ False.elim
  fromAfter := by
    rintro text (hstuck | rfl | rfl)
    · exact hstuck.fromAfter
    · exact (Json.fromAfter_brace (.inr (.inr rfl))).blank rfl
    · exact Json.fromAfter_nil

theorem closing_tail : Json.Closing [' ', '\x7d'] := ⟨nofun, nofun⟩

/-- A command that is read back is a literal. -/
theorem literal_of_parse {cgroupId : ℕ} {command : Text} {members : List (Text × Json)}
    (hparse : Json.parse d (traceMessage cgroupId command) = some (.obj members))
    (hcommand : members.lookup "command".toList = some (.str command)) : Json.Literal command := by
  have hkey : Json.Printable "command".toList := by decide
  have hgap : ∀ c ∈ [' '], Json.isWs c = true := by decide
  have hne : "command".toList ≠ "cgroup_id".toList := by decide
  rw [traceMessage_eq] at hparse
  obtain ⟨depth, fuel, others, left, hothers, hmem⟩ :=
    Json.exists_of_parse_second (fun _ ↦ reads_cgroupId cgroupId) hparse hne hcommand
  exact (Json.literal_of_pasted places_tail closing_tail (.inr (.inl rfl)) hgap hkey
    (fun _ _ _ ↦ False.elim) hothers hmem (Nat.le_refl _)).1

end Parse

/-- A command of the probe's tasks. -/
structure Trigger (command : Text) : Prop where
  ne_nil : command ≠ []
  length_le : (asBytes command).length ≤ 15
  zero_notMem : 0 ∉ asBytes command

/-- A task with this command, for which the map has an entry. -/
theorem Trigger.exists_message {command : Text} (h : Trigger command) (cgroupId : UInt64) :
    ∃ rcMap task line, task.cgroupId = cgroupId ∧ task.comm.bytes = asBytes command ∧
      sysEnterExecve rcMap task = some line := by
  have hfits : (asBytes command).length ≤ bufSize := h.length_le.trans (by decide)
  obtain ⟨val, hval⟩ := Option.isSome_iff_exists.mp (isSome_ofBytes.mpr hfits)
  have hcstr : cstr val.toList = asBytes command := by
    rw [cstr_ofBytes hval, cstr_eq_self h.zero_notMem]
  have hroom : (BoundedMap.empty : ResizeContainersMap).Accepts cgroupId := .inr (by simp [bpfHashSize])
  refine ⟨BoundedMap.empty.put cgroupId val,
    ⟨⟨asBytes command, Nat.lt_succ_of_le h.length_le, h.zero_notMem⟩, cgroupId, 0⟩, _, rfl, rfl,
    sysEnterExecve_eq_some.mpr ⟨⟨val, BoundedMap.lookup_put_self val hroom, hcstr⟩, rfl⟩⟩

/-- A command that arrives is a literal. -/
theorem Trigger.literal_of_arrives {command : Text} (htrigger : Trigger command) {py : Interpreter}
    {cgroupId : UInt64} (h : Arrives py cgroupId command) : Json.Literal command := by
  obtain ⟨rcMap, task, line, hid, hcomm, hline⟩ := htrigger.exists_message cgroupId
  obtain ⟨text, msgJson, htext, hloads, -, hcommand, -⟩ := h rcMap task line hid hcomm hline
  rw [fromUtf8_of_sysEnterExecve hcomm hline, Option.some_inj] at htext
  obtain ⟨members, rfl, hlookup⟩ := getItem_eq_ok.mp hcommand
  have hparse := jsonLoads_eq_ok.mp hloads
  rw [← htext] at hparse
  exact literal_of_parse hparse hlookup

/-- The handler gets the cgroup and the command of a message exactly where the command has no quote, no
backslash and no control character. -/
theorem arrives_iff (py : Interpreter) (hdepth : 0 < py.recursionLimit) (cgroupId : UInt64)
    (command : Text) (htrigger : Trigger command) :
    Arrives py cgroupId command ↔ Json.Literal command := by
  constructor
  · exact htrigger.literal_of_arrives
  · intro hliteral rcMap task line hid hcomm hline
    have hparse := parse_traceMessage (d := py.dialect) hdepth cgroupId.toNat hliteral
    have hloads : jsonLoads py (traceMessage cgroupId.toNat command) = .ok (.obj
        [("cgroup_id".toList, .str (decimal cgroupId.toNat)), ("command".toList, .str command)]) :=
      jsonLoads_eq_ok.mpr hparse
    have hne : "command".toList ≠ "cgroup_id".toList := by decide
    refine ⟨_, _, hid ▸ fromUtf8_of_sysEnterExecve hcomm hline, hloads, getItem_self _ _ _, ?_,
      fun _ ↦ contains_of_mem py⟩
    rw [getItem_of_ne hne, getItem_self]

/-- The command `make`. -/
theorem arrives_make : Arrives demoInterpreter 4242 "make".toList :=
  (arrives_iff demoInterpreter (by decide) 4242 "make".toList
    ⟨by decide, by decide +kernel, by decide +kernel⟩).mpr ⟨by decide, by decide, by decide⟩

/-- The command `a"b` makes a message that is no JSON, the command `a\b` one with a backspace. -/
theorem arrives_counterexample :
    jsonLoads demoInterpreter (traceMessage 4242 "a\"b".toList) = .error .valueError ∧
      (∃ msgJson, jsonLoads demoInterpreter (traceMessage 4242 "a\\b".toList) = .ok msgJson ∧
        getItem msgJson "command".toList = .ok (.str "a\x08".toList)) ∧
      ¬ Arrives demoInterpreter 4242 "a\"b".toList ∧ ¬ Arrives demoInterpreter 4242 "a\\b".toList := by
  have hquote : Trigger "a\"b".toList := ⟨by decide, by decide +kernel, by decide +kernel⟩
  have hback : Trigger "a\\b".toList := ⟨by decide, by decide +kernel, by decide +kernel⟩
  refine ⟨by decide +kernel, ⟨.obj [("cgroup_id".toList, .str "4242".toList),
    ("command".toList, .str "a\x08".toList)], by decide +kernel, by decide +kernel⟩, fun h ↦ ?_, fun h ↦ ?_⟩
  · exact (hquote.literal_of_arrives h).quote_notMem (by decide)
  · exact (hback.literal_of_arrives h).backslash_notMem (by decide)

end EbpfPlayground.Bcc
