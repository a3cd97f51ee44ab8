import EbpfPlayground.CoRe.PodInfo
import EbpfPlayground.Foundation.JsonPlaces

/-!
# The helper script's JSON

`get-podns-podname-ctrname.sh` pastes a hostname between the quotes of a JSON string, and two texts that
`jq` prints beside it, all of them unquoted.  The handler reads back what was looked up where the three
are one word each and the hostname needs no escape.
-/

namespace EbpfPlayground.CoRe

open Shell Text

/-- What `jq` prints for a string, or for a member that is missing. -/
inductive JqPrints (env : SnoopEnv) : Text → Option Text → Prop
  | null : JqPrints env "null".toList none
  | string {body value : Text}
      (h : Json.scanString (serdeJson env.numberOk) (body ++ ['"']) = some (value, [])) :
      JqPrints env ('"' :: (body ++ ['"'])) (some value)

/-- What the commands of the script print for an event, with any hostname and any labels. -/
structure HelperAnswers (env : SnoopEnv) (event : PodExecEvent) (hostname nsText nameText : Text)
    (ns name : Option Text) : Prop where
  /-- No file in the working directory has a name that a field of theirs matches. -/
  literally : ∀ text ∈ [nsText, hostname, nameText], ∀ field ∈ words text, env.glob field = [field]
  hostname_ne_nil : hostname ≠ []
  printable : Json.Printable hostname
  hostnameLine : env.nsenterHostname (decimal event.cgroupPid.toNat) = hostname ++ ['\n']
  nsLine : env.crictlNamespace (ctrIdOf env (decimal event.cgroupId.toNat)) = nsText ++ ['\n']
  nameLine : env.crictlName (ctrIdOf env (decimal event.cgroupId.toNat)) = nameText ++ ['\n']
  nsText : JqPrints env nsText ns
  nameText : JqPrints env nameText name

/-- The script prints nothing, or one object from which the handler reads the hostname and the two
labels, which are strings. -/
def Decodes (env : SnoopEnv) (event : PodExecEvent) (hostname : Text) (ns name : Option Text) : Prop :=
  helperOutput env event = [] ∨ ∃ members podNs containerName,
    Json.parse (serdeJson env.numberOk) (helperOutput env event) = some (.obj members) ∧
      podInfo env (helperOutput env event) = some (podNs, hostname, containerName) ∧
        ns = some podNs ∧ name = some containerName

/-- No blank that would split the text. -/
def OneField (text : Text) : Prop := ∀ c ∈ text, isBlank c = false

instance (text : Text) : Decidable (OneField text) := inferInstanceAs (Decidable (∀ _ ∈ _, _))

variable {env : SnoopEnv} {event : PodExecEvent} {hostname nsText nameText : Text}
  {ns name : Option Text}

/-! ## Fields -/

theorem jqPrints_quote {value : Text} (h : Json.Printable value) :
    JqPrints env (Json.quote value) (some value) := .string (Json.scanString_escaped h [])

theorem JqPrints.words_ne_nil {text : Text} {value : Option Text} (h : JqPrints env text value) :
    words text ≠ [] := by
  cases h <;> exact words_cons_ne_nil rfl _

/-- A text between quotes is one field, or its first field ends at a blank inside. -/
theorem words_quoted (body : Text) :
    OneField ('"' :: (body ++ ['"'])) ∨ ∃ front blank rest first more,
      body = front ++ blank :: rest ∧
        words ('"' :: (body ++ ['"'])) = ('"' :: front) :: first :: more := by
  rcases exists_blank body with hnone | ⟨front, blank, rest, rfl, hblank, hfront⟩
  · left
    rw [OneField, List.forall_mem_cons, List.forall_mem_append, List.forall_mem_singleton]
    exact ⟨rfl, hnone, rfl⟩
  · right
    obtain ⟨first, more, hmore⟩ :=
      List.exists_cons_of_ne_nil (words_append_singleton_ne_nil (c := '"') rfl rest)
    refine ⟨front, blank, rest, first, more, rfl, ?_⟩
    have hsplit : '"' :: (front ++ blank :: rest ++ ['"']) =
        ('"' :: front) ++ blank :: (rest ++ ['"']) := by
      simp
    have hfirst : ∀ c ∈ '"' :: front, isBlank c = false := List.forall_mem_cons.mpr ⟨rfl, hfront⟩
    rw [hsplit, words_append_blank _ _ hblank, words_eq_singleton (List.cons_ne_nil _ _) hfirst, hmore,
      List.singleton_append]

theorem newline_notMem_of_printable {text : Text} (h : Json.Printable text) : '\n' ∉ text :=
  fun hmem ↦ absurd (h '\n' hmem) (by decide)

/-- Once a container is found, the output is made of the fields of the three texts. -/
theorem HelperAnswers.helperOutput_eq (h : HelperAnswers env event hostname nsText nameText ns name) :
    helperOutput env event =
      if ctrIdOf env (decimal event.cgroupId.toNat) = [] then []
      else printf podInfoFormat (words nsText ++ words hostname ++ words nameText) := by
  have hwords : ∀ text, words (commandSubst (text ++ ['\n'])) = words text := by
    intro text
    rw [words_commandSubst, words_append_blanks text (by decide)]
  have hexpand : ∀ text ∈ [nsText, hostname, nameText],
      env.expand (commandSubst (text ++ ['\n'])) = words text := by
    intro text htext
    rw [SnoopEnv.expand_eq_words (hwords text ▸ h.literally text htext), hwords]
  have hjq : ∀ {text value}, JqPrints env text value → commandSubst (text ++ ['\n']) ≠ [] := by
    intro text value hprints hnil
    apply hprints.words_ne_nil
    rw [← hwords, hnil]
    rfl
  have hhost : commandSubst (hostname ++ ['\n']) ≠ [] := by
    rw [commandSubst_append_newline (newline_notMem_of_printable h.printable)]
    exact h.hostname_ne_nil
  rw [CoRe.helperOutput, getPodnsPodnameCtrname]
  dsimp only
  rw [h.hostnameLine, h.nsLine, h.nameLine, if_neg hhost, if_neg (hjq h.nsText), if_neg (hjq h.nameText),
    hexpand nsText (by simp), hexpand hostname (by simp), hexpand nameText (by simp)]

/-! ## Outputs that are no document -/

/-- Every pass starts with the first argument that is left. -/
theorem printfLoop_podInfo (fuel : ℕ) (args : List Text) :
    ∃ rest, printfLoop podInfoFormat (fuel + 1) args = podNsText (args.headD []) ++ rest := by
  rw [printfLoop, printfPass_podInfo]
  dsimp only
  rw [List.append_assoc]
  split
  · exact ⟨_, rfl⟩
  · exact ⟨_, List.append_assoc _ _ _⟩

theorem quote_podNs_cons : ∃ rest, Json.quote "pod_ns".toList = '"' :: 'p' :: rest :=
  ⟨"od_ns\"".toList, by decide +kernel⟩

theorem quote_podName_cons : ∃ rest, Json.quote "pod_name".toList = '"' :: 'p' :: rest :=
  ⟨"od_name\"".toList, by decide +kernel⟩

/-- With more than three fields, a second object follows the first. -/
theorem parse_printf_more {d : Json.Dialect} (podNs podName containerName : Text) {args : List Text}
    (hargs : args ≠ []) :
    Json.parse d (printf podInfoFormat (podNs :: podName :: containerName :: args)) = none := by
  obtain ⟨rest, hrest⟩ := printfLoop_podInfo (args.length + 2) args
  obtain ⟨key, hkey⟩ := quote_podNs_cons
  have htext : printf podInfoFormat (podNs :: podName :: containerName :: args) =
      podNsText podNs ++ podName ++ containerNameText containerName ++
        (podNsText (args.headD []) ++ rest) := by
    rw [printf, List.length_cons, List.length_cons, List.length_cons, printfLoop, printfPass_podInfo]
    dsimp only [List.tail_cons, List.headD_cons]
    rw [if_neg hargs, ← hrest]
  obtain ⟨tail, htail⟩ : ∃ tail, podNsText (args.headD []) ++ rest = '\x7b' :: '"' :: 'p' :: tail := by
    rw [podNsText, hkey]
    exact ⟨_, rfl⟩
  obtain ⟨front, hfront⟩ : ∃ front, podNsText podNs ++ podName ++ containerNameText containerName =
      front ++ ['\x7d'] := by
    rw [containerNameText, ← List.append_assoc]
    exact ⟨_, rfl⟩
  rw [htext, hfront, htail, List.append_assoc, List.singleton_append]
  exact Json.parse_eq_none_of_braces front rfl (by decide) tail

/-- With two fields, the container's name is missing. -/
theorem parse_printf_two {d : Json.Dialect} (podNs podName : Text) :
    Json.parse d (printf podInfoFormat [podNs, podName]) = none := by
  obtain ⟨front, hfront⟩ : ∃ front, podNsText podNs ++ podName ++ containerNameText [] =
      front ++ [':', ' ', '\x7d'] := by
    refine ⟨podNsText podNs ++ podName ++ '"' :: ',' :: ' ' :: Json.quote "container_name".toList, ?_⟩
    rw [containerNameText]
    simp only [List.append_assoc, List.cons_append, List.nil_append]
  rw [printf_podInfo rfl, List.tail_cons, List.headD_cons, List.headD_cons, List.tail_cons, List.headD_nil,
    hfront]
  exact Json.parse_eq_none_of_no_value front

/-- A namespace that is split at a blank: its literal goes on to the next quote. -/
theorem parse_printf_split_ns {d : Json.Dialect} {front left value : Text}
    (hne : left ≠ []) (h : Json.scanString d (front ++ left) = some (value, [])) (args : List Text) :
    Json.parse d (printf podInfoFormat (('"' :: front) :: args)) = none := by
  obtain ⟨rest, hrest⟩ := printfLoop_podInfo (('"' :: front) :: args).length (('"' :: front) :: args)
  obtain ⟨key, hkey⟩ := quote_podName_cons
  have hname : Json.Printable "pod_ns".toList := by decide
  have hgap : ∀ c ∈ ([] : Text), Json.isWs c = true := by decide
  have htext : printf podInfoFormat (('"' :: front) :: args) =
      '\x7b' :: ([] ++ Json.quote "pod_ns".toList ++ ':' :: ' ' :: '"' ::
        (front ++ ',' :: ' ' :: '"' :: 'p' :: (key ++ [':', ' ', '"'] ++ rest))) := by
    rw [printf, hrest, List.headD_cons, podNsText, hkey]
    simp only [List.append_assoc, List.cons_append, List.nil_append]
  rw [htext]
  refine Json.parse_obj_eq_none fun depth fuel ↦ Json.rejects_of_eq_none ?_
  refine Json.scanItems_eq_none_of_string hgap hname ?_ depth fuel
  intro value' behind hstring
  obtain ⟨state, more, hmore⟩ := Json.exists_of_scanString_over hne h hstring
  cases state with
  | plain =>
    obtain ⟨-, rfl⟩ : [Json.StringPiece.char ',', .char ' '] = more ∧
        'p' :: (key ++ [':', ' ', '"'] ++ rest) = behind := by
      simpa [Json.scanPieces] using hmore
    exact ⟨_, _, rfl, rfl, by decide, by decide⟩
  | escape => cases hmore
  | hex digits acc => cases hmore

/-- The three members of the object. -/
theorem printf_podInfo_three (podNs podName containerName : Text) :
    printf podInfoFormat [podNs, podName, containerName] =
      '\x7b' :: (Json.quote "pod_ns".toList ++ ':' :: ' ' :: podNs ++
        ',' :: ([' '] ++ Json.quote "pod_name".toList ++ ':' :: ' ' :: '"' ::
          (podName ++ '"' :: ',' :: ' ' :: Json.quote "container_name".toList ++
            ':' :: ' ' :: containerName ++ ['\x7d']))) := by
  rw [printf_podInfo rfl, podNsText, containerNameText]
  simp only [List.tail_cons, List.headD_cons, List.append_assoc, List.cons_append, List.nil_append]

theorem reads_podNs {d : Json.Dialect} {body value : Text}
    (h : Json.scanString d (body ++ ['"']) = some (value, [])) (depth : ℕ) :
    Json.Reads (Json.scanMember d (Json.scanValue d depth))
      (Json.quote "pod_ns".toList ++ ':' :: ' ' :: '"' :: (body ++ ['"'])) ("pod_ns".toList, .str value) := by
  have hkey : Json.Printable "pod_ns".toList := by decide
  exact Json.reads_member hkey (Json.reads_string h depth)

/-- A literal that the quote behind the hostname opens. -/
theorem stuck_of_scanPieces {tail left : Text} {pieces : List Json.StringPiece}
    (h : Json.scanPieces .plain (',' :: ' ' :: '"' :: 'c' :: tail) = some (pieces, left)) :
    Json.Stuck left := by
  obtain ⟨-, rfl⟩ : [Json.StringPiece.char ',', .char ' '] = pieces ∧ 'c' :: tail = left := by
    simpa [Json.scanPieces] using h
  exact Json.stuck_cons rfl (by decide) tail

/-- No hostname, and a name that is split at a blank: the name's quote ends the empty hostname, and what
follows it is no name of a member. -/
theorem parse_printf_split_name {d : Json.Dialect} {body front left ns value : Text}
    (hns : Json.scanString d (body ++ ['"']) = some (ns, []))
    (hne : left ≠ []) (h : Json.scanString d (front ++ left) = some (value, [])) (containerName : Text) :
    Json.parse d (printf podInfoFormat ['"' :: (body ++ ['"']), '"' :: front, containerName]) = none := by
  have hkey : Json.Printable "pod_name".toList := by decide
  have hgap : ∀ c ∈ [' '], Json.isWs c = true := by decide
  have hmove : ∀ (c : Char) (front : Text), c ≠ '"' → '"' ∉ c :: front → '"' ∉ front :=
    fun _ _ _ hfront hmem ↦ hfront (List.mem_cons_of_mem _ hmem)
  obtain ⟨pieces, hpieces, -⟩ := Json.exists_pieces_of_scanString h
  obtain ⟨plain, rest, rfl, hplain, hrest⟩ := Json.exists_front_of_scanPieces hne hpieces
  obtain ⟨tail, htail⟩ : ∃ tail, '"' :: ',' :: ' ' :: Json.quote "container_name".toList ++
      ':' :: ' ' :: containerName ++ ['\x7d'] = '"' :: ',' :: ' ' :: '"' :: 'c' :: tail :=
    ⟨_, rfl⟩
  have hopened : ∀ value left, Json.scanString d (',' :: ' ' :: '"' :: 'c' :: tail) = some (value, left) →
      Json.Stuck left := by
    intro value left hstring
    obtain ⟨pieces, hpieces, -⟩ := Json.exists_pieces_of_scanString hstring
    exact stuck_of_scanPieces hpieces
  -- A backslash stops the decoder; a quote opens a literal that the name `container_name` follows.
  obtain ⟨k, more, hk, hws, hbare, hbefore, hstuck⟩ : ∃ k more,
      rest ++ '"' :: ',' :: ' ' :: '"' :: 'c' :: tail = k :: more ∧ Json.isWs k = false ∧
        ¬ Json.IsBare k ∧ Json.FromBefore d (fun _ ↦ False) Json.Stuck (k :: more) ∧
          Json.Stuck (k :: more) := by
    rcases hrest with rfl | ⟨more, rfl⟩
    · exact ⟨'"', _, rfl, rfl, by decide, Json.fromBefore_quote hopened, Json.stuck_cons rfl (by decide) _⟩
    · exact ⟨'\\', _, rfl, rfl, by decide, Json.fromBefore_of_not_start rfl (by decide) (by decide)
        (by decide), Json.stuck_cons rfl (by decide) _⟩
  have hplaces := (Json.places_stuck d).prepend (P := fun front ↦ '"' ∉ front) hmove hws hbare
    (fun _ hfront ↦ absurd List.mem_cons_self hfront) hbefore hstuck.fromAfter
  have hend : ∀ text, Json.Stuck text ∨ Json.InFront (fun front ↦ '"' ∉ front) (k :: more) text →
      Json.skipWs text ≠ [] := by
    rintro text (hstuck | hfront)
    · exact hstuck.skipWs_ne_nil
    · exact hfront.skipWs_ne_nil hmove hws
  have hsecond : ∀ depth, Json.scanMember d (Json.scanValue d depth)
      ([' '] ++ Json.quote "pod_name".toList ++ ':' :: ' ' :: '"' :: '"' :: (plain ++ k :: more)) =
        some (("pod_name".toList, .str []), plain ++ k :: more) := by
    intro depth
    rw [Json.scanMember_quote hgap hkey, Json.scanValue_string]
    rfl
  have htext : printf podInfoFormat ['"' :: (body ++ ['"']), '"' :: (plain ++ rest), containerName] =
      '\x7b' :: (Json.quote "pod_ns".toList ++ ':' :: ' ' :: '"' :: (body ++ ['"']) ++
        ',' :: ([' '] ++ Json.quote "pod_name".toList ++ ':' :: ' ' :: '"' :: '"' ::
          (plain ++ k :: more))) := by
    rw [printf_podInfo_three, ← hk, ← htail]
    simp only [List.append_assoc, List.cons_append, List.nil_append]
  rw [htext]
  exact Json.parse_obj_eq_none fun depth fuel ↦ Json.rejects_scanItems_of_reads (reads_podNs hns depth)
    (hplaces.rejects_scanItems hend (hsecond depth) (.inr ⟨plain, hplain, rfl⟩)) fuel

/-! ## Three fields -/

section Tail

variable {d : Json.Dialect} {body value : Text}

/-- What follows the colon of the last member. -/
def containerValue (body : Text) : Text := ' ' :: '"' :: (body ++ ['"'] ++ ['\x7d'])

/-- What follows the comma behind the hostname. -/
def containerMember (body : Text) : Text :=
  ' ' :: (Json.quote "container_name".toList ++ ':' :: containerValue body)

theorem scanString_containerValue (h : Json.scanString d (body ++ ['"']) = some (value, [])) :
    Json.scanString d (body ++ ['"'] ++ ['\x7d']) = some (value, ['\x7d']) :=
  Json.extends_scanString (Json.Dialect.within_refl d) _ value [] h

/-- The places of the last member. -/
theorem places_containerMember (h : Json.scanString d (body ++ ['"']) = some (value, [])) :
    Json.Places d (fun text ↦ text = containerMember body ∨ text = containerValue body)
      (fun text ↦ Json.Stuck text ∨ text = ',' :: containerMember body ∨
        text = ':' :: containerValue body ∨ text = ['\x7d'] ∨ text = []) where
  stuck := fun _ ↦ .inl
  fromAfter := by
    rintro text (hstuck | rfl | rfl | rfl | rfl)
    · exact hstuck.fromAfter
    · exact Json.fromAfter_comma (.inl rfl)
    · exact Json.fromAfter_colon (.inr rfl)
    · exact Json.fromAfter_brace (.inr (.inr (.inr (.inr rfl))))
    · exact Json.fromAfter_nil
  fromBefore := by
    have hkey : Json.Printable "container_name".toList := by decide
    rintro text (rfl | rfl)
    · rw [containerMember, Json.quote_append]
      refine (Json.fromBefore_quote fun read left hread ↦ ?_).blank rfl
      rw [Json.scanString_escaped hkey] at hread
      obtain rfl := (Prod.mk.inj (Option.some.inj hread)).2
      exact .inr (.inr (.inl rfl))
    · refine (Json.fromBefore_quote fun read left hread ↦ ?_).blank rfl
      rw [scanString_containerValue h] at hread
      obtain rfl := (Prod.mk.inj (Option.some.inj hread)).2
      exact .inr (.inr (.inr (.inl rfl)))

theorem closing_containerMember : Json.Closing (',' :: containerMember body) :=
  ⟨fun _ _ ↦ stuck_of_scanPieces, nofun⟩

/-- The members that begin there have another name. -/
theorem fst_ne_of_scanMember {depth : ℕ} {text left : Text} {member : Text × Json}
    (h : Json.scanString d (body ++ ['"']) = some (value, []))
    (htext : text = containerMember body ∨ text = containerValue body)
    (hmember : Json.scanMember d (Json.scanValue d depth) text = some (member, left)) :
    member.1 ≠ "pod_name".toList := by
  have hkey : Json.Printable "container_name".toList := by decide
  have hgap : ∀ c ∈ [' '], Json.isWs c = true := by decide
  have hne : "container_name".toList ≠ "pod_name".toList := by decide
  rcases htext with rfl | rfl
  · have htext : containerMember body =
        [' '] ++ Json.quote "container_name".toList ++ ':' :: containerValue body := rfl
    rw [htext, Json.scanMember_quote hgap hkey] at hmember
    obtain ⟨_, -, heq⟩ := Option.map_eq_some_iff.mp hmember
    rw [← (Prod.mk.inj heq).1]
    exact hne
  · have hskip : Json.skipWs (containerValue body) = '"' :: (body ++ ['"'] ++ ['\x7d']) := rfl
    rw [Json.scanMember, hskip] at hmember
    dsimp only at hmember
    rw [if_pos rfl, scanString_containerValue h] at hmember
    cases hmember

end Tail

section Parse

variable {d : Json.Dialect} {nsBody nameBody nsValue nameValue : Text}

/-- A hostname that is read back, from a text that is not longer, is that text, and a literal. -/
theorem literal_of_parse (hns : Json.scanString d (nsBody ++ ['"']) = some (nsValue, []))
    (hname : Json.scanString d (nameBody ++ ['"']) = some (nameValue, [])) {field hostname : Text}
    (hlong : field.length ≤ hostname.length) {members : List (Text × Json)}
    (hparse : Json.parse d (printf podInfoFormat
      ['"' :: (nsBody ++ ['"']), field, '"' :: (nameBody ++ ['"'])]) = some (.obj members))
    (hpod : members.lookup "pod_name".toList = some (.str hostname)) :
    Json.Literal field ∧ hostname = field := by
  have hkey : Json.Printable "pod_name".toList := by decide
  have hgap : ∀ c ∈ [' '], Json.isWs c = true := by decide
  have hne : "pod_name".toList ≠ "pod_ns".toList := by decide
  have htext : printf podInfoFormat ['"' :: (nsBody ++ ['"']), field, '"' :: (nameBody ++ ['"'])] =
      '\x7b' :: (Json.quote "pod_ns".toList ++ ':' :: ' ' :: '"' :: (nsBody ++ ['"']) ++
        ',' :: ([' '] ++ Json.quote "pod_name".toList ++ ':' :: ' ' :: '"' ::
          (field ++ '"' :: ',' :: containerMember nameBody))) := by
    rw [printf_podInfo_three, containerMember, containerValue]
    simp only [List.append_assoc, List.cons_append, List.nil_append]
  rw [htext] at hparse
  obtain ⟨depth, fuel, others, left, hothers, hmem⟩ :=
    Json.exists_of_parse_second (reads_podNs hns) hparse hne hpod
  exact Json.literal_of_pasted (places_containerMember hname) closing_containerMember
    (.inr (.inl rfl)) hgap hkey (fun _ _ _ htext hmember _ ↦ fst_ne_of_scanMember hname htext hmember)
    hothers hmem hlong

/-- A literal is read back, with the two labels. -/
theorem parse_printf_literal (hdepth : 0 < d.maxDepth)
    (hns : Json.scanString d (nsBody ++ ['"']) = some (nsValue, []))
    (hname : Json.scanString d (nameBody ++ ['"']) = some (nameValue, [])) {hostname : Text}
    (hliteral : Json.Literal hostname) :
    Json.parse d (printf podInfoFormat
      ['"' :: (nsBody ++ ['"']), hostname, '"' :: (nameBody ++ ['"'])]) =
        some (.obj [("pod_ns".toList, .str nsValue), ("pod_name".toList, .str hostname),
          ("container_name".toList, .str nameValue)]) := by
  have hkeys : Json.Printable "pod_name".toList ∧ Json.Printable "container_name".toList := by decide
  have hnodup : ["pod_ns".toList, "pod_name".toList, "container_name".toList].Nodup := by decide
  have hsecond : ∀ depth, Json.Reads (Json.scanMember d (Json.scanValue d depth))
      (' ' :: (Json.quote "pod_name".toList ++ ':' :: ' ' :: Json.quote hostname))
      ("pod_name".toList, .str hostname) := by
    intro depth
    have hhost : Json.Reads (Json.scanValue d depth) (' ' :: Json.quote hostname) (.str hostname) :=
      (Json.reads_quote hliteral.printable depth).blank (Json.skipsWs_scanValue depth) rfl
    exact (Json.reads_member hkeys.1 hhost).blank (Json.skipsWs_scanMember _) rfl
  have hthird : ∀ depth, Json.Reads (Json.scanMember d (Json.scanValue d depth))
      (' ' :: (Json.quote "container_name".toList ++ ':' :: ' ' :: '"' :: (nameBody ++ ['"'])))
      ("container_name".toList, .str nameValue) := fun depth ↦
    (Json.reads_member hkeys.2 (Json.reads_string hname depth)).blank (Json.skipsWs_scanMember _) rfl
  have htext : printf podInfoFormat ['"' :: (nsBody ++ ['"']), hostname, '"' :: (nameBody ++ ['"'])] =
      '\x7b' :: [','].intercalate
        [Json.quote "pod_ns".toList ++ ':' :: ' ' :: '"' :: (nsBody ++ ['"']),
          ' ' :: (Json.quote "pod_name".toList ++ ':' :: ' ' :: Json.quote hostname),
          ' ' :: (Json.quote "container_name".toList ++ ':' :: ' ' :: '"' :: (nameBody ++ ['"']))] ++
            ['\x7d'] := by
    rw [printf_podInfo_three, hliteral.quote_eq, List.intercalate_cons_cons, List.intercalate_cons_cons,
      List.intercalate_singleton]
    simp only [List.append_assoc, List.cons_append, List.nil_append]
  rw [htext]
  exact Json.parse_obj_of_reads hdepth
    (fun depth ↦ .cons (reads_podNs hns depth) (.cons (hsecond depth) (.cons (hthird depth) .nil))) hnodup

end Parse

/-! ## The handler -/

/-- What is read is a string under each of the three names. -/
theorem lookup_of_podInfo {output : Text} {members : List (Text × Json)}
    {podNs podName containerName : Text}
    (hparse : Json.parse (serdeJson env.numberOk) output = some (.obj members))
    (h : podInfo env output = some (podNs, podName, containerName)) :
    members.lookup "pod_name".toList = some (.str podName) := by
  rw [podInfo, hparse] at h
  obtain ⟨_, hvalue, h⟩ := Option.bind_eq_some_iff.mp h
  obtain rfl := Option.some.inj hvalue
  obtain ⟨_, -, h⟩ := Option.bind_eq_some_iff.mp h
  obtain ⟨podName', hname, h⟩ := Option.bind_eq_some_iff.mp h
  obtain ⟨_, -, heq⟩ := Option.bind_eq_some_iff.mp h
  obtain rfl : podName' = podName := (Prod.mk.inj (Prod.mk.inj (Option.some.inj heq)).2).1
  change ((members.lookup "pod_name".toList).getD .null).asStr = some podName' at hname
  cases hlookup : members.lookup "pod_name".toList with
  | none =>
    rw [hlookup] at hname
    cases hname
  | some value =>
    rw [hlookup] at hname
    cases value <;> cases hname
    rfl

theorem printf_podInfo_ne_nil (args : List Text) : printf podInfoFormat args ≠ [] := by
  obtain ⟨rest, hrest⟩ := printfLoop_podInfo args.length args
  rw [printf, hrest, podNsText]
  exact List.cons_ne_nil _ _

/-- The texts that the handler reads back: each of the three is one field, none of the labels is
missing, and the hostname is a literal. -/
structure Clean (hostname nsText nameText : Text) (ns name : Option Text) : Prop where
  ns_isSome : ns.isSome
  name_isSome : name.isSome
  oneField : OneField nsText ∧ OneField hostname ∧ OneField nameText
  quote_notMem : '"' ∉ hostname
  backslash_notMem : '\\' ∉ hostname

/-- Of at least two fields, the ones that make a document are three. -/
theorem length_of_parse {d : Json.Dialect} {args : List Text} {value : Json} (htwo : 2 ≤ args.length)
    (h : Json.parse d (printf podInfoFormat args) = some value) : args.length = 3 := by
  match args, htwo with
  | [podNs, podName], _ =>
    rw [parse_printf_two] at h
    cases h
  | [_, _, _], _ => rfl
  | podNs :: podName :: containerName :: more :: others, _ =>
    rw [parse_printf_more podNs podName containerName (List.cons_ne_nil _ _)] at h
    cases h

/-- Of what the script prints for two labels, the ones that make a document are three fields. -/
theorem fields_of_parse {d : Json.Dialect} {nsBody nameBody nsValue nameValue : Text} {value : Json}
    (hns : Json.scanString d (nsBody ++ ['"']) = some (nsValue, []))
    (hname : Json.scanString d (nameBody ++ ['"']) = some (nameValue, []))
    (hparse : Json.parse d (printf podInfoFormat (words ('"' :: (nsBody ++ ['"'])) ++ words hostname ++
      words ('"' :: (nameBody ++ ['"'])))) = some value) :
    OneField ('"' :: (nsBody ++ ['"'])) ∧ OneField ('"' :: (nameBody ++ ['"'])) ∧
      ∃ field, words hostname = [field] := by
  rcases words_quoted nsBody with hnsField | ⟨front, blank, rest, first, more, rfl, hwords⟩
  · have hnsWords := words_eq_singleton (List.cons_ne_nil _ _) hnsField
    rw [hnsWords] at hparse
    rcases words_quoted nameBody with hnameField | ⟨front, blank, rest, first, more, rfl, hwords⟩
    · have hnameWords := words_eq_singleton (List.cons_ne_nil _ _) hnameField
      rw [hnameWords] at hparse
      have hlength := length_of_parse (by simp) hparse
      refine ⟨hnsField, hnameField, List.length_eq_one_iff.mp ?_⟩
      simpa using hlength
    · rw [hwords] at hparse
      have hlength := length_of_parse (by simp only [List.length_append, List.length_cons]; omega) hparse
      rw [List.length_append, List.length_append, List.length_singleton, List.length_cons,
        List.length_cons] at hlength
      have hnil : words hostname = [] ∧ more = [] :=
        ⟨List.eq_nil_of_length_eq_zero (by omega), List.eq_nil_of_length_eq_zero (by omega)⟩
      rw [List.append_assoc] at hname
      rw [hnil.1, hnil.2, List.append_nil, List.singleton_append,
        parse_printf_split_name hns (by simp) hname] at hparse
      cases hparse
  · rw [List.append_assoc] at hns
    rw [hwords, List.append_assoc, List.cons_append, parse_printf_split_ns (by simp) hns] at hparse
    cases hparse

/-- What the handler can read back is clean. -/
theorem HelperAnswers.clean_of_parse (h : HelperAnswers env event hostname nsText nameText ns name)
    {members : List (Text × Json)} (hns : ns.isSome) (hname : name.isSome)
    (hparse : Json.parse (serdeJson env.numberOk)
      (printf podInfoFormat (words nsText ++ words hostname ++ words nameText)) = some (.obj members))
    (hpod : members.lookup "pod_name".toList = some (.str hostname)) :
    Clean hostname nsText nameText ns name := by
  obtain ⟨⟩ | @⟨nsBody, nsValue, hnsBody⟩ := h.nsText
  · cases hns
  obtain ⟨⟩ | @⟨nameBody, nameValue, hnameBody⟩ := h.nameText
  · cases hname
  obtain ⟨hnsField, hnameField, field, hfield⟩ := fields_of_parse hnsBody hnameBody hparse
  have hmem : field ∈ words hostname := hfield ▸ List.mem_cons_self
  rw [words_eq_singleton (List.cons_ne_nil _ _) hnsField, hfield,
    words_eq_singleton (List.cons_ne_nil _ _) hnameField] at hparse
  obtain ⟨hliteral, rfl⟩ := literal_of_parse hnsBody hnameBody (length_le_of_mem_words hmem) hparse hpod
  exact ⟨rfl, rfl, ⟨hnsField, (plain_of_mem_words hmem).1.no_blank, hnameField⟩, hliteral.quote_notMem,
    hliteral.backslash_notMem⟩

/-- What is clean is read back. -/
theorem HelperAnswers.parse_of_clean (h : HelperAnswers env event hostname nsText nameText ns name)
    (hclean : Clean hostname nsText nameText ns name) :
    ∃ podNs containerName, ns = some podNs ∧ name = some containerName ∧
      Json.parse (serdeJson env.numberOk)
        (printf podInfoFormat (words nsText ++ words hostname ++ words nameText)) =
          some (.obj [("pod_ns".toList, .str podNs), ("pod_name".toList, .str hostname),
            ("container_name".toList, .str containerName)]) := by
  obtain ⟨⟩ | @⟨nsBody, nsValue, hnsBody⟩ := h.nsText
  · cases hclean.ns_isSome
  obtain ⟨⟩ | @⟨nameBody, nameValue, hnameBody⟩ := h.nameText
  · cases hclean.name_isSome
  have hliteral : Json.Literal hostname := ⟨hclean.quote_notMem, hclean.backslash_notMem, h.printable⟩
  obtain ⟨hnsField, hhostField, hnameField⟩ := hclean.oneField
  refine ⟨nsValue, nameValue, rfl, rfl, ?_⟩
  rw [words_eq_singleton (List.cons_ne_nil _ _) hnsField,
    words_eq_singleton h.hostname_ne_nil hhostField,
    words_eq_singleton (List.cons_ne_nil _ _) hnameField]
  exact parse_printf_literal (Nat.succ_pos _) hnsBody hnameBody hliteral

/-- The node of the demo, for any hostname. -/
theorem helperAnswers_demo {hostname : Text} (hne : hostname ≠ []) (hprintable : Json.Printable hostname) :
    HelperAnswers (demoSnoopEnv hostname []) makeEvent hostname (Json.quote "default".toList)
      (Json.quote "ctr".toList) (some "default".toList) (some "ctr".toList) where
  literally := fun _ _ _ _ ↦ rfl
  hostname_ne_nil := hne
  printable := hprintable
  hostnameLine := rfl
  nsLine := by
    change "\"default\"\n".toList = Json.quote "default".toList ++ ['\n']
    decide +kernel
  nameLine := by
    change "\"ctr\"\n".toList = Json.quote "ctr".toList ++ ['\n']
    decide +kernel
  nsText := jqPrints_quote (by decide)
  nameText := jqPrints_quote (by decide)

end EbpfPlayground.CoRe
