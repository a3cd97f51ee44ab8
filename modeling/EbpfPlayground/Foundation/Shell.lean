import EbpfPlayground.Foundation.Hex
import Mathlib.Data.List.TakeWhile

/-!
# The parts of a POSIX shell that the scripts use

Field splitting of unquoted expansions with the default `IFS`, command substitution, `grep` for a
fixed string, `basename`, and `printf` with `%s` directives.  Bytes that are no text and NUL, which
a shell variable cannot hold, are left out.
-/

namespace EbpfPlayground.Shell

/-- A character of the default `IFS`. -/
def isBlank (c : Char) : Bool := c == ' ' || c == '\t' || c == '\n'

/-- The fields of an unquoted expansion. -/
def words (text : Text) : List Text := (text.splitOnP isBlank).filter (· ≠ [])

/-- `$(..)` removes the newlines at the end. -/
def commandSubst (output : Text) : Text := (output.reverse.dropWhile (· == '\n')).reverse

def contains (needle text : Text) : Bool := text.tails.any fun tail ↦ needle.isPrefixOf tail

/-- `grep` for a string without special characters, on the lines it reads. -/
def grep (needle : Text) (lines : List Text) : List Text := lines.filter (contains needle)

def removeSuffix (suffix name : Text) : Text :=
  if suffix.isSuffixOf name ∧ suffix ≠ name then name.take (name.length - suffix.length) else name

/-- `basename NAME [SUFFIX]`; other numbers of operands are an error without output. -/
def basename (operands : List Text) : Text :=
  match operands with
  | [name] => last name
  | [name, suffix] => removeSuffix suffix (last name)
  | _ => []
where
  last (name : Text) : Text := ((name.splitOn '/').filter (· ≠ [])).getLastD "/".toList

/-- One pass of `printf` over its format: the output and the arguments it did not use. -/
def printfPass : Text → List Text → Text × List Text
  | '%' :: 's' :: format, args =>
    let (output, rest) := printfPass format args.tail
    (args.headD [] ++ output, rest)
  | c :: format, args =>
    let (output, rest) := printfPass format args
    (c :: output, rest)
  | [], args => ([], args)

/-- Reuse the format while arguments remain, at most `fuel` times. -/
def printfLoop (format : Text) : ℕ → List Text → Text
  | 0, _ => []
  | fuel + 1, args =>
    let (output, rest) := printfPass format args
    if rest = [] then output else output ++ printfLoop format fuel rest

/-- `printf` with a format that has at least one `%s`; every pass uses an argument up. -/
def printf (format : Text) (args : List Text) : Text := printfLoop format (args.length + 1) args

/-- `echo` of operands that are no options. -/
def echo (operands : List Text) : Text := [' '].intercalate operands ++ ['\n']

/-- `sed -E 's/(..)/\1 /g'`: a blank after every second character of a line. -/
def sedPairs : Text → Text
  | a :: b :: rest =>
    if a = '\n' ∨ b = '\n' then a :: sedPairs (b :: rest) else a :: b :: ' ' :: sedPairs rest
  | text => text

/-- `awk '{for(i=NF;i>=1;i--) printf "%s ",$i}'`. -/
def awkReverse (text : Text) : Text :=
  (text.splitOn '\n').flatMap fun line ↦ (words line).reverse.flatMap (· ++ [' '])

/-- `strtoumax(.., 0)`, as `printf` reads an integer operand that begins with no blank, sign or quote:
hexadecimal after `0x`, octal after `0`, else decimal.  The number ends before the first character that is
no digit of its base, and is the maximum where it is too large; `printf` complains about what is left over
and prints the number. -/
def strtoumax (text : Text) : ℕ :=
  min (2 ^ 64 - 1) (match text with
    | '0' :: 'x' :: digits => Hex.valueOf (digits.takeWhile Hex.isDigit)
    | '0' :: 'X' :: digits => Hex.valueOf (digits.takeWhile Hex.isDigit)
    | '0' :: digits => Nat.ofDigitChars 8 (digits.takeWhile fun c ↦ '0' ≤ c ∧ c ≤ '7') 0
    | _ => Text.decimalValue (text.takeWhile Char.isDigit))

example : strtoumax "019".toList = 1 ∧ strtoumax "12ab".toList = 12 ∧ strtoumax "0xyz".toList = 0 := by
  decide

/-! ## Texts without blanks -/

theorem words_eq_singleton {text : Text} (hne : text ≠ []) (h : ∀ c ∈ text, isBlank c = false) :
    words text = [text] := by
  simp [words, List.splitOnP_eq_singleton h, hne]

/-- A blank separates the fields before it from those after it. -/
theorem words_append_blank (first second : Text) {blank : Char} (h : isBlank blank = true) :
    words (first ++ blank :: second) = words first ++ words second := by
  simp [words, List.splitOnP_append_cons first second h]

theorem contains_eq_true {needle text : Text} : contains needle text = true ↔ needle <:+: text := by
  simp only [contains, List.any_eq_true, List.mem_tails, List.isPrefixOf_iff_prefix]
  constructor
  · rintro ⟨tail, ⟨before, rfl⟩, hfront⟩
    exact List.infix_append_of_infix_right hfront.isInfix
  · rintro ⟨before, after, rfl⟩
    exact ⟨needle ++ after, ⟨before, by simp⟩, List.prefix_append _ _⟩

/-- A text is not found across a character that it does not have. -/
theorem contains_append_cons {needle : Text} {c : Char} (hc : c ∉ needle) (front rest : Text) :
    contains needle (front ++ c :: rest) = true ↔
      contains needle front = true ∨ contains needle rest = true := by
  have hstart : ∀ part, part ≠ [] → (∀ c ∈ part, c ∈ needle) → ¬ part <+: c :: rest := by
    rintro part hne hmem ⟨after, hafter⟩
    obtain ⟨first, part, rfl⟩ := List.exists_cons_of_ne_nil hne
    exact hc ((List.cons.inj hafter).1 ▸ hmem first List.mem_cons_self)
  simp only [contains_eq_true]
  constructor
  · intro h
    rcases List.infix_append_iff_ne_nil.mp h with hfront | hrest | ⟨first, second, -, hne, rfl, -, hsecond⟩
    · exact .inl hfront
    · rcases List.infix_cons_iff.mp hrest with hhead | htail
      · by_cases hnil : needle = []
        · exact .inl (hnil ▸ List.nil_infix)
        · exact absurd hhead (hstart needle hnil fun _ ↦ id)
      · exact .inr htail
    · exact absurd hsecond (hstart second hne fun c hmem ↦ List.mem_append_right _ hmem)
  · rintro (hfront | hrest)
    · exact List.infix_append_of_infix_left hfront
    · exact List.infix_append_of_infix_right (List.infix_cons hrest)

theorem contains_eq_false_of_notMem {needle text : Text} {c : Char} (hc : c ∈ needle) (htext : c ∉ text) :
    contains needle text = false := by
  rw [← Bool.not_eq_true, contains_eq_true]
  exact fun h ↦ htext (h.subset hc)

/-- What is dropped at the front is not needed to find a text. -/
theorem contains_dropWhile {needle : Text} {p : Char → Bool} (hne : needle ≠ [])
    (hp : ∀ c ∈ needle, p c = false) (text : Text) :
    contains needle (text.dropWhile p) = contains needle text := by
  induction text with
  | nil => rfl
  | cons c text ih =>
    cases hc : p c with
    | false => rw [List.dropWhile_cons_of_neg (by rw [hc]; exact Bool.noConfusion)]
    | true =>
      have hnot : c ∉ needle := by
        intro hmem
        rw [hp c hmem] at hc
        cases hc
      have hnil : contains needle [] = false := by
        rw [← Bool.not_eq_true, contains_eq_true, List.infix_nil]
        exact hne
      have hcons := contains_append_cons hnot [] text
      rw [hnil, List.nil_append, or_iff_right Bool.noConfusion] at hcons
      rw [List.dropWhile_cons_of_pos hc, ih]
      exact (Bool.eq_iff_iff.mpr hcons).symm

theorem contains_reverse (needle text : Text) :
    contains needle.reverse text.reverse = contains needle text := by
  rw [Bool.eq_iff_iff, contains_eq_true, contains_eq_true, List.reverse_infix]

/-- What `grep` prints where one of the lines matches is not empty. -/
theorem grep_eq_nil {needle : Text} {lines : List Text} :
    grep needle lines = [] ↔ ∀ line ∈ lines, contains needle line = false := by
  simp [grep, List.filter_eq_nil_iff]

/-- The lines of an output, each with its newline. -/
def stdout (lines : List Text) : Text := lines.flatMap (· ++ ['\n'])

/-- A text that is one field. -/
structure Plain (text : Text) : Prop where
  ne_nil : text ≠ []
  no_blank : ∀ c ∈ text, isBlank c = false

/-- One that pathname expansion leaves alone, too. -/
structure Unexpanded (text : Text) : Prop extends Plain text where
  no_pattern : ∀ c ∈ text, c ≠ '*' ∧ c ≠ '?' ∧ c ≠ '[' ∧ c ≠ '\\'

theorem Unexpanded.append {first second : Text} (h : Unexpanded first) (h' : Unexpanded second) :
    Unexpanded (first ++ second) where
  ne_nil := List.append_ne_nil_of_left_ne_nil h.ne_nil second
  no_blank := List.forall_mem_append.mpr ⟨h.no_blank, h'.no_blank⟩
  no_pattern := List.forall_mem_append.mpr ⟨h.no_pattern, h'.no_pattern⟩

theorem Plain.words {text : Text} (h : Plain text) : Shell.words text = [text] :=
  words_eq_singleton h.ne_nil h.no_blank

theorem Plain.newline_notMem {text : Text} (h : Plain text) : '\n' ∉ text :=
  fun hmem ↦ absurd (h.no_blank _ hmem) (by decide)

theorem of_mem_splitOnP {text field : Text} (h : field ∈ text.splitOnP isBlank) :
    ∀ c ∈ field, c ∈ text ∧ isBlank c = false := by
  induction text generalizing field with
  | nil =>
    rw [List.splitOnP_nil, List.mem_singleton] at h
    rw [h]
    exact fun _ hc ↦ absurd hc List.not_mem_nil
  | cons first text ih =>
    have hlater : ∀ later ∈ text.splitOnP isBlank, ∀ c ∈ later, c ∈ first :: text ∧ isBlank c = false :=
      fun later hmem c hc ↦ (ih hmem c hc).imp_left (List.mem_cons_of_mem _)
    rw [List.splitOnP_cons_eq_if_modifyHead] at h
    split at h
    · rcases List.mem_cons.mp h with rfl | hmem
      · exact fun _ hc ↦ absurd hc List.not_mem_nil
      · exact hlater field hmem
    · next hblank =>
      obtain ⟨head, rest, hsplit⟩ := List.exists_cons_of_ne_nil (List.splitOnP_ne_nil isBlank text)
      rw [hsplit] at h hlater
      rcases List.mem_cons.mp h with rfl | hmem
      · rw [List.forall_mem_cons]
        exact ⟨⟨List.mem_cons_self, Bool.eq_false_of_not_eq_true hblank⟩,
          hlater head List.mem_cons_self⟩
      · exact hlater field (List.mem_cons_of_mem _ hmem)

/-- A field is one field, made of characters of the text. -/
theorem plain_of_mem_words {text field : Text} (h : field ∈ words text) :
    Plain field ∧ ∀ c ∈ field, c ∈ text := by
  rw [words, List.mem_filter] at h
  have hchars := of_mem_splitOnP h.1
  exact ⟨⟨of_decide_eq_true h.2, fun c hc ↦ (hchars c hc).2⟩, fun c hc ↦ (hchars c hc).1⟩

/-- A text without blanks, or what stands before and behind its first one. -/
theorem exists_blank (text : Text) :
    (∀ c ∈ text, isBlank c = false) ∨ ∃ front blank rest, text = front ++ blank :: rest ∧
      isBlank blank = true ∧ ∀ c ∈ front, isBlank c = false := by
  induction text with
  | nil => exact .inl fun c hc ↦ absurd hc List.not_mem_nil
  | cons c text ih =>
    cases hc : isBlank c with
    | true => exact .inr ⟨[], c, text, rfl, hc, fun c hc ↦ absurd hc List.not_mem_nil⟩
    | false =>
      rcases ih with hnone | ⟨front, blank, rest, rfl, hblank, hfront⟩
      · exact .inl (List.forall_mem_cons.mpr ⟨hc, hnone⟩)
      · exact .inr ⟨c :: front, blank, rest, rfl, hblank, List.forall_mem_cons.mpr ⟨hc, hfront⟩⟩

theorem words_cons_ne_nil {c : Char} (hc : isBlank c = false) (text : Text) : words (c :: text) ≠ [] := by
  rcases exists_blank (c :: text) with hnone | ⟨front, blank, rest, heq, hblank, hfront⟩
  · rw [words_eq_singleton (List.cons_ne_nil _ _) hnone]
    exact List.cons_ne_nil _ _
  · have hne : front ≠ [] := by
      rintro rfl
      rw [(List.cons.inj heq).1, hblank] at hc
      cases hc
    rw [heq, words_append_blank front rest hblank, words_eq_singleton hne hfront]
    exact List.cons_ne_nil _ _

theorem words_append_singleton_ne_nil {c : Char} (hc : isBlank c = false) (text : Text) :
    words (text ++ [c]) ≠ [] := by
  induction text with
  | nil => exact words_cons_ne_nil hc []
  | cons first text ih =>
    cases hfirst : isBlank first with
    | false => exact words_cons_ne_nil hfirst _
    | true =>
      have hskip : words (first :: (text ++ [c])) = words (text ++ [c]) :=
        words_append_blank [] (text ++ [c]) hfirst
      rw [List.cons_append, hskip]
      exact ih

theorem length_le_of_mem_words {text field : Text} (h : field ∈ words text) :
    field.length ≤ text.length := by
  have hbound : ∀ n, ∀ text : Text, text.length ≤ n → field ∈ words text →
      field.length ≤ text.length := by
    intro n
    induction n with
    | zero =>
      intro text hlength hfield
      rw [List.length_eq_zero_iff.mp (Nat.le_zero.mp hlength)] at hfield
      cases hfield
    | succ n ih =>
      intro text hlength hfield
      rcases exists_blank text with hnone | ⟨front, blank, rest, rfl, hblank, -⟩
      · by_cases hne : text = []
        · rw [hne] at hfield
          cases hfield
        · rw [words_eq_singleton hne hnone, List.mem_singleton] at hfield
          exact Nat.le_of_eq (congrArg List.length hfield)
      · rw [List.length_append, List.length_cons] at hlength ⊢
        rw [words_append_blank front rest hblank, List.mem_append] at hfield
        rcases hfield with hfirst | hlater
        · exact (ih front (by omega) hfirst).trans (Nat.le_add_right _ _)
        · have hrest := ih rest (by omega) hlater
          omega
  exact hbound text.length text (Nat.le_refl _) h

theorem words_flatMap_blank {fields : List Text} (h : ∀ field ∈ fields, Plain field) :
    words (fields.flatMap (· ++ [' '])) = fields := by
  induction fields with
  | nil => rfl
  | cons field fields ih =>
    have hfield := h field List.mem_cons_self
    have hrest := ih fun other hother ↦ h other (List.mem_cons_of_mem _ hother)
    calc
      words ((field :: fields).flatMap (· ++ [' ']))
          = words (field ++ ' ' :: fields.flatMap (· ++ [' '])) := by simp
      _ = words field ++ words (fields.flatMap (· ++ [' '])) := words_append_blank _ _ rfl
      _ = field :: fields := by rw [hfield.words, hrest, List.singleton_append]

theorem words_intercalate {fields : List Text} (h : ∀ field ∈ fields, Plain field) :
    words ([' '].intercalate fields) = fields := by
  induction fields with
  | nil => rfl
  | cons field fields ih =>
    have hfield := h field List.mem_cons_self
    have hrest := ih fun other hother ↦ h other (List.mem_cons_of_mem _ hother)
    cases fields with
    | nil => rw [List.intercalate_singleton, hfield.words]
    | cons next fields =>
      rw [List.intercalate_cons_cons, List.append_assoc, List.singleton_append,
        words_append_blank _ _ rfl, hfield.words, hrest, List.singleton_append]

theorem newline_notMem_intercalate {fields : List Text} (h : ∀ field ∈ fields, Plain field) :
    '\n' ∉ [' '].intercalate fields := by
  induction fields with
  | nil => simp
  | cons field fields ih =>
    have hfield := (h field List.mem_cons_self).newline_notMem
    have hrest := ih fun other hother ↦ h other (List.mem_cons_of_mem _ hother)
    cases fields with
    | nil => rwa [List.intercalate_singleton]
    | cons next fields =>
      rw [List.intercalate_cons_cons]
      simp [hfield, hrest]

theorem commandSubst_eq_self {text : Text} (h : '\n' ∉ text) : commandSubst text = text := by
  have hreverse : text.reverse.dropWhile (· == '\n') = text.reverse := by
    rw [← List.mem_reverse] at h
    cases hlast : text.reverse with
    | nil => rfl
    | cons c rest =>
      rw [hlast, List.mem_cons, not_or] at h
      apply List.dropWhile_cons_of_neg
      exact fun hnewline ↦ h.1 (eq_of_beq hnewline).symm
  rw [commandSubst, hreverse, List.reverse_reverse]

theorem words_append_blanks (text : Text) {blanks : Text} (h : ∀ c ∈ blanks, isBlank c = true) :
    words (text ++ blanks) = words text := by
  induction blanks generalizing text with
  | nil => rw [List.append_nil]
  | cons c blanks ih =>
    rw [List.forall_mem_cons] at h
    have hrest := ih [] h.2
    rw [List.nil_append] at hrest
    rw [words_append_blank _ _ h.1, hrest]
    exact List.append_nil _

theorem mem_of_mem_commandSubst {output : Text} {c : Char} (h : c ∈ commandSubst output) :
    c ∈ output := by
  rw [commandSubst, List.mem_reverse] at h
  exact List.mem_reverse.mp ((List.dropWhile_sublist _).subset h)

/-- The newlines that `$(..)` removes separate no fields. -/
theorem words_commandSubst (text : Text) : words (commandSubst text) = words text := by
  have hsplit : commandSubst text ++ (text.reverse.takeWhile (· == '\n')).reverse = text := by
    rw [commandSubst, ← List.reverse_append, List.takeWhile_append_dropWhile, List.reverse_reverse]
  have hblanks : ∀ c ∈ (text.reverse.takeWhile (· == '\n')).reverse, isBlank c = true := by
    intro c hc
    have hnewline := List.mem_takeWhile_imp (List.mem_reverse.mp hc)
    rw [eq_of_beq hnewline]
    rfl
  calc
    words (commandSubst text)
        = words (commandSubst text ++ (text.reverse.takeWhile (· == '\n')).reverse) :=
      (words_append_blanks _ hblanks).symm
    _ = words text := by rw [hsplit]

theorem words_stdout (lines : List Text) : words (stdout lines) = lines.flatMap words := by
  induction lines with
  | nil => rfl
  | cons line lines ih =>
    have hcons : stdout (line :: lines) = line ++ '\n' :: stdout lines := by simp [stdout]
    rw [hcons, words_append_blank _ _ rfl, ih, List.flatMap_cons]

theorem commandSubst_append_newline {text : Text} (h : '\n' ∉ text) :
    commandSubst (text ++ ['\n']) = text := by
  have hself := commandSubst_eq_self h
  rw [commandSubst] at hself ⊢
  rw [List.reverse_append, List.reverse_singleton, List.singleton_append, List.dropWhile_cons_of_pos rfl]
  exact hself

/-- `$(echo ..)` joins the operands. -/
theorem commandSubst_echo {fields : List Text} (h : ∀ field ∈ fields, Plain field) :
    commandSubst (echo fields) = [' '].intercalate fields :=
  commandSubst_append_newline (newline_notMem_intercalate h)

theorem isBlank_of_isSome_digitValue {c : Char} (h : (Hex.digitValue c).isSome) :
    isBlank c = false := by
  rw [← Bool.not_eq_true]
  intro hblank
  simp only [isBlank, Bool.or_eq_true, beq_iff_eq] at hblank
  rcases hblank with (rfl | rfl) | rfl <;> exact absurd h (by decide)

theorem isBlank_of_mem_printfHex {width n : ℕ} : ∀ c ∈ Hex.printfHex width n, isBlank c = false :=
  fun c hc ↦ isBlank_of_isSome_digitValue (Hex.isSome_digitValue_of_mem_printfHex c hc)

/-- Two characters to a piece, with the last one alone where their number is odd. -/
def pairs : Text → List Text
  | a :: b :: rest => [a, b] :: pairs rest
  | [] => []
  | text => [text]

/-- Where every piece has two characters, the pieces are found again. -/
theorem pairs_flatten {pieces : List Text} (h : ∀ piece ∈ pieces, piece.length = 2) :
    pairs pieces.flatten = pieces := by
  induction pieces with
  | nil => rfl
  | cons piece pieces ih =>
    obtain ⟨a, b, rfl⟩ := List.length_eq_two.mp (h piece List.mem_cons_self)
    have hrest := ih fun other hother ↦ h other (List.mem_cons_of_mem _ hother)
    calc
      pairs ([a, b] :: pieces).flatten = [a, b] :: pairs pieces.flatten := rfl
      _ = [a, b] :: pieces := by rw [hrest]

theorem length_pairs (text : Text) : (pairs text).length = (text.length + 1) / 2 := by
  fun_induction pairs text with
  | case1 a b rest ih =>
    rw [List.length_cons, ih, List.length_cons, List.length_cons]
    omega
  | case2 => rfl
  | case3 text hpair hempty =>
    cases text with
    | nil => exact absurd rfl hempty
    | cons a text =>
      cases text with
      | nil => simp
      | cons b text => exact absurd rfl (hpair a b text)

theorem mem_of_mem_pairs {text piece : Text} (h : piece ∈ pairs text) :
    piece ≠ [] ∧ ∀ c ∈ piece, c ∈ text := by
  fun_induction pairs text with
  | case1 a b rest ih =>
    rcases List.mem_cons.mp h with rfl | hrest
    · simp
    · have hpiece := ih hrest
      exact ⟨hpiece.1, fun c hc ↦ List.mem_cons_of_mem _ (List.mem_cons_of_mem _ (hpiece.2 c hc))⟩
  | case2 => cases h
  | case3 text _ hempty =>
    rw [List.mem_singleton.mp h]
    exact ⟨hempty, fun _ ↦ id⟩

theorem plain_of_mem_pairs {text : Text} (h : ∀ c ∈ text, isBlank c = false) :
    ∀ piece ∈ pairs text, Plain piece := by
  intro piece hpiece
  obtain ⟨hne, hchars⟩ := mem_of_mem_pairs hpiece
  exact ⟨hne, fun c hc ↦ h c (hchars c hc)⟩

/-- The pieces become fields. -/
theorem words_sedPairs {text : Text} (h : ∀ c ∈ text, isBlank c = false) :
    words (sedPairs (text ++ ['\n'])) = pairs text := by
  have hnewline : ∀ {c}, isBlank c = false → c ≠ '\n' := by
    rintro c hc rfl
    exact absurd hc (by decide)
  fun_induction pairs text with
  | case1 a b rest ih =>
    rw [List.forall_mem_cons, List.forall_mem_cons] at h
    obtain ⟨ha, hb, hrest⟩ := h
    have hguard : ¬ (a = '\n' ∨ b = '\n') := not_or.mpr ⟨hnewline ha, hnewline hb⟩
    have hpair : Plain [a, b] := ⟨List.cons_ne_nil _ _, by simp [ha, hb]⟩
    calc
      words (sedPairs (a :: b :: (rest ++ ['\n'])))
          = words ([a, b] ++ ' ' :: sedPairs (rest ++ ['\n'])) := by
        rw [sedPairs, if_neg hguard]
        rfl
      _ = [a, b] :: pairs rest := by
        rw [words_append_blank _ _ rfl, hpair.words, ih hrest, List.singleton_append]
  | case2 => rfl
  | case3 text hpair hempty =>
    cases text with
    | nil => exact absurd rfl hempty
    | cons a text =>
      cases text with
      | cons b text => exact absurd rfl (hpair a b text)
      | nil =>
        have ha : Plain [a] := ⟨List.cons_ne_nil _ _, h⟩
        calc
          words (sedPairs [a, '\n']) = words ([a] ++ '\n' :: []) := by
            rw [sedPairs, if_pos (.inr rfl)]
            rfl
          _ = [[a]] := by
            rw [words_append_blank _ _ rfl, ha.words]
            rfl

/-- The fields of a line in reverse order, each with a blank after it. -/
theorem awkReverse_echo {fields : List Text} (h : ∀ field ∈ fields, Plain field) :
    awkReverse (echo fields) = fields.reverse.flatMap (· ++ [' ']) := by
  have hlines : (echo fields).splitOn '\n' = [[' '].intercalate fields, []] := by
    rw [echo, List.splitOn_append_cons_self_of_not_mem (newline_notMem_intercalate h)]
    rfl
  rw [awkReverse, hlines]
  simp only [List.flatMap_cons, words_intercalate h]
  simp [words]

/-! ## Decimal operands -/

theorem decimal_ne_cons_zero {n : ℕ} (h : 0 < n) (digits : Text) : Text.decimal n ≠ '0' :: digits := by
  induction n using Nat.strongRecOn generalizing digits with
  | ind n ih =>
    intro heq
    by_cases hsmall : n < 10
    · have hdigit : ∀ m < 10, 0 < m → Nat.digitChar m ≠ '0' := by decide
      rw [Text.decimal, Nat.toDigits_of_lt_base hsmall, List.cons.injEq] at heq
      exact hdigit n hsmall h heq.1
    · have hlarge : 10 ≤ n := Nat.le_of_not_lt hsmall
      have hdiv : 0 < n / 10 := Nat.div_pos hlarge (by decide)
      obtain ⟨c, rest, hrest⟩ := List.exists_cons_of_ne_nil (Text.decimal_ne_nil (n / 10))
      rw [Text.decimal, Nat.toDigits_of_base_le (by decide) hlarge] at heq
      rw [Text.decimal] at hrest
      rw [hrest, List.cons_append, List.cons.injEq] at heq
      exact ih (n / 10) (Nat.div_lt_self h (by decide)) hdiv rest (by
        rw [Text.decimal, hrest, heq.1])

theorem strtoumax_lt (text : Text) : strtoumax text < 2 ^ 64 := by
  unfold strtoumax
  omega

/-- Decimal digits without a leading zero, read as they are meant. -/
theorem strtoumax_of_digits {digits : Text} (hdigits : ∀ c ∈ digits, c.isDigit = true)
    (hhead : digits.head? ≠ some '0') :
    strtoumax digits = min (2 ^ 64 - 1) (Text.decimalValue digits) := by
  have hall : digits.takeWhile Char.isDigit = digits := List.takeWhile_eq_self_iff.mpr hdigits
  unfold strtoumax
  split
  · exact absurd rfl hhead
  · exact absurd rfl hhead
  · exact absurd rfl hhead
  · rw [hall]

/-- A decimal operand without leading zeros is read as it is meant. -/
theorem strtoumax_decimal {n : ℕ} (h : n < 2 ^ 64) : strtoumax (Text.decimal n) = n := by
  rcases Nat.eq_zero_or_pos n with rfl | hpos
  · rfl
  · have hhead : (Text.decimal n).head? ≠ some '0' := by
      intro heq
      obtain ⟨digits, hdigits⟩ := List.head?_eq_some_iff.mp heq
      exact decimal_ne_cons_zero hpos digits hdigits
    rw [strtoumax_of_digits (fun _ ↦ Text.isDigit_of_mem_decimal) hhead, Text.decimalValue_decimal]
    omega

theorem plain_decimal (n : ℕ) : Plain (Text.decimal n) := by
  refine ⟨Text.decimal_ne_nil n, fun c hc ↦ ?_⟩
  have hdigit := Text.isDigit_of_mem_decimal hc
  rw [← Bool.not_eq_true]
  intro hblank
  simp only [isBlank, Bool.or_eq_true, beq_iff_eq] at hblank
  rcases hblank with (rfl | rfl) | rfl <;> exact absurd hdigit (by decide)

end EbpfPlayground.Shell
