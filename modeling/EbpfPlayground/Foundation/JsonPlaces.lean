import EbpfPlayground.Foundation.JsonReject

/-!
# Texts pasted into a document

A text that is pasted between the quotes of a string literal may end the literal and go on as it
likes.  What can become of the document is followed by the places at which a decoder stands: in front
of a value or behind one.  Every move of a decoder leads from a place to a place, so it reads a document
to its end only if the end is one of them.  Of the literals that begin inside the pasted text, none is as
long as the text.
-/

namespace EbpfPlayground.Json

/-! ## String literals over a pasted text -/

/-- A text that stands between quotes as it is. -/
structure Literal (text : Text) : Prop where
  quote_notMem : '"' ∉ text
  backslash_notMem : '\\' ∉ text
  printable : Printable text

theorem literal_nil : Literal [] := by
  refine ⟨List.not_mem_nil, List.not_mem_nil, ?_⟩
  intro c hc
  cases hc

theorem exists_pieces_of_scanString {d : Dialect} {text value left : Text}
    (h : scanString d text = some (value, left)) :
    ∃ pieces, scanPieces .plain text = some (pieces, left) ∧
      joinPieces d.loneSurrogate pieces = some value := by
  obtain ⟨⟨pieces, behind⟩, hpieces, hjoin⟩ := Option.bind_eq_some_iff.mp h
  obtain ⟨value', hvalue, heq⟩ := Option.map_eq_some_iff.mp hjoin
  obtain ⟨rfl, rfl⟩ : value' = value ∧ behind = left := Prod.mk.inj heq
  exact ⟨pieces, hpieces, hvalue⟩

/-- How a string literal goes on over a text, whatever follows the text. -/
inductive Over (state : StringState) (text : Text) : Prop where
  | fails (h : ∀ rest, scanPieces state (text ++ rest) = none)
  | ends (pieces : List StringPiece) (left : Text)
      (hlength : pieces.length + left.length < text.length)
      (h : ∀ rest, scanPieces state (text ++ rest) = some (pieces, left ++ rest))
  | runs (state' : StringState) (pieces : List StringPiece) (hlength : pieces.length ≤ text.length)
      (h : ∀ rest, scanPieces state (text ++ rest) =
        (scanPieces state' rest).map (Prod.map (pieces ++ ·) id))
      (hplain : state = .plain →
        (Literal text ∧ pieces = text.map .char ∧ state' = .plain) ∨ pieces.length < text.length)

/-- Put a character in front that yields one piece. -/
theorem Over.cons_piece {state state' : StringState} {c : Char} {text : Text} (piece : StringPiece)
    (hstep : ∀ rest, scanPieces state (c :: rest) =
      (scanPieces state' rest).map (Prod.map (piece :: ·) id))
    (hliteral : state = .plain → state' = .plain ∧ piece = .char c ∧ c ≠ '"' ∧ c ≠ '\\' ∧
      0x20 ≤ c.toNat)
    (h : Over state' text) : Over state (c :: text) := by
  cases h with
  | fails h =>
    refine .fails fun rest ↦ ?_
    rw [List.cons_append, hstep, h]
    rfl
  | ends pieces left hlength h =>
    refine .ends (piece :: pieces) left ?_ fun rest ↦ ?_
    · rw [List.length_cons, List.length_cons]
      omega
    · rw [List.cons_append, hstep, h]
      rfl
  | runs last pieces hlength h hplain =>
    refine .runs last (piece :: pieces) (Nat.succ_le_succ hlength) (fun rest ↦ ?_) fun hstate ↦ ?_
    · rw [List.cons_append, hstep, h, Option.map_map]
      rfl
    · obtain ⟨hplain', rfl, hquote, hback, hprintable⟩ := hliteral hstate
      rcases hplain hplain' with ⟨hliteral', rfl, hlast⟩ | hless
      · refine .inl ⟨⟨?_, ?_, ?_⟩, rfl, hlast⟩
        · rw [List.mem_cons, not_or]
          exact ⟨Ne.symm hquote, hliteral'.quote_notMem⟩
        · rw [List.mem_cons, not_or]
          exact ⟨Ne.symm hback, hliteral'.backslash_notMem⟩
        · exact List.forall_mem_cons.mpr ⟨hprintable, hliteral'.printable⟩
      · exact .inr (Nat.succ_lt_succ hless)

/-- Put a character in front that yields no piece yet. -/
theorem Over.cons_state {state state' : StringState} {c : Char} {text : Text}
    (hstep : ∀ rest, scanPieces state (c :: rest) = scanPieces state' rest) (h : Over state' text) :
    Over state (c :: text) := by
  cases h with
  | fails h =>
    refine .fails fun rest ↦ ?_
    rw [List.cons_append, hstep, h]
  | ends pieces left hlength h =>
    refine .ends pieces left (Nat.lt_succ_of_lt hlength) fun rest ↦ ?_
    rw [List.cons_append, hstep, h]
  | runs last pieces hlength h hplain =>
    refine .runs last pieces (Nat.le_succ_of_le hlength) (fun rest ↦ ?_) fun _ ↦ ?_
    · rw [List.cons_append, hstep, h]
    · exact .inr (Nat.lt_succ_of_le hlength)

theorem over_text (state : StringState) (text : Text) : Over state text := by
  induction text generalizing state with
  | nil =>
    refine .runs state [] (Nat.le_refl _) (fun rest ↦ ?_) fun hstate ↦ ?_
    · rw [List.nil_append]
      cases scanPieces state rest <;> rfl
    · exact .inl ⟨literal_nil, rfl, hstate⟩
  | cons c text ih =>
    cases state with
    | plain =>
      by_cases hquote : c = '"'
      · subst hquote
        exact .ends [] text (by simp) fun _ ↦ rfl
      by_cases hback : c = '\\'
      · subst hback
        exact (ih .escape).cons_state fun _ ↦ rfl
      by_cases hsmall : c.toNat < 0x20
      · refine .fails fun rest ↦ ?_
        rw [List.cons_append, scanPieces, if_neg hquote, if_neg hback, if_pos hsmall]
      · refine (ih .plain).cons_piece (.char c) (fun rest ↦ ?_) fun _ ↦ ?_
        · rw [scanPieces, if_neg hquote, if_neg hback, if_neg hsmall]
        · exact ⟨rfl, rfl, hquote, hback, Nat.le_of_not_lt hsmall⟩
    | escape =>
      by_cases hu : c = 'u'
      · subst hu
        exact (ih (.hex 3 0)).cons_state fun _ ↦ rfl
      cases he : escapedChar c with
      | none =>
        refine .fails fun rest ↦ ?_
        rw [List.cons_append, scanPieces, if_neg hu, he]
        rfl
      | some e =>
        refine (ih .plain).cons_piece (.char e) (fun rest ↦ ?_) fun hstate ↦ by cases hstate
        rw [scanPieces, if_neg hu, he]
        rfl
    | hex left acc =>
      cases hdigit : Hex.digitValue c with
      | none =>
        refine .fails fun rest ↦ ?_
        rw [List.cons_append, scanPieces, hdigit]
        rfl
      | some digit =>
        cases left with
        | zero =>
          refine (ih .plain).cons_piece (.code (16 * acc + digit)) (fun rest ↦ ?_) fun hstate ↦ by cases hstate
          rw [scanPieces, hdigit]
          rfl
        | succ left =>
          refine (ih (.hex left (16 * acc + digit))).cons_state fun rest ↦ ?_
          rw [scanPieces, hdigit]
          rfl

theorem length_joinPieces_le {lone : ℕ → Option Char} (pieces : List StringPiece) {text : Text}
    (h : joinPieces lone pieces = some text) : text.length ≤ pieces.length := by
  fun_induction joinPieces lone pieces generalizing text with
  | case1 =>
    cases h
    exact Nat.le_refl _
  | case2 c rest ih =>
    obtain ⟨tail, htail, rfl⟩ := Option.map_eq_some_iff.mp h
    exact Nat.succ_le_succ (ih htail)
  | case3 high low rest _ ih =>
    obtain ⟨tail, htail, rfl⟩ := Option.map_eq_some_iff.mp h
    exact Nat.succ_le_succ (Nat.le_succ_of_le (ih htail))
  | case4 high low rest _ ih =>
    obtain ⟨c, -, h⟩ := Option.bind_eq_some_iff.mp h
    obtain ⟨tail, htail, rfl⟩ := Option.map_eq_some_iff.mp h
    exact Nat.succ_le_succ (ih htail)
  | case5 n rest _ ih =>
    obtain ⟨c, -, h⟩ := Option.bind_eq_some_iff.mp h
    obtain ⟨tail, htail, rfl⟩ := Option.map_eq_some_iff.mp h
    exact Nat.succ_le_succ (ih htail)

/-- The document does not go on here, and it is not the end. -/
def Stuck (text : Text) : Prop :=
  ∃ c rest, skipWs text = c :: rest ∧ c ≠ ',' ∧ c ≠ ':' ∧ c ≠ ']' ∧ c ≠ '}'

theorem stuck_cons {c : Char} (hws : isWs c = false) (hc : c ≠ ',' ∧ c ≠ ':' ∧ c ≠ ']' ∧ c ≠ '}')
    (rest : Text) : Stuck (c :: rest) := ⟨c, rest, skipWs_cons_of_not_ws hws rest, hc⟩

/-- What a literal over a text comes to: it ends in the text, or it runs over it. -/
theorem scanString_append {d : Dialect} {text tail value left : Text}
    (h : scanString d (text ++ tail) = some (value, left)) :
    (∃ front, left = front ++ tail ∧ value.length + front.length < text.length) ∨
      ∃ state more, scanPieces state tail = some (more, left) ∧
        ((Literal text ∧ state = .plain ∧ (more = [] → value = text)) ∨
          value.length < text.length + more.length) := by
  obtain ⟨all, hpieces, hvalue⟩ := exists_pieces_of_scanString h
  have hshort := length_joinPieces_le all hvalue
  cases over_text .plain text with
  | fails hover =>
    rw [hover] at hpieces
    cases hpieces
  | ends pieces front hlength hover =>
    rw [hover] at hpieces
    obtain ⟨rfl, rfl⟩ := Prod.mk.inj (Option.some.inj hpieces)
    exact .inl ⟨front, rfl, by omega⟩
  | runs state pieces hlength hover hplain =>
    rw [hover] at hpieces
    obtain ⟨⟨more, left'⟩, hmore, heq⟩ := Option.map_eq_some_iff.mp hpieces
    obtain ⟨rfl, rfl⟩ : pieces ++ more = all ∧ left' = left := Prod.mk.inj heq
    refine .inr ⟨state, more, hmore, ?_⟩
    rcases hplain rfl with ⟨hliteral, rfl, hstate⟩ | hless
    · refine .inl ⟨hliteral, hstate, ?_⟩
      rintro rfl
      rw [List.append_nil, joinPieces_map_char] at hvalue
      exact (Option.some.inj hvalue).symm
    · rw [List.length_append] at hshort
      exact .inr (by omega)

/-- A literal, with the quotes around it. -/
theorem Literal.quote_eq {text : Text} (h : Literal text) : quote text = '"' :: (text ++ ['"']) := by
  rw [quote, escaped_eq_self h.quote_notMem h.backslash_notMem]
  rfl

/-- What a literal in front of a quote comes to. -/
theorem scanString_append_quote {d : Dialect} {text tail value left : Text}
    (hopen : ∀ pieces left, scanPieces .plain tail = some (pieces, left) → Stuck left)
    (h : scanString d (text ++ '"' :: tail) = some (value, left)) :
    Stuck left ∨ (∃ front, left = front ++ '"' :: tail ∧ value.length + front.length < text.length) ∨
      left = tail ∧ (value.length < text.length ∨ Literal text ∧ value = text) := by
  rcases scanString_append h with hends | ⟨state, more, hmore, hvalue⟩
  · exact .inr (.inl hends)
  · cases state with
    | plain =>
      obtain ⟨rfl, rfl⟩ : [] = more ∧ tail = left := Prod.mk.inj (Option.some.inj hmore)
      rcases hvalue with ⟨hliteral, -, hsame⟩ | hless
      · exact .inr (.inr ⟨rfl, .inr ⟨hliteral, hsame rfl⟩⟩)
      · exact .inr (.inr ⟨rfl, .inl hless⟩)
    | escape =>
      -- The quote is escaped, so the literal goes on behind it.
      obtain ⟨⟨rest, behind⟩, hrest, heq⟩ := Option.map_eq_some_iff.mp hmore
      obtain rfl : behind = left := (Prod.mk.inj heq).2
      exact .inl (hopen rest behind hrest)
    | hex left acc => cases hmore

/-- A literal that does not end in a text here does not end in it anywhere. -/
theorem exists_of_scanString_over {d : Dialect} {text c : Text} {value : Text} (hne : c ≠ [])
    (h : scanString d (text ++ c) = some (value, [])) {tail value' left : Text}
    (h' : scanString d (text ++ tail) = some (value', left)) :
    ∃ state more, scanPieces state tail = some (more, left) := by
  obtain ⟨here, hhere, -⟩ := exists_pieces_of_scanString h
  obtain ⟨all, hpieces, -⟩ := exists_pieces_of_scanString h'
  cases over_text .plain text with
  | fails hover =>
    rw [hover] at hpieces
    cases hpieces
  | ends pieces front _ hover =>
    rw [hover] at hhere
    have hnil := (Prod.mk.inj (Option.some.inj hhere)).2
    exact absurd (List.append_eq_nil_iff.mp hnil).2 hne
  | runs state pieces _ hover _ =>
    rw [hover] at hpieces
    obtain ⟨⟨more, behind⟩, hmore, heq⟩ := Option.map_eq_some_iff.mp hpieces
    obtain rfl : behind = left := (Prod.mk.inj heq).2
    exact ⟨state, more, hmore⟩

/-- Where a literal does not end in a text, the text has no quote before its first backslash. -/
theorem exists_front_of_scanPieces {text c : Text} {pieces : List StringPiece} (hne : c ≠ [])
    (h : scanPieces .plain (text ++ c) = some (pieces, [])) :
    ∃ front rest, text = front ++ rest ∧ '"' ∉ front ∧ (rest = [] ∨ ∃ more, rest = '\\' :: more) := by
  induction text generalizing pieces with
  | nil => exact ⟨[], [], rfl, List.not_mem_nil, .inl rfl⟩
  | cons first text ih =>
    rw [List.cons_append, scanPieces] at h
    by_cases hquote : first = '"'
    · rw [if_pos hquote] at h
      have hnil := (Prod.mk.inj (Option.some.inj h)).2
      exact absurd (List.append_eq_nil_iff.mp hnil).2 hne
    by_cases hback : first = '\\'
    · exact ⟨[], first :: text, rfl, List.not_mem_nil, .inr ⟨text, by rw [hback]⟩⟩
    rw [if_neg hquote, if_neg hback] at h
    split at h
    · cases h
    · obtain ⟨⟨more, left⟩, hmore, heq⟩ := Option.map_eq_some_iff.mp h
      obtain rfl : left = [] := (Prod.mk.inj heq).2
      obtain ⟨front, rest, rfl, hfront, hrest⟩ := ih hmore
      refine ⟨first :: front, rest, rfl, ?_, hrest⟩
      rw [List.mem_cons, not_or]
      exact ⟨Ne.symm hquote, hfront⟩

/-! ## Places -/

/-- A character of a number or of a word. -/
def IsBare (c : Char) : Prop := c.isAlphanum = true ∨ c = '+' ∨ c = '-' ∨ c = '.'

instance : DecidablePred IsBare := fun _ ↦ inferInstanceAs (Decidable (_ ∨ _))

/-- Behind a value, a comma or a colon leads in front of the next one, a closing bracket behind it. -/
structure FromAfter (before after : Text → Prop) (text : Text) : Prop where
  comma : ∀ rest, skipWs text = ',' :: rest → before rest
  colon : ∀ rest, skipWs text = ':' :: rest → before rest
  close : ∀ c rest, skipWs text = c :: rest → c = ']' ∨ c = '}' → after rest

/-- In front of a value or a member: a literal, an opening bracket, a number or a word. -/
structure FromBefore (d : Dialect) (before after : Text → Prop) (text : Text) : Prop where
  string : ∀ rest value left, skipWs text = '"' :: rest → scanString d rest = some (value, left) →
    after left
  opening : ∀ c rest, skipWs text = c :: rest → c = '[' ∨ c = '{' →
    before rest ∧ ∀ c' rest', skipWs rest = c' :: rest' → c' = ']' ∨ c' = '}' → after rest'
  bare : ∀ word left, skipWs text = word ++ left → word ≠ [] → (∀ c ∈ word, IsBare c) → after left

/-- Places that are not left by any move of a decoder. -/
structure Places (d : Dialect) (before after : Text → Prop) : Prop where
  stuck : ∀ text, Stuck text → after text
  fromAfter : ∀ text, after text → FromAfter before after text
  fromBefore : ∀ text, before text → FromBefore d before after text

section Places

variable {α : Type} {d : Dialect} {before after : Text → Prop}

/-- Nothing follows where the decoder is stuck. -/
theorem Stuck.fromAfter {text : Text} (h : Stuck text) : FromAfter before after text := by
  obtain ⟨c, rest, hskip, hcomma, hcolon, hbracket, hbrace⟩ := h
  refine ⟨fun rest' hrest ↦ ?_, fun rest' hrest ↦ ?_, fun c' rest' hrest hc ↦ ?_⟩
  · exact absurd (List.cons.inj (hskip.symm.trans hrest)).1 hcomma
  · exact absurd (List.cons.inj (hskip.symm.trans hrest)).1 hcolon
  · obtain rfl := (List.cons.inj (hskip.symm.trans hrest)).1
    exact absurd hc (not_or.mpr ⟨hbracket, hbrace⟩)

theorem isBare_of_next {state state' : NumberState} {c : Char} (h : state.next c = some state') :
    IsBare c := by
  have hdigit : c.isDigit = true → IsBare c := fun hc ↦ .inl (by simp [Char.isAlphanum, hc])
  have hexponent : c = 'e' ∨ c = 'E' → IsBare c := by
    rintro (rfl | rfl) <;> exact .inl (by decide)
  have hzero : c = '0' → IsBare c := by
    rintro rfl
    exact .inl (by decide)
  cases state <;>
    simp only [NumberState.next, NumberState.next.leading, NumberState.next.fraction,
      NumberState.next.exponent] at h <;>
    split at h <;> grind [IsBare]

theorem bare_of_scanNumber {state : NumberState} {text literal left : Text}
    (h : scanNumber state text = some (literal, left)) :
    text = literal ++ left ∧ ∀ c ∈ literal, IsBare c := by
  induction text generalizing state literal with
  | nil =>
    obtain ⟨-, heq⟩ := Option.ite_none_right_eq_some.mp h
    obtain ⟨rfl, rfl⟩ : [] = literal ∧ [] = left := Prod.mk.inj (Option.some.inj heq)
    exact ⟨rfl, fun c hc ↦ absurd hc List.not_mem_nil⟩
  | cons c text ih =>
    rw [scanNumber] at h
    split at h
    · next state' hnext =>
      obtain ⟨⟨digits, left'⟩, hdigits, heq⟩ := Option.map_eq_some_iff.mp h
      obtain ⟨rfl, rfl⟩ : c :: digits = literal ∧ left' = left := Prod.mk.inj heq
      obtain ⟨rfl, hbare⟩ := ih hdigits
      exact ⟨rfl, List.forall_mem_cons.mpr ⟨isBare_of_next hnext, hbare⟩⟩
    · obtain ⟨-, heq⟩ := Option.ite_none_right_eq_some.mp h
      obtain ⟨rfl, rfl⟩ : [] = literal ∧ c :: text = left := Prod.mk.inj (Option.some.inj heq)
      exact ⟨rfl, fun c hc ↦ absurd hc List.not_mem_nil⟩

theorem scanNumber_start_ne_nil {text literal left : Text}
    (h : scanNumber .start text = some (literal, left)) : literal ≠ [] := by
  cases text with
  | nil => cases h
  | cons c text =>
    rw [scanNumber] at h
    split at h
    · obtain ⟨⟨digits, left'⟩, -, heq⟩ := Option.map_eq_some_iff.mp h
      obtain rfl : c :: digits = literal := (Prod.mk.inj heq).1
      exact List.cons_ne_nil _ _
    · cases h

theorem eq_append_of_stripPrefix {word text left : Text} (h : stripPrefix word text = some left) :
    text = word ++ left := by
  induction word generalizing text with
  | nil => exact Option.some.inj h
  | cons p word ih =>
    cases text with
    | nil => cases h
    | cons c text =>
      obtain ⟨hpc, hrest⟩ := Option.ite_none_right_eq_some.mp h
      rw [List.cons_append, hpc, ih hrest]

/-- Numbers and words are made of bare characters. -/
theorem exists_bare_of_scanNumeric {text left : Text} {value : Json}
    (h : scanNumeric d text = some (value, left)) :
    ∃ word, text = word ++ left ∧ word ≠ [] ∧ ∀ c ∈ word, IsBare c := by
  have hword : ∀ {word : Text} {constant : Json}, word ≠ [] → (∀ c ∈ word, IsBare c) →
      scanWord word constant text = some (value, left) →
      ∃ word, text = word ++ left ∧ word ≠ [] ∧ ∀ c ∈ word, IsBare c := by
    intro word constant hne hbare hscan
    obtain ⟨left', hleft, heq⟩ := Option.map_eq_some_iff.mp hscan
    obtain rfl : left' = left := (Prod.mk.inj heq).2
    exact ⟨word, eq_append_of_stripPrefix hleft, hne, hbare⟩
  unfold scanNumeric at h
  split at h
  · exact hword (by decide) (by decide) h
  · exact hword (by decide) (by decide) h
  · exact hword (by decide) (by decide) h
  · obtain ⟨⟨literal, left'⟩, hliteral, hok⟩ := Option.bind_eq_some_iff.mp h
    obtain ⟨-, heq⟩ := Option.ite_none_right_eq_some.mp hok
    obtain rfl : left' = left := (Prod.mk.inj (Option.some.inj heq)).2
    obtain ⟨htext, hbare⟩ := bare_of_scanNumber hliteral
    exact ⟨literal, htext, scanNumber_start_ne_nil hliteral, hbare⟩

/-- One item, and what the list goes on with. -/
theorem Places.cons_of_scanItems (h : Places d before after) {item : Scanner α} {close : Char}
    (hclose : close = ']' ∨ close = '}') {fuel : ℕ} {text behind left : Text} {value : α}
    {values : List α} (hvalue : item text = some (value, behind)) (hbehind : after behind)
    (hitems : scanItems item close (fuel + 1) text = some (values, left)) :
    ¬ Stuck behind ∧ ((values = [value] ∧ after left) ∨ ∃ rest others, before rest ∧
      scanItems item close fuel rest = some (others, left) ∧ values = value :: others) := by
  rw [scanItems, hvalue, Option.bind_some] at hitems
  dsimp only at hitems
  have hmoves := h.fromAfter behind hbehind
  split at hitems
  · cases hitems
  · next c rest hskip =>
    have hgoes : c = close ∨ c = ',' → ¬ Stuck behind := by
      rintro hc ⟨c', rest', hskip', hcomma, -, hbracket, hbrace⟩
      obtain ⟨rfl, -⟩ := List.cons.inj (hskip.symm.trans hskip')
      rcases hc with rfl | rfl
      · exact hclose.elim hbracket hbrace
      · exact hcomma rfl
    split at hitems
    · next hc =>
      obtain ⟨rfl, rfl⟩ := Prod.mk.inj (Option.some.inj hitems)
      exact ⟨hgoes (.inl hc), .inl ⟨rfl, hmoves.close c rest hskip (hc ▸ hclose)⟩⟩
    · split at hitems
      · next hc =>
        obtain ⟨⟨others, left'⟩, hothers, heq⟩ := Option.map_eq_some_iff.mp hitems
        obtain ⟨rfl, rfl⟩ : value :: others = values ∧ left' = left := Prod.mk.inj heq
        exact ⟨hgoes (.inr hc), .inr ⟨rest, others, hmoves.comma rest (hc ▸ hskip), hothers, rfl⟩⟩
      · cases hitems

/-- The list ends at a place, and each of its items was read at one. -/
theorem Places.scanItems (h : Places d before after) {item : Scanner α} {close : Char}
    (hclose : close = ']' ∨ close = '}')
    (hitem : ∀ text value left, before text → item text = some (value, left) → after left)
    {fuel : ℕ} {text left : Text} {values : List α} (htext : before text)
    (hitems : scanItems item close fuel text = some (values, left)) :
    after left ∧ ∀ value ∈ values, ∃ text left', before text ∧ item text = some (value, left') ∧
      ¬ Stuck left' := by
  induction fuel generalizing text values with
  | zero => cases hitems
  | succ fuel ih =>
    obtain ⟨⟨value, behind⟩, hvalue, -⟩ := Option.bind_eq_some_iff.mp hitems
    have hbehind := hitem text value behind htext hvalue
    obtain ⟨hgoes, ⟨rfl, hleft⟩ | ⟨rest, others, hrest, hothers, rfl⟩⟩ :=
      h.cons_of_scanItems hclose hvalue hbehind hitems
    · refine ⟨hleft, ?_⟩
      rw [List.forall_mem_singleton]
      exact ⟨text, behind, htext, hvalue, hgoes⟩
    · obtain ⟨hleft, hread⟩ := ih hrest hothers
      exact ⟨hleft, List.forall_mem_cons.mpr ⟨⟨text, behind, htext, hvalue, hgoes⟩, hread⟩⟩

theorem Places.scanList (h : Places d before after) {item : Scanner α} (hskips : SkipsWs item)
    {close : Char} (hclose : close = ']' ∨ close = '}')
    (hitem : ∀ text value left, before text → item text = some (value, left) → after left)
    {text left : Text} {values : List α} (htext : before text)
    (hempty : ∀ c rest, skipWs text = c :: rest → c = ']' ∨ c = '}' → after rest)
    (hlist : scanList item close text = some (values, left)) : after left := by
  unfold Json.scanList at hlist
  split at hlist
  · cases hlist
  · next c rest hskip =>
    split at hlist
    · next hc =>
      obtain rfl : rest = left := (Prod.mk.inj (Option.some.inj hlist)).2
      exact hempty c rest hskip (hc ▸ hclose)
    · rw [← hskip, scanItems_skipWs hskips] at hlist
      exact (h.scanItems hclose hitem htext hlist).1

theorem Places.scanMember (h : Places d before after) {item : Scanner Json}
    (hitem : ∀ text value left, before text → item text = some (value, left) → after left)
    {text left : Text} {member : Text × Json} (htext : before text)
    (hmember : scanMember d item text = some (member, left)) : after left := by
  unfold Json.scanMember at hmember
  split at hmember
  · cases hmember
  · next quote rest hskip =>
    obtain ⟨rfl, hname⟩ := Option.ite_none_right_eq_some.mp hmember
    obtain ⟨⟨name, behind⟩, hstring, hvalue⟩ := Option.bind_eq_some_iff.mp hname
    have hbehind := (h.fromBefore text htext).string rest name behind hskip hstring
    dsimp only at hvalue
    split at hvalue
    · cases hvalue
    · next colon rest' hcolon =>
      obtain ⟨rfl, hvalue⟩ := Option.ite_none_right_eq_some.mp hvalue
      obtain ⟨⟨value, left'⟩, hread, heq⟩ := Option.map_eq_some_iff.mp hvalue
      obtain rfl : left' = left := (Prod.mk.inj heq).2
      exact hitem rest' value left' ((h.fromAfter behind hbehind).colon rest' hcolon) hread

theorem Places.scanValueWith (h : Places d before after) {nested : Option (Scanner Json)}
    (hskips : ∀ item ∈ nested, SkipsWs item)
    (hnested : ∀ item ∈ nested, ∀ text value left, before text → item text = some (value, left) →
      after left)
    {text left : Text} {value : Json} (htext : before text)
    (hvalue : scanValueWith d nested text = some (value, left)) : after left := by
  have hmoves := h.fromBefore text htext
  have hword : ∀ {word : Text} {constant : Json} {c : Char} {rest : Text}, skipWs text = c :: rest →
      word ≠ [] → (∀ c ∈ word, IsBare c) → scanWord word constant (c :: rest) = some (value, left) →
      after left := by
    intro word constant c rest hskip hne hbare hscan
    obtain ⟨left', hleft, heq⟩ := Option.map_eq_some_iff.mp hscan
    obtain rfl : left' = left := (Prod.mk.inj heq).2
    exact hmoves.bare word left' (hskip.trans (eq_append_of_stripPrefix hleft)) hne hbare
  unfold Json.scanValueWith at hvalue
  split at hvalue
  · cases hvalue
  next c rest hskip =>
  split at hvalue
  · next hquote =>
    obtain ⟨⟨text', left'⟩, hstring, heq⟩ := Option.map_eq_some_iff.mp hvalue
    obtain rfl : left' = left := (Prod.mk.inj heq).2
    exact hmoves.string rest text' left' (hquote ▸ hskip) hstring
  split at hvalue
  · next hopen =>
    obtain ⟨item, hmem, hread⟩ := Option.bind_eq_some_iff.mp hvalue
    obtain ⟨⟨elements, left'⟩, hlist, heq⟩ := Option.map_eq_some_iff.mp hread
    obtain rfl : left' = left := (Prod.mk.inj heq).2
    obtain ⟨hrest, hempty⟩ := hmoves.opening c rest hskip (.inl hopen)
    exact h.scanList (hskips item hmem) (.inl rfl) (hnested item hmem) hrest hempty hlist
  split at hvalue
  · next hopen =>
    obtain ⟨item, hmem, hread⟩ := Option.bind_eq_some_iff.mp hvalue
    obtain ⟨⟨members, left'⟩, hlist, heq⟩ := Option.map_eq_some_iff.mp hread
    obtain rfl : left' = left := (Prod.mk.inj heq).2
    obtain ⟨hrest, hempty⟩ := hmoves.opening c rest hskip (.inr hopen)
    have hmember : ∀ text member left, before text →
        Json.scanMember d item text = some (member, left) → after left :=
      fun _ _ _ ↦ h.scanMember (hnested item hmem)
    exact h.scanList (skipsWs_scanMember item) (.inr rfl) hmember hrest hempty hlist
  split at hvalue
  · exact hword hskip (by decide) (by decide) hvalue
  split at hvalue
  · exact hword hskip (by decide) (by decide) hvalue
  split at hvalue
  · exact hword hskip (by decide) (by decide) hvalue
  · obtain ⟨word, heq, hne, hbare⟩ := exists_bare_of_scanNumeric hvalue
    exact hmoves.bare word left (hskip.trans heq) hne hbare

/-- A value in front of which the decoder stands at a place ends at one. -/
theorem Places.scanValue (h : Places d before after) {depth : ℕ} {text left : Text} {value : Json}
    (htext : before text) (hvalue : scanValue d depth text = some (value, left)) : after left := by
  induction depth generalizing text value left with
  | zero => exact h.scanValueWith (by simp) (by simp) htext hvalue
  | succ depth ih =>
    refine h.scanValueWith ?_ ?_ htext hvalue
    · intro item hitem
      obtain rfl := Option.some.inj hitem
      exact skipsWs_scanValue depth
    · intro item hitem text value left htext hread
      obtain rfl := Option.some.inj hitem
      exact ih htext hread

theorem Stuck.skipWs_ne_nil {text : Text} (h : Stuck text) : skipWs text ≠ [] := by
  obtain ⟨c, rest, hskip, -⟩ := h
  rw [hskip]
  exact List.cons_ne_nil _ _

/-- Where no place is the end, a document is not read to its end. -/
theorem Places.parse_eq_none (h : Places d before after) (hend : ∀ text, after text → skipWs text ≠ [])
    {text : Text} (htext : before text) : parse d text = none :=
  parse_eq_none_of_rejects fun _ left hvalue ↦ hend left (h.scanValue htext hvalue)

/-- Nor is a list that comes to a place with its first item. -/
theorem Places.rejects_scanItems (h : Places d before after)
    (hend : ∀ text, after text → skipWs text ≠ []) {depth : ℕ} {text behind : Text}
    {member : Text × Json}
    (hfirst : Json.scanMember d (Json.scanValue d depth) text = some (member, behind))
    (hbehind : after behind) (fuel : ℕ) :
    Rejects (Json.scanItems (Json.scanMember d (Json.scanValue d depth)) '}' fuel) text := by
  intro values left hitems
  cases fuel with
  | zero => cases hitems
  | succ fuel =>
    have hitem : ∀ text member left, before text →
        Json.scanMember d (Json.scanValue d depth) text = some (member, left) → after left :=
      fun _ _ _ ↦ h.scanMember fun _ _ _ ↦ h.scanValue
    obtain ⟨-, ⟨-, hleft⟩ | ⟨rest, others, hrest, hothers, -⟩⟩ :=
      h.cons_of_scanItems (.inr rfl) hfirst hbehind hitems
    · exact hend left hleft
    · exact hend left (h.scanItems (.inr rfl) hitem hrest hothers).1

/-- Where the decoder is stuck, there is no next place. -/
theorem places_stuck (d : Dialect) : Places d (fun _ ↦ False) Stuck where
  stuck := fun _ ↦ id
  fromAfter := fun _ ↦ Stuck.fromAfter
  fromBefore := fun _ ↦ False.elim

end Places

/-! ## A text in front of places -/

/-- A text with some property in front of the tail. -/
def InFront (P : Text → Prop) (tail text : Text) : Prop := ∃ front, P front ∧ text = front ++ tail

section Prepend

variable {d : Dialect} {before after : Text → Prop} {P : Text → Prop} {k : Char} {tail : Text}

theorem FromAfter.mono {before' after' : Text → Prop} (hbefore : ∀ text, before text → before' text)
    (hafter : ∀ text, after text → after' text) {text : Text} (h : FromAfter before after text) :
    FromAfter before' after' text where
  comma := fun rest hrest ↦ hbefore rest (h.comma rest hrest)
  colon := fun rest hrest ↦ hbefore rest (h.colon rest hrest)
  close := fun c rest hrest hc ↦ hafter rest (h.close c rest hrest hc)

theorem FromBefore.mono {before' after' : Text → Prop} (hbefore : ∀ text, before text → before' text)
    (hafter : ∀ text, after text → after' text) {text : Text} (h : FromBefore d before after text) :
    FromBefore d before' after' text where
  string := fun rest value left hrest hvalue ↦ hafter left (h.string rest value left hrest hvalue)
  opening := fun c rest hrest hc ↦
    ⟨hbefore rest (h.opening c rest hrest hc).1, fun c' rest' hrest' hc' ↦
      hafter rest' ((h.opening c rest hrest hc).2 c' rest' hrest' hc')⟩
  bare := fun word left hword hne hbare ↦ hafter left (h.bare word left hword hne hbare)

/-- Behind one more character, the text is still in front of the tail, or it was the tail. -/
theorem InFront.cons_cases {c : Char} {text : Text} (h : InFront P (k :: tail) (c :: text)) :
    (c = k ∧ text = tail) ∨ ∃ front, P (c :: front) ∧ text = front ++ k :: tail := by
  obtain ⟨front, hfront, heq⟩ := h
  cases front with
  | nil => exact .inl (List.cons.inj heq)
  | cons c' front =>
    obtain ⟨rfl, rfl⟩ := List.cons.inj heq
    exact .inr ⟨front, hfront, rfl⟩

theorem InFront.skipWs (hmove : ∀ c front, c ≠ '"' → P (c :: front) → P front) (hk : isWs k = false)
    {text : Text} (h : InFront P (k :: tail) text) : InFront P (k :: tail) (skipWs text) := by
  induction text with
  | nil => exact h
  | cons c text ih =>
    cases hc : isWs c with
    | false => rwa [skipWs_cons_of_not_ws hc]
    | true =>
      rw [skipWs_cons_of_ws hc]
      rcases h.cons_cases with ⟨rfl, -⟩ | ⟨front, hfront, rfl⟩
      · rw [hk] at hc
        cases hc
      · have hquote : c ≠ '"' := by
          rintro rfl
          cases hc
        exact ih ⟨front, hmove c front hquote hfront, rfl⟩

theorem InFront.bare (hmove : ∀ c front, c ≠ '"' → P (c :: front) → P front) (hk : ¬ IsBare k)
    {word left : Text} (hword : ∀ c ∈ word, IsBare c) (h : InFront P (k :: tail) (word ++ left)) :
    InFront P (k :: tail) left := by
  induction word with
  | nil => exact h
  | cons c word ih =>
    rw [List.forall_mem_cons] at hword
    rcases h.cons_cases with ⟨rfl, -⟩ | ⟨front, hfront, heq⟩
    · exact absurd hword.1 hk
    · have hquote : c ≠ '"' := by
        rintro rfl
        exact absurd hword.1 (by decide)
      exact ih hword.2 ⟨front, hmove c front hquote hfront, heq⟩

/-- Places stay places with texts in front of one that no blank and no number starts, if a literal
over such a text ends at a place. -/
theorem Places.prepend (h : Places d before after)
    (hmove : ∀ c front, c ≠ '"' → P (c :: front) → P front) (hk : isWs k = false) (hbare : ¬ IsBare k)
    (hliteral : ∀ front, P ('"' :: front) →
      (∀ front', front'.length < front.length → P front') ∧
        ∀ state pieces left, scanPieces state (k :: tail) = some (pieces, left) → after left)
    (hbefore : FromBefore d before after (k :: tail)) (hafter : FromAfter before after (k :: tail)) :
    Places d (fun text ↦ before text ∨ InFront P (k :: tail) text)
      (fun text ↦ after text ∨ InFront P (k :: tail) text) := by
  have hself : Json.skipWs (k :: tail) = k :: tail := skipWs_cons_of_not_ws hk tail
  have hstep : ∀ {c : Char} {text : Text}, c ≠ '"' → InFront P (k :: tail) (c :: text) →
      c = k ∧ text = tail ∨ InFront P (k :: tail) text := by
    intro c text hquote hfront
    exact hfront.cons_cases.imp_right fun ⟨front, hmem, heq⟩ ↦ ⟨front, hmove c front hquote hmem, heq⟩
  refine ⟨fun text htext ↦ .inl (h.stuck text htext), ?_, ?_⟩
  · rintro text (htext | hfront)
    · exact (h.fromAfter text htext).mono (fun _ ↦ .inl) fun _ ↦ .inl
    · have hskip := hfront.skipWs hmove hk
      refine ⟨fun rest hrest ↦ ?_, fun rest hrest ↦ ?_, fun c rest hrest hc ↦ ?_⟩
      · rcases hstep (by decide) (hrest ▸ hskip) with ⟨rfl, rfl⟩ | hin
        · exact .inl (hafter.comma rest hself)
        · exact .inr hin
      · rcases hstep (by decide) (hrest ▸ hskip) with ⟨rfl, rfl⟩ | hin
        · exact .inl (hafter.colon rest hself)
        · exact .inr hin
      · have hquote : c ≠ '"' := by rcases hc with rfl | rfl <;> decide
        rcases hstep hquote (hrest ▸ hskip) with ⟨rfl, rfl⟩ | hin
        · exact .inl (hafter.close c rest hself hc)
        · exact .inr hin
  · rintro text (htext | hfront)
    · exact (h.fromBefore text htext).mono (fun _ ↦ .inl) fun _ ↦ .inl
    · have hskip := hfront.skipWs hmove hk
      refine ⟨fun rest value left hrest hvalue ↦ ?_, fun c rest hrest hc ↦ ?_,
        fun word left hword _ hall ↦ .inr ((hword ▸ hskip).bare hmove hbare hall)⟩
      · rcases (hrest ▸ hskip).cons_cases with ⟨rfl, rfl⟩ | ⟨front, hmem, rfl⟩
        · exact .inl (hbefore.string rest value left hself hvalue)
        · obtain ⟨hshorter, hends⟩ := hliteral front hmem
          rcases scanString_append hvalue with ⟨front', rfl, hlength⟩ | ⟨state, more, hmore, -⟩
          · exact .inr ⟨front', hshorter front' (by omega), rfl⟩
          · exact .inl (hends state more left hmore)
      · have hquote : c ≠ '"' := by rcases hc with rfl | rfl <;> decide
        rcases hstep hquote (hrest ▸ hskip) with ⟨rfl, rfl⟩ | hin
        · exact ⟨.inl (hbefore.opening c rest hself hc).1, fun c' rest' hrest' hc' ↦
            .inl ((hbefore.opening c rest hself hc).2 c' rest' hrest' hc')⟩
        · refine ⟨.inr hin, fun c' rest' hrest' hc' ↦ ?_⟩
          have hquote' : c' ≠ '"' := by rcases hc' with rfl | rfl <;> decide
          rcases hstep hquote' (hrest' ▸ hin.skipWs hmove hk) with ⟨rfl, rfl⟩ | hin'
          · exact .inl (hafter.close c' rest' hself hc')
          · exact .inr hin'

theorem InFront.skipWs_ne_nil (hmove : ∀ c front, c ≠ '"' → P (c :: front) → P front)
    (hk : isWs k = false) {text : Text} (h : InFront P (k :: tail) text) : Json.skipWs text ≠ [] := by
  obtain ⟨front, -, heq⟩ := h.skipWs hmove hk
  rw [heq]
  simp

/-- No move leads from a character that starts no value, unless it is a quote. -/
theorem fromBefore_of_not_start (hk : isWs k = false) (hbare : ¬ IsBare k) (hquote : k ≠ '"')
    (hopen : k ≠ '[' ∧ k ≠ '{') : FromBefore d before after (k :: tail) := by
  have hself : Json.skipWs (k :: tail) = k :: tail := skipWs_cons_of_not_ws hk tail
  refine ⟨fun rest value left hrest _ ↦ ?_, fun c rest hrest hc ↦ ?_, fun word left hword hne hall ↦ ?_⟩
  · exact absurd (List.cons.inj (hself.symm.trans hrest)).1 hquote
  · obtain rfl := (List.cons.inj (hself.symm.trans hrest)).1
    exact absurd hc (not_or.mpr hopen)
  · obtain ⟨c, word, rfl⟩ := List.exists_cons_of_ne_nil hne
    obtain rfl := (List.cons.inj (hself.symm.trans hword)).1
    exact absurd (hall _ List.mem_cons_self) hbare

/-- A quote opens a literal. -/
theorem fromBefore_quote (h : ∀ value left, scanString d tail = some (value, left) → after left) :
    FromBefore d before after ('"' :: tail) := by
  refine ⟨fun rest value left hrest hvalue ↦ ?_, fun c rest hrest hc ↦ ?_, fun word left hword hne hall ↦ ?_⟩
  · obtain rfl := (List.cons.inj hrest).2
    exact h value left hvalue
  · obtain rfl := (List.cons.inj hrest).1
    rcases hc with hc | hc <;> cases hc
  · obtain ⟨c, word, rfl⟩ := List.exists_cons_of_ne_nil hne
    obtain rfl := (List.cons.inj hword).1
    exact absurd (hall _ List.mem_cons_self) (by decide)

theorem FromBefore.blank {c : Char} (hc : isWs c = true) {text : Text}
    (h : FromBefore d before after text) : FromBefore d before after (c :: text) := by
  have hskip : Json.skipWs (c :: text) = Json.skipWs text := skipWs_cons_of_ws hc text
  exact ⟨hskip ▸ h.string, hskip ▸ h.opening, hskip ▸ h.bare⟩

theorem fromAfter_nil : FromAfter before after [] := ⟨nofun, nofun, nofun⟩

theorem fromAfter_comma (h : before tail) : FromAfter before after (',' :: tail) := by
  refine ⟨fun rest hrest ↦ ?_, nofun, fun c rest hrest hc ↦ ?_⟩
  · exact (List.cons.inj hrest).2 ▸ h
  · obtain rfl := (List.cons.inj hrest).1
    rcases hc with hc | hc <;> cases hc

theorem fromAfter_colon (h : before tail) : FromAfter before after (':' :: tail) := by
  refine ⟨nofun, fun rest hrest ↦ ?_, fun c rest hrest hc ↦ ?_⟩
  · exact (List.cons.inj hrest).2 ▸ h
  · obtain rfl := (List.cons.inj hrest).1
    rcases hc with hc | hc <;> cases hc

theorem fromAfter_brace (h : after tail) : FromAfter before after ('}' :: tail) :=
  ⟨nofun, nofun, fun _ _ hrest _ ↦ (List.cons.inj hrest).2 ▸ h⟩

theorem FromAfter.blank {c : Char} (hc : isWs c = true) {text : Text}
    (h : FromAfter before after text) : FromAfter before after (c :: text) := by
  have hskip : Json.skipWs (c :: text) = Json.skipWs text := skipWs_cons_of_ws hc text
  exact ⟨hskip ▸ h.comma, hskip ▸ h.colon, hskip ▸ h.close⟩

end Prepend

/-! ### Two texts that are no documents -/

section NoDocument

variable {d : Dialect}

/-- An object is closed and another one begins, whatever stands before. -/
theorem parse_eq_none_of_braces (front : Text) {c : Char} (hws : isWs c = false)
    (hc : c ≠ ',' ∧ c ≠ ':' ∧ c ≠ ']' ∧ c ≠ '}') (rest : Text) :
    parse d (front ++ '}' :: '{' :: '"' :: c :: rest) = none := by
  have hname : Stuck (c :: rest) := stuck_cons hws hc rest
  have hbrace : Stuck ('{' :: '"' :: c :: rest) := stuck_cons rfl (by decide) _
  have hbefore : FromBefore d (fun _ ↦ False) Stuck ('}' :: '{' :: '"' :: c :: rest) :=
    fromBefore_of_not_start rfl (by decide) (by decide) (by decide)
  have hafter : FromAfter (fun _ ↦ False) Stuck ('}' :: '{' :: '"' :: c :: rest) :=
    fromAfter_brace hbrace
  have hliteral : ∀ state pieces left,
      scanPieces state ('}' :: '{' :: '"' :: c :: rest) = some (pieces, left) → Stuck left := by
    intro state pieces left hpieces
    cases state with
    | plain =>
      obtain ⟨-, rfl⟩ : [StringPiece.char '}', .char '{'] = pieces ∧ c :: rest = left := by
        simpa [scanPieces] using hpieces
      exact hname
    | escape => cases hpieces
    | hex left acc => cases hpieces
  have hplaces := (places_stuck d).prepend (P := fun _ ↦ True) (fun _ _ _ ↦ id) rfl (by decide)
    (fun _ _ ↦ ⟨fun _ _ ↦ trivial, hliteral⟩) hbefore hafter
  refine hplaces.parse_eq_none ?_ (.inr ⟨front, trivial, rfl⟩)
  rintro text (hstuck | hfront)
  · exact hstuck.skipWs_ne_nil
  · exact hfront.skipWs_ne_nil (fun _ _ _ ↦ id) rfl

/-- The last value is missing, whatever stands before. -/
theorem parse_eq_none_of_no_value (front : Text) : parse d (front ++ [':', ' ', '}']) = none := by
  have hbase : Places d (fun text ↦ text = [' ', '}']) Stuck := by
    refine ⟨fun _ ↦ id, fun _ ↦ Stuck.fromAfter, ?_⟩
    rintro _ rfl
    exact (fromBefore_of_not_start rfl (by decide) (by decide) (by decide)).blank rfl
  have hbefore : FromBefore d (fun text ↦ text = [' ', '}']) Stuck [':', ' ', '}'] :=
    fromBefore_of_not_start rfl (by decide) (by decide) (by decide)
  have hafter : FromAfter (fun text ↦ text = [' ', '}']) Stuck [':', ' ', '}'] := fromAfter_colon rfl
  have hliteral : ∀ state pieces left,
      scanPieces state [':', ' ', '}'] = some (pieces, left) → Stuck left := by
    intro state pieces left hpieces
    cases state with
    | plain => simp [scanPieces] at hpieces
    | escape => cases hpieces
    | hex left acc => cases hpieces
  have hplaces := hbase.prepend (P := fun _ ↦ True) (fun _ _ _ ↦ id) rfl (by decide)
    (fun _ _ ↦ ⟨fun _ _ ↦ trivial, hliteral⟩) hbefore hafter
  refine hplaces.parse_eq_none ?_ (.inr ⟨front, trivial, rfl⟩)
  rintro text (hstuck | hfront)
  · exact hstuck.skipWs_ne_nil
  · exact hfront.skipWs_ne_nil (fun _ _ _ ↦ id) rfl

end NoDocument

/-! ## The members of a document -/

section Members

variable {α : Type} {d : Dialect}

/-- A member of an object is one of those it is made of. -/
theorem mem_of_get_ofMembers {pairs : List (Text × Json)} {key : Text} {value : Json}
    (h : (ofMembers pairs).get key = some value) : (key, value) ∈ pairs := by
  rw [ofMembers, get] at h
  induction pairs using List.reverseRecOn with
  | nil => cases h
  | append_singleton pairs pair ih =>
    rw [List.foldl_concat, lookup_setMember] at h
    split at h
    · next hkey =>
      rw [hkey, ← Option.some.inj h]
      exact List.mem_append_right _ List.mem_cons_self
    · exact List.mem_append_left _ (ih h)

/-- An object that is read is made of the members that are scanned. -/
theorem exists_of_parse_obj {text : Text} {value : Json} (h : parse d ('{' :: text) = some value) :
    ∃ depth members left, d.maxDepth = depth + 1 ∧
      scanList (scanMember d (scanValue d depth)) '}' text = some (members, left) ∧
        skipWs left = [] ∧ value = ofMembers members := by
  obtain ⟨⟨value', left⟩, hscan, hend⟩ := Option.bind_eq_some_iff.mp h
  obtain ⟨hleft, heq⟩ := Option.ite_none_right_eq_some.mp hend
  obtain rfl : value' = value := Option.some.inj heq
  cases hdepth : d.maxDepth with
  | zero =>
    rw [hdepth, scanValue, scanValueWith, skipWs_cons_of_not_ws rfl] at hscan
    cases hscan
  | succ depth =>
    rw [hdepth, scanValue, scanValueWith, skipWs_cons_of_not_ws rfl] at hscan
    obtain ⟨⟨members, left'⟩, hmembers, heq⟩ := Option.map_eq_some_iff.mp hscan
    obtain ⟨rfl, rfl⟩ := Prod.mk.inj heq
    exact ⟨depth, members, left', rfl, hmembers, hleft, rfl⟩

/-- A list that starts with an item, and not with its bracket, has items. -/
theorem scanItems_of_scanList {depth : ℕ} {text rest left : Text} {member : Text × Json}
    {members : List (Text × Json)} (hreads : Reads (scanMember d (scanValue d depth)) text member)
    (h : scanList (scanMember d (scanValue d depth)) '}' (text ++ ',' :: rest) = some (members, left)) :
    ∃ fuel, scanItems (scanMember d (scanValue d depth)) '}' fuel (text ++ ',' :: rest) =
      some (members, left) := by
  have hskips : SkipsWs (scanMember d (scanValue d depth)) := skipsWs_scanMember _
  obtain ⟨behind, hscan, -⟩ := hreads (',' :: rest) (delimited_cons rest (.inr (.inl rfl)))
  rw [← hskips.skipWs_eq] at hscan
  cases hskip : skipWs (text ++ ',' :: rest) with
  | nil =>
    rw [hskip, hskips.nil_eq_none] at hscan
    cases hscan
  | cons c more =>
    have hne : c ≠ '}' := by
      rintro rfl
      rw [hskip, hskips.delimiter_eq_none _ _ (.inr (.inr rfl))] at hscan
      cases hscan
    rw [scanList, hskip] at h
    dsimp only at h
    rw [if_neg hne, ← hskip, scanItems_skipWs hskips] at h
    exact ⟨_, h⟩

/-- A member that is read from an object behind its first member. -/
theorem exists_of_parse_second {text rest key key' : Text} {value value' : Json}
    {members : List (Text × Json)}
    (hreads : ∀ depth, Reads (scanMember d (scanValue d depth)) text (key, value))
    (h : parse d ('{' :: (text ++ ',' :: rest)) = some (obj members)) (hne : key' ≠ key)
    (hmember : members.lookup key' = some value') :
    ∃ depth fuel others left,
      scanItems (scanMember d (scanValue d depth)) '}' fuel rest = some (others, left) ∧
        (key', value') ∈ others := by
  obtain ⟨depth, pairs, left, -, hlist, -, hpairs⟩ := exists_of_parse_obj h
  obtain ⟨fuel, hitems⟩ := scanItems_of_scanList (hreads depth) hlist
  obtain ⟨fuel', others, hothers, rfl⟩ := exists_of_scanItems_reads (hreads depth) hitems
  have hget : (ofMembers ((key, value) :: others)).get key' = some value' := hpairs ▸ hmember
  refine ⟨depth, fuel', others, left, hothers, ?_⟩
  rcases List.mem_cons.mp (mem_of_get_ofMembers hget) with heq | hmem
  · exact absurd (Prod.mk.inj heq).1 hne
  · exact hmem

/-- A literal is read as a string. -/
theorem reads_string {text value : Text} (h : scanString d text = some (value, [])) (depth : ℕ) :
    Reads (scanValue d depth) (' ' :: '"' :: text) (.str value) := by
  intro rest _
  refine ⟨rest, ?_, rfl⟩
  rw [List.cons_append, List.cons_append, scanValue_string,
    extends_scanString (Dialect.within_refl d) text value [] h]
  rfl

/-- A string value comes from a literal. -/
theorem exists_of_scanValue_str {depth : ℕ} {text s left : Text}
    (h : scanValue d depth text = some (.str s, left)) :
    ∃ rest, skipWs text = '"' :: rest ∧ scanString d rest = some (s, left) := by
  obtain ⟨nested, hnested⟩ : ∃ nested, scanValue d depth = scanValueWith d nested := by
    cases depth <;> exact ⟨_, rfl⟩
  rw [hnested] at h
  unfold scanValueWith at h
  split at h
  · cases h
  next c rest hskip =>
  split at h
  · next hquote =>
    obtain ⟨⟨s', left'⟩, hstring, heq⟩ := Option.map_eq_some_iff.mp h
    obtain ⟨hs, rfl⟩ := Prod.mk.inj heq
    obtain rfl : s' = s := Json.str.inj hs
    exact ⟨rest, hquote ▸ hskip, hstring⟩
  split at h
  · obtain ⟨_, -, h⟩ := Option.bind_eq_some_iff.mp h
    obtain ⟨_, -, heq⟩ := Option.map_eq_some_iff.mp h
    cases (Prod.mk.inj heq).1
  split at h
  · obtain ⟨_, -, h⟩ := Option.bind_eq_some_iff.mp h
    obtain ⟨_, -, heq⟩ := Option.map_eq_some_iff.mp h
    cases (Prod.mk.inj heq).1
  split at h
  · cases eq_of_scanWord h
  split at h
  · cases eq_of_scanWord h
  split at h
  · cases eq_of_scanWord h
  · obtain ⟨_, heq⟩ := eq_num_of_scanNumeric h
    cases heq

end Members

/-! ## A text between quotes -/

section Pasted

variable {d : Dialect} {before after : Text → Prop} {tail : Text}

/-- What follows the closing quote of a string value: it is no name, and where the quote opens a literal
instead, the decoder is stuck behind that. -/
structure Closing (tail : Text) : Prop where
  stuck : ∀ pieces left, scanPieces .plain tail = some (pieces, left) → Stuck left
  no_colon : ∀ rest, skipWs tail ≠ ':' :: rest

/-- Less than so many characters in front of the closing quote. -/
abbrev Shorter (bound : ℕ) (tail : Text) : Text → Prop :=
  InFront (fun front ↦ front.length < bound) ('"' :: tail)

theorem length_lt_of_cons {bound : ℕ} (c : Char) (front : Text) (_ : c ≠ '"')
    (h : (c :: front).length < bound) : front.length < bound := Nat.lt_of_succ_lt h

/-- The places of what follows the quote, and those inside the pasted text. -/
theorem Places.shorter (h : Places d before after) (hclosing : Closing tail) (htail : after tail)
    (bound : ℕ) :
    Places d (fun text ↦ before text ∨ Shorter bound tail text)
      (fun text ↦ after text ∨ Shorter bound tail text) := by
  have hopened : ∀ value left, scanString d tail = some (value, left) → after left := by
    intro value left hvalue
    obtain ⟨pieces, hpieces, -⟩ := exists_pieces_of_scanString hvalue
    exact h.stuck left (hclosing.stuck pieces left hpieces)
  refine h.prepend length_lt_of_cons rfl (by decide) (fun front hfront ↦ ⟨?_, ?_⟩) ?_ ?_
  · intro front' hless
    exact hless.trans (Nat.lt_of_succ_lt hfront)
  · intro state pieces left hpieces
    cases state with
    | plain =>
      obtain rfl := (Prod.mk.inj (Option.some.inj hpieces)).2
      exact htail
    | escape =>
      obtain ⟨⟨rest, behind⟩, hrest, heq⟩ := Option.map_eq_some_iff.mp hpieces
      obtain rfl : behind = left := (Prod.mk.inj heq).2
      exact h.stuck behind (hclosing.stuck rest behind hrest)
    | hex left acc => cases hpieces
  · exact fromBefore_quote hopened
  · exact (stuck_cons rfl (by decide) tail).fromAfter

/-- A string that is read as a member inside the pasted text is shorter than the text. -/
theorem length_lt_of_scanMember (hclosing : Closing tail) {bound depth : ℕ} {text key s left : Text}
    (htext : Shorter bound tail text)
    (hmember : Json.scanMember d (scanValue d depth) text = some ((key, .str s), left))
    (hgoes : ¬ Stuck left) : s.length < bound := by
  -- What a literal that begins inside the text comes to.
  have hliteral : ∀ {text rest value left : Text}, Shorter bound tail text →
      skipWs text = '"' :: rest → scanString d rest = some (value, left) → ¬ Stuck left →
      value.length < bound ∧ (left = tail ∨ Shorter bound tail left) := by
    intro text rest value left htext hskip hvalue hgoes
    rcases (hskip ▸ htext.skipWs length_lt_of_cons rfl).cons_cases with ⟨-, rfl⟩ | ⟨front, hfront, rfl⟩
    · obtain ⟨pieces, hpieces, -⟩ := exists_pieces_of_scanString hvalue
      exact absurd (hclosing.stuck pieces left hpieces) hgoes
    · have hless : front.length < bound := Nat.lt_of_succ_lt hfront
      rcases scanString_append_quote hclosing.stuck hvalue with
        hstuck | ⟨front', rfl, hlength⟩ | ⟨rfl, hshort | ⟨-, rfl⟩⟩
      · exact absurd hstuck hgoes
      · exact ⟨by omega, .inr ⟨front', by omega, rfl⟩⟩
      · exact ⟨by omega, .inl rfl⟩
      · exact ⟨hless, .inl rfl⟩
  unfold Json.scanMember at hmember
  split at hmember
  · cases hmember
  next quote rest hskip =>
  obtain ⟨rfl, hname⟩ := Option.ite_none_right_eq_some.mp hmember
  obtain ⟨⟨name, behind⟩, hstring, hvalue⟩ := Option.bind_eq_some_iff.mp hname
  dsimp only at hvalue
  split at hvalue
  · cases hvalue
  next colon rest' hcolon =>
  obtain ⟨rfl, hvalue⟩ := Option.ite_none_right_eq_some.mp hvalue
  obtain ⟨⟨value, left'⟩, hread, heq⟩ := Option.map_eq_some_iff.mp hvalue
  obtain ⟨hpair, rfl⟩ := Prod.mk.inj heq
  obtain ⟨rfl, rfl⟩ : name = key ∧ value = .str s := Prod.mk.inj hpair
  have hbehind : ¬ Stuck behind := by
    rintro ⟨c, rest, hc, -, hne, -⟩
    exact hne (List.cons.inj (hc.symm.trans hcolon)).1
  obtain ⟨-, rfl | hfront⟩ := hliteral htext hskip hstring hbehind
  · exact absurd hcolon (hclosing.no_colon rest')
  · rcases (hcolon ▸ hfront.skipWs length_lt_of_cons rfl).cons_cases with ⟨hc, -⟩ | ⟨front, hmem, rfl⟩
    · cases hc
    · obtain ⟨rest'', hskip', hstring'⟩ := exists_of_scanValue_str hread
      exact (hliteral ⟨front, Nat.lt_of_succ_lt hmem, rfl⟩ hskip' hstring' hgoes).1

/-- A text is pasted in as the string of a member.  Whatever the text is, a string of its length is read
under that name only where the text is a literal, and then it is the text. -/
theorem literal_of_pasted (h : Places d before after) (hclosing : Closing tail) (htail : after tail)
    {gap key text : Text} (hgap : ∀ c ∈ gap, isWs c = true) (hkey : Printable key) {depth fuel : ℕ}
    (hother : ∀ text member left, before text →
      Json.scanMember d (scanValue d depth) text = some (member, left) → ¬ Stuck left →
        member.1 ≠ key)
    {members : List (Text × Json)} {left : Text}
    (hitems : Json.scanItems (Json.scanMember d (scanValue d depth)) '}' fuel
      (gap ++ quote key ++ ':' :: ' ' :: '"' :: (text ++ '"' :: tail)) = some (members, left))
    {s : Text} (hmem : (key, .str s) ∈ members) (hlong : text.length ≤ s.length) :
    Literal text ∧ s = text := by
  have hplaces := h.shorter hclosing htail text.length
  cases fuel with
  | zero => cases hitems
  | succ fuel =>
    obtain ⟨⟨first, behind⟩, hfirst, -⟩ := Option.bind_eq_some_iff.mp hitems
    have hscan := hfirst
    rw [scanMember_quote hgap hkey, scanValue_string] at hscan
    obtain ⟨⟨read, behind'⟩, hread, heq⟩ := Option.map_eq_some_iff.mp hscan
    obtain ⟨⟨value, behind''⟩, hstring, heq'⟩ := Option.map_eq_some_iff.mp hread
    obtain ⟨rfl, rfl⟩ : Json.str value = read ∧ behind'' = behind' := Prod.mk.inj heq'
    obtain ⟨rfl, rfl⟩ : (key, Json.str value) = first ∧ behind'' = behind := Prod.mk.inj heq
    have hcases := scanString_append_quote hclosing.stuck hstring
    have hbehind : after behind'' ∨ Shorter text.length tail behind'' := by
      rcases hcases with hstuck | ⟨front, rfl, hlength⟩ | ⟨rfl, -⟩
      · exact .inl (h.stuck _ hstuck)
      · exact .inr ⟨front, by omega, rfl⟩
      · exact .inl htail
    have hitem : ∀ text member left, before text ∨ Shorter _ tail text →
        Json.scanMember d (scanValue d depth) text = some (member, left) →
          after left ∨ Shorter _ tail left :=
      fun _ _ _ ↦ hplaces.scanMember fun _ _ _ ↦ hplaces.scanValue
    obtain ⟨hgoes, hmembers⟩ := hplaces.cons_of_scanItems (.inr rfl) hfirst hbehind hitems
    have hown : s = value → Literal text ∧ s = text := by
      rintro rfl
      rcases hcases with hstuck | ⟨front, -, hlength⟩ | ⟨-, hshort | hliteral⟩
      · exact absurd hstuck hgoes
      · omega
      · omega
      · exact hliteral
    rcases hmembers with ⟨rfl, -⟩ | ⟨rest, others, hrest, hothers, rfl⟩
    · obtain ⟨-, hs⟩ := Prod.mk.inj (List.mem_singleton.mp hmem)
      exact hown (Json.str.inj hs)
    · rcases List.mem_cons.mp hmem with heq | hlater
      · exact hown (Json.str.inj (Prod.mk.inj heq).2)
      · obtain ⟨text', left', htext', hmember, hgoes'⟩ :=
          (hplaces.scanItems (.inr rfl) hitem hrest hothers).2 _ hlater
        rcases htext' with hbefore | hshorter
        · exact absurd rfl (hother text' _ left' hbefore hmember hgoes')
        · have hless := length_lt_of_scanMember hclosing hshorter hmember hgoes'
          omega

end Pasted

end EbpfPlayground.Json
