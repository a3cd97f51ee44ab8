import EbpfPlayground.Foundation.Json

/-!
# Reading documents that are put together from texts

A text that a scanner reads to its end is read the same way inside a longer text, provided that what
follows does not go on with a number.  Two facts are built on that: how a decoder reads a document
that is joined from quoted strings and other texts, and that a text which is one value stays that
value wherever it is pasted in.
-/

namespace EbpfPlayground.Json

/-- What may follow a value: nothing, white space, a comma or a closing bracket. -/
def Delimited (rest : Text) : Prop :=
  ∀ c ∈ rest.head?, isWs c = true ∨ c = ',' ∨ c = ']' ∨ c = '}'

theorem delimited_nil : Delimited [] := by simp [Delimited]

theorem delimited_cons {c : Char} (rest : Text) (h : isWs c = true ∨ c = ',' ∨ c = ']' ∨ c = '}') :
    Delimited (c :: rest) := by
  intro c' hc'
  obtain rfl : c = c' := by simpa using hc'
  exact h

/-! ## White space -/

theorem skipWs_skipWs (text : Text) : skipWs (skipWs text) = skipWs text := by
  induction text with
  | nil => rfl
  | cons c text ih =>
    cases hc : isWs c with
    | true => simpa [skipWs, List.dropWhile_cons, hc] using ih
    | false => simp [skipWs, hc]

theorem skipWs_cons_of_ws {c : Char} (h : isWs c = true) (text : Text) :
    skipWs (c :: text) = skipWs text := by
  simp [skipWs, h]

theorem skipWs_cons_of_not_ws {c : Char} (h : isWs c = false) (text : Text) :
    skipWs (c :: text) = c :: text := by
  simp [skipWs, h]

theorem skipWs_append_of_ne_nil {text : Text} (h : skipWs text ≠ []) (rest : Text) :
    skipWs (text ++ rest) = skipWs text ++ rest := by
  induction text with
  | nil => exact absurd rfl h
  | cons c text ih =>
    cases hc : isWs c with
    | true =>
      rw [skipWs_cons_of_ws hc] at h ⊢
      rw [List.cons_append, skipWs_cons_of_ws hc]
      exact ih h
    | false => rw [List.cons_append, skipWs_cons_of_not_ws hc, skipWs_cons_of_not_ws hc]; rfl

theorem skipWs_append_of_eq_nil {text : Text} (h : skipWs text = []) (rest : Text) :
    skipWs (text ++ rest) = skipWs rest := by
  induction text with
  | nil => rfl
  | cons c text ih =>
    cases hc : isWs c with
    | true =>
      rw [skipWs_cons_of_ws hc] at h
      rw [List.cons_append, skipWs_cons_of_ws hc]
      exact ih h
    | false =>
      rw [skipWs_cons_of_not_ws hc] at h
      cases h

/-- Characters that are no white space are not skipped. -/
theorem countP_skipWs {p : Char → Bool} (h : ∀ c, isWs c = true → p c = false) (text : Text) :
    (skipWs text).countP p = text.countP p := by
  induction text with
  | nil => rfl
  | cons c text ih =>
    cases hc : isWs c with
    | true =>
      rw [skipWs_cons_of_ws hc, ih]
      simp [h c hc]
    | false => rw [skipWs_cons_of_not_ws hc]

/-! ## Decoders that accept more -/

/-- Every literal that the first decoder takes, the second takes too, with the same meaning. -/
structure Dialect.Within (d d' : Dialect) : Prop where
  numberOk : ∀ literal, d.numberOk literal = true → d'.numberOk literal = true
  nonFinite : d.nonFinite = true → d'.nonFinite = true
  loneSurrogate : ∀ n c, d.loneSurrogate n = some c → d'.loneSurrogate n = some c

theorem Dialect.within_refl (d : Dialect) : d.Within d where
  numberOk := fun _ ↦ id
  nonFinite := id
  loneSurrogate := fun _ _ ↦ id

theorem single_of_within {lone lone' : ℕ → Option Char}
    (h : ∀ n c, lone n = some c → lone' n = some c) {n : ℕ} {c : Char}
    (hc : joinPieces.single lone n = some c) : joinPieces.single lone' n = some c := by
  unfold joinPieces.single at hc ⊢
  split at hc
  · next hsurrogate =>
    rw [if_pos hsurrogate]
    exact h n c hc
  · next hsurrogate =>
    rw [if_neg hsurrogate]
    exact hc

theorem joinPieces_of_within {lone lone' : ℕ → Option Char}
    (h : ∀ n c, lone n = some c → lone' n = some c) (pieces : List StringPiece) {text : Text}
    (htext : joinPieces lone pieces = some text) : joinPieces lone' pieces = some text := by
  fun_induction joinPieces lone pieces generalizing text with
  | case1 => exact htext
  | case2 c rest ih =>
    obtain ⟨tail, htail, rfl⟩ := Option.map_eq_some_iff.mp htext
    rw [joinPieces, ih htail]
    rfl
  | case3 high low rest hpair ih =>
    obtain ⟨tail, htail, rfl⟩ := Option.map_eq_some_iff.mp htext
    rw [joinPieces, if_pos hpair, ih htail]
    rfl
  | case4 high low rest hpair ih =>
    obtain ⟨c, hc, htext⟩ := Option.bind_eq_some_iff.mp htext
    obtain ⟨tail, htail, rfl⟩ := Option.map_eq_some_iff.mp htext
    rw [joinPieces, if_neg hpair, single_of_within h hc, Option.bind_some, ih htail]
    rfl
  | case5 n rest hnot ih =>
    obtain ⟨c, hc, htext⟩ := Option.bind_eq_some_iff.mp htext
    obtain ⟨tail, htail, rfl⟩ := Option.map_eq_some_iff.mp htext
    rw [joinPieces, single_of_within h hc, Option.bind_some, ih htail]
    · rfl
    · exact hnot

/-! ## A scanner inside a longer text -/

section Extension

variable {α β : Type} {rest : Text} {d d' : Dialect}

/-- The second result is the first one with more text left. -/
def Grows (rest : Text) (result result' : Option (α × Text)) : Prop :=
  ∀ value left, result = some (value, left) → result' = some (value, left ++ rest)

theorem grows_none (result' : Option (α × Text)) : Grows rest none result' := by
  intro value left h
  cases h

theorem grows_some (value : α) (left : Text) :
    Grows rest (some (value, left)) (some (value, left ++ rest)) := by
  intro value' left' h
  cases h
  rfl

theorem Grows.bind {result result' : Option (α × Text)} {f f' : α × Text → Option (β × Text)}
    (h : Grows rest result result')
    (hf : ∀ value left, Grows rest (f (value, left)) (f' (value, left ++ rest))) :
    Grows rest (result.bind f) (result'.bind f') := by
  intro value left hvalue
  obtain ⟨⟨first, between⟩, hfirst, hsecond⟩ := Option.bind_eq_some_iff.mp hvalue
  rw [h first between hfirst]
  exact hf first between value left hsecond

theorem Grows.map {result result' : Option (α × Text)} (h : Grows rest result result') (f : α → β) :
    Grows rest (result.map (Prod.map f id)) (result'.map (Prod.map f id)) := by
  rw [Option.map_eq_bind, Option.map_eq_bind]
  apply h.bind
  intro value left
  exact grows_some (f value) left

/-- What `item` reads in a text, `item'` reads in the text followed by `rest`. -/
def Extends (rest : Text) (item item' : Scanner α) : Prop :=
  ∀ text, Grows rest (item text) (item' (text ++ rest))

theorem stripPrefix_append {word text left : Text} (h : stripPrefix word text = some left)
    (rest : Text) : stripPrefix word (text ++ rest) = some (left ++ rest) := by
  induction word generalizing text with
  | nil =>
    obtain rfl : text = left := by simpa [stripPrefix] using h
    rfl
  | cons p word ih =>
    cases text with
    | nil => cases h
    | cons c text =>
      by_cases hpc : p = c
      · simp only [stripPrefix, List.cons_append, if_pos hpc] at h ⊢
        exact ih h
      · simp [stripPrefix, hpc] at h

theorem extends_scanWord (word : Text) (value : Json) :
    Extends rest (scanWord word value) (scanWord word value) := by
  intro text value' left h
  obtain ⟨left', hleft, heq⟩ := Option.map_eq_some_iff.mp h
  cases heq
  rw [scanWord, stripPrefix_append hleft]
  rfl

theorem extends_scanPieces (state : StringState) :
    Extends rest (scanPieces state) (scanPieces state) := by
  intro text
  fun_induction scanPieces state text with
  | case1 => exact grows_none _
  | case2 tail => exact grows_some [] tail
  | case3 tail _ ih => simpa [scanPieces] using ih
  | case4 => exact grows_none _
  | case5 c tail hquote hback hsmall ih =>
    simp only [List.cons_append, scanPieces, if_neg hquote, if_neg hback, if_neg hsmall]
    exact ih.map _
  | case6 tail ih => simpa [scanPieces] using ih
  | case7 c tail hu ih =>
    simp only [List.cons_append, scanPieces, if_neg hu]
    cases escapedChar c with
    | none => exact grows_none _
    | some e => exact ih.map _
  | case8 state acc c tail ihplain ihhex =>
    simp only [List.cons_append, scanPieces]
    cases Hex.digitValue c with
    | none => exact grows_none _
    | some digit =>
      cases state with
      | zero => exact ihplain.map _
      | succ state => exact ihhex digit state

theorem extends_scanString (hd : d.Within d') : Extends rest (scanString d) (scanString d') := by
  intro text
  apply (extends_scanPieces .plain text).bind
  intro pieces left
  cases hjoin : joinPieces d.loneSurrogate pieces with
  | none => exact grows_none _
  | some value =>
    dsimp only
    rw [joinPieces_of_within hd.loneSurrogate pieces hjoin]
    exact grows_some value left

/-- No number goes on with a character that delimits. -/
theorem next_eq_none_of_delimiter (state : NumberState) {c : Char}
    (h : isWs c = true ∨ c = ',' ∨ c = ']' ∨ c = '}') : state.next c = none := by
  have hchars : c = ' ' ∨ c = '\t' ∨ c = '\n' ∨ c = '\r' ∨ c = ',' ∨ c = ']' ∨ c = '}' := by
    simpa [isWs, or_assoc] using h
  rcases hchars with rfl | rfl | rfl | rfl | rfl | rfl | rfl <;> cases state <;> rfl

theorem extends_scanNumber (hrest : Delimited rest) (state : NumberState) :
    Extends rest (scanNumber state) (scanNumber state) := by
  intro text
  fun_induction scanNumber state text with
  | case1 state haccepting =>
    cases rest with
    | nil => simpa [scanNumber, haccepting] using grows_some [] []
    | cons c rest =>
      have hnext := next_eq_none_of_delimiter state (hrest c rfl)
      simpa [scanNumber, haccepting, hnext] using @grows_some _ (c :: rest) [] []
  | case2 => exact grows_none _
  | case3 state c tail next hnext ih =>
    simp only [List.cons_append, scanNumber, hnext]
    exact ih.map _
  | case4 state c tail hnext haccepting =>
    simp only [List.cons_append, scanNumber, hnext, haccepting, if_true]
    exact grows_some [] (c :: tail)
  | case5 => exact grows_none _

theorem extends_scanNumberValue (hd : d.Within d') (hrest : Delimited rest) :
    Extends rest (scanNumberValue d) (scanNumberValue d') := by
  intro text
  apply (extends_scanNumber hrest .start text).bind
  intro literal left
  dsimp only
  split
  · next hok =>
    rw [if_pos (hd.numberOk literal hok)]
    exact grows_some (num literal) left
  · exact grows_none _

/-- A text that starts with a number is not read as one of the words. -/
theorem scanNumeric_append {text : Text} {result : Json × Text}
    (h : scanNumberValue d text = some result) (rest : Text) :
    scanNumeric d' (text ++ rest) = scanNumberValue d' (text ++ rest) := by
  cases text with
  | nil => cases h
  | cons c text =>
    unfold scanNumeric
    split
    · next tail _ heq =>
      obtain ⟨rfl, -⟩ := List.cons.inj heq
      cases h
    · next tail _ heq =>
      obtain ⟨rfl, -⟩ := List.cons.inj heq
      cases h
    · next tail _ heq =>
      obtain ⟨rfl, htail⟩ := List.cons.inj heq
      cases text with
      | nil => cases h
      | cons c text =>
        obtain ⟨rfl, -⟩ := List.cons.inj htail
        cases h
    · rfl

theorem extends_scanNumeric (hd : d.Within d') (hrest : Delimited rest) :
    Extends rest (scanNumeric d) (scanNumeric d') := by
  intro text value left h
  unfold scanNumeric at h
  split at h
  · next tail hnonFinite =>
    simpa [scanNumeric, hd.nonFinite hnonFinite] using
      extends_scanWord _ _ ('N' :: tail) value left h
  · next tail hnonFinite =>
    simpa [scanNumeric, hd.nonFinite hnonFinite] using
      extends_scanWord _ _ ('I' :: tail) value left h
  · next tail hnonFinite =>
    simpa [scanNumeric, hd.nonFinite hnonFinite] using
      extends_scanWord _ _ ('-' :: 'I' :: tail) value left h
  · rw [scanNumeric_append h]
    exact extends_scanNumberValue hd hrest _ value left h

theorem extends_scanItems {item item' : Scanner α} {close : Char} (h : Extends rest item item')
    {fuel fuel' : ℕ} (hfuel : fuel ≤ fuel') :
    Extends rest (scanItems item close fuel) (scanItems item' close fuel') := by
  induction fuel generalizing fuel' with
  | zero =>
    intro text
    exact grows_none _
  | succ fuel ih =>
    cases fuel' with
    | zero => cases hfuel
    | succ fuel' =>
      intro text
      apply (h text).bind
      intro value left
      dsimp only
      cases hskip : skipWs left with
      | nil => exact grows_none _
      | cons c tail =>
        have happend : skipWs (left ++ rest) = c :: (tail ++ rest) := by
          rw [skipWs_append_of_ne_nil (by simp [hskip]), hskip, List.cons_append]
        rw [happend]
        dsimp only
        split
        · exact grows_some [value] tail
        · split
          · exact (ih (Nat.le_of_succ_le_succ hfuel) tail).map _
          · exact grows_none _

theorem extends_scanList {item item' : Scanner α} (close : Char) (h : Extends rest item item') :
    Extends rest (scanList item close) (scanList item' close) := by
  intro text
  unfold scanList
  cases hskip : skipWs text with
  | nil => exact grows_none _
  | cons c tail =>
    have happend : skipWs (text ++ rest) = c :: (tail ++ rest) := by
      rw [skipWs_append_of_ne_nil (by simp [hskip]), hskip, List.cons_append]
    rw [happend]
    dsimp only
    split
    · exact grows_some [] tail
    · exact extends_scanItems h (by simp) (c :: tail)

theorem extends_scanMember (hd : d.Within d') {item item' : Scanner Json}
    (h : Extends rest item item') : Extends rest (scanMember d item) (scanMember d' item') := by
  intro text
  unfold scanMember
  cases hskip : skipWs text with
  | nil => exact grows_none _
  | cons c tail =>
    have happend : skipWs (text ++ rest) = c :: (tail ++ rest) := by
      rw [skipWs_append_of_ne_nil (by simp [hskip]), hskip, List.cons_append]
    rw [happend]
    dsimp only
    split
    · apply (extends_scanString hd tail).bind
      intro name left
      dsimp only
      cases hcolon : skipWs left with
      | nil => exact grows_none _
      | cons c' tail' =>
        have happend' : skipWs (left ++ rest) = c' :: (tail' ++ rest) := by
          rw [skipWs_append_of_ne_nil (by simp [hcolon]), hcolon, List.cons_append]
        rw [happend']
        dsimp only
        split
        · rw [Option.map_eq_bind, Option.map_eq_bind]
          apply (h tail').bind
          intro value left'
          exact grows_some (name, value) left'
        · exact grows_none _
    · exact grows_none _

/-- What stands inside brackets may be read with more depth. -/
theorem extends_scanValueWith (hd : d.Within d') {nested nested' : Option (Scanner Json)}
    (hrest : Delimited rest)
    (h : ∀ item, nested = some item → ∃ item', nested' = some item' ∧ Extends rest item item') :
    Extends rest (scanValueWith d nested) (scanValueWith d' nested') := by
  intro text
  unfold scanValueWith
  cases hskip : skipWs text with
  | nil => exact grows_none _
  | cons c tail =>
    have happend : skipWs (text ++ rest) = c :: (tail ++ rest) := by
      rw [skipWs_append_of_ne_nil (by simp [hskip]), hskip, List.cons_append]
    have hnested : ∀ (scan scan' : Scanner Json → Scanner Json),
        (∀ item item', Extends rest item item' → Extends rest (scan item) (scan' item')) →
          Grows rest (nested.bind fun item ↦ scan item tail)
            (nested'.bind fun item ↦ scan' item (tail ++ rest)) := by
      intro scan scan' hscan
      cases nested with
      | none => exact grows_none _
      | some item =>
        obtain ⟨item', rfl, hitem⟩ := h item rfl
        exact hscan item item' hitem tail
    rw [happend]
    dsimp only
    split
    · exact (extends_scanString hd tail).map _
    split
    · have harr := fun item item' (hitem : Extends rest item item') text ↦
        (extends_scanList ']' hitem text).map arr
      exact hnested (fun item text ↦ (scanList item ']' text).map (Prod.map arr id))
        (fun item text ↦ (scanList item ']' text).map (Prod.map arr id)) harr
    split
    · have hobj := fun item item' (hitem : Extends rest item item') text ↦
        (extends_scanList '}' (extends_scanMember hd hitem) text).map ofMembers
      exact hnested
        (fun item text ↦ (scanList (scanMember d item) '}' text).map (Prod.map ofMembers id))
        (fun item text ↦ (scanList (scanMember d' item) '}' text).map (Prod.map ofMembers id)) hobj
    split
    · exact extends_scanWord _ _ (c :: tail)
    split
    · exact extends_scanWord _ _ (c :: tail)
    split
    · exact extends_scanWord _ _ (c :: tail)
    · exact extends_scanNumeric hd hrest (c :: tail)

/-- A value is read the same way inside a longer text, with more depth and by a decoder that accepts
more. -/
theorem extends_scanValue (hd : d.Within d') (hrest : Delimited rest) {depth depth' : ℕ}
    (hdepth : depth ≤ depth') : Extends rest (scanValue d depth) (scanValue d' depth') := by
  induction depth generalizing depth' with
  | zero =>
    cases depth' <;> exact extends_scanValueWith hd hrest (by simp)
  | succ depth ih =>
    cases depth' with
    | zero => cases hdepth
    | succ depth' =>
      apply extends_scanValueWith hd hrest
      intro item hitem
      cases hitem
      exact ⟨_, rfl, ih (Nat.le_of_succ_le_succ hdepth)⟩

/-- The empty text is no value. -/
theorem parse_nil (d : Dialect) : parse d [] = none := by
  rw [parse]
  cases d.maxDepth <;> rfl

/-- What a decoder reads, one that accepts more reads too. -/
theorem parse_of_within (hd : d.Within d') (hdepth : d.maxDepth ≤ d'.maxDepth) {text : Text}
    {value : Json} (h : parse d text = some value) : parse d' text = some value := by
  obtain ⟨⟨value', left⟩, hscan, hend⟩ := Option.bind_eq_some_iff.mp h
  have hscan' := extends_scanValue hd delimited_nil hdepth text value' left hscan
  rw [List.append_nil, List.append_nil] at hscan'
  rw [parse, hscan']
  exact hend

end Extension

/-! ## Documents that are joined from texts -/

section Reads

variable {α : Type} {d : Dialect}

/-- Wherever the text stands, `item` reads the value from it and leaves at most white space. -/
def Reads (item : Scanner α) (text : Text) (value : α) : Prop :=
  ∀ rest, Delimited rest → ∃ left,
    item (text ++ rest) = some (value, left) ∧ skipWs left = skipWs rest

theorem parse_of_reads {text : Text} {value : Json} (h : Reads (scanValue d d.maxDepth) text value) :
    parse d text = some value := by
  obtain ⟨left, hscan, hleft⟩ := h [] delimited_nil
  rw [List.append_nil] at hscan
  rw [parse, hscan]
  exact if_pos hleft

/-- A text that is one value is that value wherever it is pasted in, also for a decoder that accepts
more. -/
theorem reads_of_parse_within (hd : d.Within d') {text : Text} {value : Json}
    (h : parse d text = some value) {depth : ℕ} (hdepth : d.maxDepth ≤ depth) :
    Reads (scanValue d' depth) text value := by
  intro rest hrest
  obtain ⟨⟨value', left⟩, hscan, hend⟩ := Option.bind_eq_some_iff.mp h
  obtain ⟨hleft, heq⟩ := Option.ite_none_right_eq_some.mp hend
  cases heq
  exact ⟨left ++ rest, extends_scanValue hd hrest hdepth text value' left hscan,
    skipWs_append_of_eq_nil hleft rest⟩

theorem reads_of_parse {text : Text} {value : Json} (h : parse d text = some value) {depth : ℕ}
    (hdepth : d.maxDepth ≤ depth) : Reads (scanValue d depth) text value :=
  reads_of_parse_within d.within_refl h hdepth

/-- What is read with more depth is what is read. -/
theorem eq_of_parse_of_reads {text : Text} {value value' : Json} (h : parse d text = some value)
    {depth : ℕ} (hdepth : d.maxDepth ≤ depth) (h' : Reads (scanValue d depth) text value') :
    value = value' := by
  obtain ⟨left, hscan, _⟩ := reads_of_parse h hdepth [] delimited_nil
  obtain ⟨left', hscan', _⟩ := h' [] delimited_nil
  rw [hscan] at hscan'
  exact (Prod.mk.inj (Option.some.inj hscan')).1

/-- Put a backslash before the quotes and backslashes. -/
def escaped (text : Text) : Text :=
  text.flatMap fun c ↦ if c = '"' ∨ c = '\\' then ['\\', c] else [c]

/-- A string literal. -/
def quote (text : Text) : Text := '"' :: escaped text ++ ['"']

/-- A text without quotes and backslashes is written as it is. -/
theorem escaped_eq_self {text : Text} (hquote : '"' ∉ text) (hback : '\\' ∉ text) :
    escaped text = text := by
  have hsingle : ∀ c ∈ text, (if c = '"' ∨ c = '\\' then ['\\', c] else [c]) = [c] := by
    intro c hc
    apply if_neg
    rintro (rfl | rfl)
    · exact hquote hc
    · exact hback hc
  rw [escaped, List.flatMap_congr hsingle]
  simp

/-- No character of the text is a control character. -/
def Printable (text : Text) : Prop := ∀ c ∈ text, 0x20 ≤ c.toNat

instance (text : Text) : Decidable (Printable text) := inferInstanceAs (Decidable (∀ _ ∈ _, _))

theorem quote_append (text rest : Text) : quote text ++ rest = '"' :: (escaped text ++ '"' :: rest) := by
  simp [quote]

theorem joinPieces_map_char (lone : ℕ → Option Char) (text : Text) :
    joinPieces lone (text.map .char) = some text := by
  induction text with
  | nil => rfl
  | cons c text ih => simp [joinPieces, ih]

theorem scanPieces_escaped {text : Text} (h : Printable text) (rest : Text) :
    scanPieces .plain (escaped text ++ '"' :: rest) = some (text.map .char, rest) := by
  induction text with
  | nil => rfl
  | cons c text ih =>
    have hrest := ih fun c' hc' ↦ h c' (List.mem_cons_of_mem _ hc')
    have hc : ¬ c.toNat < 0x20 := Nat.not_lt.mpr (h c List.mem_cons_self)
    have hcons : escaped (c :: text) =
        (if c = '"' ∨ c = '\\' then ['\\', c] else [c]) ++ escaped text := rfl
    rw [hcons, List.append_assoc]
    by_cases hspecial : c = '"' ∨ c = '\\'
    · rw [if_pos hspecial]
      rcases hspecial with rfl | rfl <;> simp [scanPieces, escapedChar, hrest]
    · have hquote : c ≠ '"' := fun heq ↦ hspecial (.inl heq)
      have hback : c ≠ '\\' := fun heq ↦ hspecial (.inr heq)
      simp [scanPieces, hquote, hback, hc, hrest]

theorem scanString_escaped {text : Text} (h : Printable text) (rest : Text) :
    scanString d (escaped text ++ '"' :: rest) = some (text, rest) := by
  rw [scanString, scanPieces_escaped h, Option.bind_some, joinPieces_map_char]
  rfl

theorem reads_quote {text : Text} (h : Printable text) (depth : ℕ) :
    Reads (scanValue d depth) (quote text) (str text) := by
  intro rest _
  refine ⟨rest, ?_, rfl⟩
  rw [quote_append]
  cases depth <;>
    rw [scanValue, scanValueWith, skipWs_cons_of_not_ws rfl] <;> simp [scanString_escaped h]

/-- A name and a value with a colon between them. -/
theorem reads_member {item : Scanner Json} {name text : Text} {value : Json} (hname : Printable name)
    (h : Reads item text value) :
    Reads (scanMember d item) (quote name ++ ':' :: text) (name, value) := by
  intro rest hrest
  obtain ⟨left, hscan, hleft⟩ := h rest hrest
  refine ⟨left, ?_, hleft⟩
  rw [quote_append, List.cons_append, List.append_assoc, List.cons_append, List.cons_append, scanMember,
    skipWs_cons_of_not_ws rfl]
  simp [scanString_escaped hname, skipWs_cons_of_not_ws (show isWs ':' = false from rfl), hscan]

/-- A scanner that skips white space first and reads nothing at a delimiter. -/
structure SkipsWs (item : Scanner α) : Prop where
  skipWs_eq : ∀ text, item (skipWs text) = item text
  nil_eq_none : item [] = none
  delimiter_eq_none : ∀ c rest, c = ',' ∨ c = ']' ∨ c = '}' → item (c :: rest) = none

theorem skipsWs_scanValueWith (nested : Option (Scanner Json)) : SkipsWs (scanValueWith d nested) where
  skipWs_eq := fun text ↦ by rw [scanValueWith, skipWs_skipWs, scanValueWith]
  nil_eq_none := rfl
  delimiter_eq_none := fun c rest hc ↦ by
    have hnumeric : scanNumeric d (c :: rest) = none := by
      rcases hc with rfl | rfl | rfl <;> cases hd : d.nonFinite <;> simp [scanNumeric, hd] <;> rfl
    rcases hc with rfl | rfl | rfl <;> exact hnumeric

theorem skipsWs_scanValue (depth : ℕ) : SkipsWs (scanValue d depth) := by
  cases depth <;> exact skipsWs_scanValueWith _

theorem skipsWs_scanMember (item : Scanner Json) : SkipsWs (scanMember d item) where
  skipWs_eq := fun text ↦ by rw [scanMember, skipWs_skipWs, scanMember]
  nil_eq_none := rfl
  delimiter_eq_none := fun c rest hc ↦ by rcases hc with rfl | rfl | rfl <;> rfl

/-- White space may stand before what such a scanner reads. -/
theorem Reads.blank {item : Scanner α} (hitem : SkipsWs item) {text : Text} {value : α}
    (h : Reads item text value) {c : Char} (hc : isWs c = true) : Reads item (c :: text) value := by
  intro rest hrest
  obtain ⟨left, hscan, hleft⟩ := h rest hrest
  refine ⟨left, ?_, hleft⟩
  rw [← hitem.skipWs_eq, List.cons_append, skipWs_cons_of_ws hc, hitem.skipWs_eq]
  exact hscan

theorem Reads.gap {item : Scanner α} (hitem : SkipsWs item) {text : Text} {value : α}
    (h : Reads item text value) {gap : Text} (hgap : ∀ c ∈ gap, isWs c = true) :
    Reads item (gap ++ text) value := by
  induction gap with
  | nil => exact h
  | cons c gap ih =>
    exact (ih fun c' hc' ↦ hgap c' (List.mem_cons_of_mem _ hc')).blank hitem (hgap c List.mem_cons_self)

/-- White space may stand behind what a scanner reads. -/
theorem Reads.append_blank {item : Scanner α} {text : Text} {value : α} (h : Reads item text value)
    {c : Char} (hc : isWs c = true) : Reads item (text ++ [c]) value := by
  intro rest _
  obtain ⟨left, hscan, hleft⟩ := h (c :: rest) (delimited_cons rest (.inl hc))
  refine ⟨left, ?_, hleft.trans (skipWs_cons_of_ws hc rest)⟩
  rwa [List.append_assoc]

/-- An item before a comma, and what the rest of the items are. -/
theorem scanItems_of_reads {item : Scanner α} {close : Char} (hclose : ',' ≠ close) {text : Text}
    {value : α} (h : Reads item text value) (fuel : ℕ) (rest : Text) :
    scanItems item close (fuel + 1) (text ++ ',' :: rest) =
      (scanItems item close fuel rest).map (Prod.map (value :: ·) id) := by
  obtain ⟨left, hscan, hleft⟩ := h (',' :: rest) (delimited_cons rest (.inr (.inl rfl)))
  rw [scanItems, hscan, Option.bind_some, hleft, skipWs_cons_of_not_ws rfl]
  dsimp only
  rw [if_neg hclose, if_pos rfl]

/-- Items with commas between them, up to the closing bracket. -/
theorem scanItems_join {item : Scanner α} {close : Char} (hclose : close = ']' ∨ close = '}')
    {text : Text} {texts : List Text} {values : List α}
    (h : List.Forall₂ (Reads item) (text :: texts) values) {fuel : ℕ} (hfuel : texts.length < fuel)
    (rest : Text) :
    scanItems item close fuel ([','].intercalate (text :: texts) ++ close :: rest) =
      some (values, rest) := by
  induction texts generalizing text values fuel with
  | nil =>
    cases h with
    | cons hfirst hnil =>
      cases hnil
      cases fuel with
      | zero => cases hfuel
      | succ fuel =>
        obtain ⟨left, hscan, hleft⟩ :=
          hfirst (close :: rest) (delimited_cons rest (.inr (.inr hclose)))
        have hskip : skipWs (close :: rest) = close :: rest := by
          rcases hclose with rfl | rfl <;> rfl
        rw [List.intercalate_singleton, scanItems, hscan, Option.bind_some, hleft, hskip]
        simp
  | cons next texts ih =>
    cases h with
    | cons hfirst hrest =>
      cases fuel with
      | zero => cases hfuel
      | succ fuel =>
        have hcomma : ',' ≠ close := by rcases hclose with rfl | rfl <;> decide
        rw [List.intercalate_cons_cons, List.append_assoc, List.append_assoc, List.singleton_append,
          scanItems_of_reads hcomma hfirst, ih hrest (Nat.lt_of_succ_lt_succ hfuel)]
        rfl

theorem length_le_countP_join (close : Char) (text : Text) (texts : List Text) (rest : Text) :
    texts.length ≤ ([','].intercalate (text :: texts) ++ close :: rest).countP (· == ',') := by
  induction texts generalizing text with
  | nil => exact Nat.zero_le _
  | cons next texts ih =>
    rw [List.intercalate_cons_cons, List.append_assoc, List.append_assoc, List.countP_append,
      List.countP_append, List.length_cons]
    have := ih next
    have hcomma : List.countP (· == ',') [','] = 1 := rfl
    omega

theorem scanItems_skipWs {item : Scanner α} (hitem : SkipsWs item) (close : Char) (fuel : ℕ)
    (text : Text) : scanItems item close fuel (skipWs text) = scanItems item close fuel text := by
  cases fuel with
  | zero => rfl
  | succ fuel => rw [scanItems, hitem.skipWs_eq, scanItems]

theorem scanList_join {item : Scanner α} (hitem : SkipsWs item) {close : Char}
    (hclose : close = ']' ∨ close = '}') {text : Text} {texts : List Text} {values : List α}
    (h : List.Forall₂ (Reads item) (text :: texts) values) (rest : Text) :
    scanList item close ([','].intercalate (text :: texts) ++ close :: rest) = some (values, rest) := by
  have hcount := length_le_countP_join close text texts rest
  have hitems : ∀ fuel, texts.length < fuel → _ := fun _ hfuel ↦ scanItems_join hclose h hfuel rest
  generalize [','].intercalate (text :: texts) ++ close :: rest = joined at hcount hitems
  -- The first item starts with no delimiter, so the text is longer than it has commas.
  obtain ⟨result, hresult, _⟩ := Option.bind_eq_some_iff.mp (hitems _ (Nat.lt_succ_self _))
  rw [← hitem.skipWs_eq] at hresult
  have hws : ∀ c, isWs c = true → (c == ',') = false := by
    intro c hc
    by_contra hcomma
    simp [isWs, eq_of_beq (Bool.eq_true_of_not_eq_false hcomma)] at hc
  rw [← countP_skipWs hws] at hcount
  unfold scanList
  cases hskip : skipWs joined with
  | nil =>
    rw [hskip, hitem.nil_eq_none] at hresult
    cases hresult
  | cons c tail =>
    rw [hskip] at hresult hcount
    have hfirst : ¬ (c = ',' ∨ c = ']' ∨ c = '}') := by
      intro hc
      rw [hitem.delimiter_eq_none c tail hc] at hresult
      cases hresult
    have hlength : texts.length < (c :: tail).length := by
      have hcomma : (c == ',') = false := by simpa using fun hc ↦ hfirst (.inl hc)
      rw [List.countP_cons, hcomma] at hcount
      exact Nat.lt_succ_of_le (hcount.trans List.countP_le_length)
    have hne : c ≠ close := fun hc ↦ hfirst (.inr (hc ▸ hclose))
    dsimp only
    rw [if_neg hne, ← hskip, scanItems_skipWs hitem, hskip]
    exact hitems _ hlength

/-- The first item of a list is what is read from the text before the comma. -/
theorem exists_of_scanItems_reads {item : Scanner α} {text : Text} {value : α}
    (hreads : Reads item text value) {fuel : ℕ} {rest left : Text} {values : List α}
    (h : scanItems item '}' fuel (text ++ ',' :: rest) = some (values, left)) :
    ∃ fuel' others, scanItems item '}' fuel' rest = some (others, left) ∧ values = value :: others := by
  cases fuel with
  | zero => cases h
  | succ fuel =>
    rw [scanItems_of_reads (by decide) hreads] at h
    obtain ⟨⟨others, left'⟩, hothers, heq⟩ := Option.map_eq_some_iff.mp h
    obtain ⟨rfl, rfl⟩ : value :: others = values ∧ left' = left := Prod.mk.inj heq
    exact ⟨fuel, others, hothers, rfl⟩

/-- An object that is not empty. -/
theorem reads_obj {depth : ℕ} {text : Text} {texts : List Text} {members : List (Text × Json)}
    (h : List.Forall₂ (Reads (scanMember d (scanValue d depth))) (text :: texts) members) :
    Reads (scanValue d (depth + 1)) ('{' :: [','].intercalate (text :: texts) ++ ['}'])
      (ofMembers members) := by
  intro rest _
  refine ⟨rest, ?_, rfl⟩
  have hlist := scanList_join (skipsWs_scanMember _) (.inr rfl) h rest
  rw [List.append_assoc, List.singleton_append, List.cons_append, scanValue, scanValueWith,
    skipWs_cons_of_not_ws rfl]
  simp [hlist]

/-- An array that is not empty. -/
theorem reads_arr {depth : ℕ} {text : Text} {texts : List Text} {elements : List Json}
    (h : List.Forall₂ (Reads (scanValue d depth)) (text :: texts) elements) :
    Reads (scanValue d (depth + 1)) ('[' :: [','].intercalate (text :: texts) ++ [']'])
      (arr elements) := by
  intro rest _
  refine ⟨rest, ?_, rfl⟩
  have hlist := scanList_join (skipsWs_scanValue depth) (.inl rfl) h rest
  rw [List.append_assoc, List.singleton_append, List.cons_append, scanValue, scanValueWith,
    skipWs_cons_of_not_ws rfl]
  simp [hlist]

theorem setMember_of_notMem {members : List (Text × Json)} {key : Text} (value : Json)
    (h : key ∉ members.map Prod.fst) : setMember members key value = members ++ [(key, value)] := by
  induction members with
  | nil => rfl
  | cons member members ih =>
    rw [List.map_cons, List.mem_cons, not_or] at h
    rw [setMember, if_neg (Ne.symm h.1), ih h.2, List.cons_append]

/-- Members with distinct names are kept as they are. -/
theorem ofMembers_of_nodup {members : List (Text × Json)} (h : (members.map Prod.fst).Nodup) :
    ofMembers members = obj members := by
  rw [ofMembers]
  congr 1
  induction members using List.reverseRecOn with
  | nil => rfl
  | append_singleton members member ih =>
    rw [List.map_append, List.nodup_append] at h
    have hnew : member.1 ∉ members.map Prod.fst := by
      intro hmem
      exact h.2.2 _ hmem _ (by simp) rfl
    rw [List.foldl_concat, ih h.1, setMember_of_notMem member.2 hnew]

/-- A document that is one object, with members of different names. -/
theorem parse_obj_of_reads (hdepth : 0 < d.maxDepth) {text : Text} {texts : List Text}
    {members : List (Text × Json)}
    (h : ∀ depth, List.Forall₂ (Reads (scanMember d (scanValue d depth))) (text :: texts) members)
    (hnodup : (members.map Prod.fst).Nodup) :
    parse d ('{' :: [','].intercalate (text :: texts) ++ ['}']) = some (obj members) := by
  obtain ⟨depth, hmax⟩ := Nat.exists_eq_add_of_lt hdepth
  apply parse_of_reads
  rw [hmax, Nat.zero_add, ← ofMembers_of_nodup hnodup]
  exact reads_obj (h depth)

theorem ofMembers_singleton (member : Text × Json) : ofMembers [member] = obj [member] := rfl

/-! ### Objects whose values are strings -/

/-- An object whose members are strings, with some white space after each colon and comma. -/
def stringObject (gap : Text) (members : List (Text × Text)) : Text :=
  '{' :: (',' :: gap).intercalate (members.map fun m ↦ quote m.1 ++ ':' :: (gap ++ quote m.2)) ++ ['}']

theorem intercalate_gap (gap text : Text) (texts : List Text) :
    (',' :: gap).intercalate (text :: texts) =
      [','].intercalate (text :: texts.map fun t ↦ gap ++ t) := by
  induction texts generalizing text with
  | nil => simp
  | cons next texts ih =>
    rw [List.intercalate_cons_cons, ih next, List.map_cons, List.intercalate_cons_cons]
    cases texts <;> simp [List.intercalate_cons_cons]

theorem parse_stringObject (hdepth : 0 < d.maxDepth) {gap : Text} (hgap : ∀ c ∈ gap, isWs c = true)
    {members : List (Text × Text)} (hne : members ≠ []) (hnodup : (members.map Prod.fst).Nodup)
    (hprintable : ∀ m ∈ members, Printable m.1 ∧ Printable m.2) :
    parse d (stringObject gap members) = some (obj (members.map fun m ↦ (m.1, str m.2))) := by
  have hvalue : ∀ depth, ∀ m ∈ members, Reads (scanMember d (scanValue d depth))
      (quote m.1 ++ ':' :: (gap ++ quote m.2)) (m.1, str m.2) := by
    intro depth m hm
    apply reads_member (hprintable m hm).1
    exact (reads_quote (hprintable m hm).2 depth).gap (skipsWs_scanValue depth) hgap
  cases members with
  | nil => exact absurd rfl hne
  | cons first members =>
    have hrest : ∀ depth, List.Forall₂ (Reads (scanMember d (scanValue d depth)))
        ((members.map fun m ↦ quote m.1 ++ ':' :: (gap ++ quote m.2)).map fun t ↦ gap ++ t)
        (members.map fun m ↦ (m.1, str m.2)) := by
      intro depth
      rw [List.map_map, List.forall₂_map_left_iff, List.forall₂_map_right_iff, List.forall₂_same]
      intro m hm
      exact (hvalue depth m (List.mem_cons_of_mem _ hm)).gap (skipsWs_scanMember _) hgap
    have hobj := parse_obj_of_reads hdepth
      (fun depth ↦ .cons (hvalue depth first List.mem_cons_self) (hrest depth))
      (by simpa [Function.comp_def] using hnodup)
    rw [← intercalate_gap] at hobj
    exact hobj

theorem eq_of_scanWord {word text left : Text} {value value' : Json}
    (h : scanWord word value text = some (value', left)) : value' = value := by
  obtain ⟨_, _, heq⟩ := Option.map_eq_some_iff.mp h
  exact (Prod.mk.inj heq).1.symm

theorem eq_num_of_scanNumeric {text left : Text} {value : Json}
    (h : scanNumeric d text = some (value, left)) : ∃ literal, value = num literal := by
  unfold scanNumeric at h
  split at h
  · exact ⟨_, eq_of_scanWord h⟩
  · exact ⟨_, eq_of_scanWord h⟩
  · exact ⟨_, eq_of_scanWord h⟩
  · obtain ⟨result, _, hok⟩ := Option.bind_eq_some_iff.mp h
    obtain ⟨_, heq⟩ := Option.ite_none_right_eq_some.mp hok
    exact ⟨result.1, (Prod.mk.inj (Option.some.inj heq)).1.symm⟩

/-- No object is read where brackets may not nest at all. -/
theorem maxDepth_pos_of_parse_obj {text : Text} {members : List (Text × Json)}
    (h : parse d text = some (obj members)) : 0 < d.maxDepth := by
  by_contra hpos
  obtain ⟨⟨value, left⟩, hscan, hend⟩ := Option.bind_eq_some_iff.mp h
  obtain ⟨_, heq⟩ := Option.ite_none_right_eq_some.mp hend
  obtain rfl : value = obj members := Option.some.inj heq
  rw [Nat.eq_zero_of_not_pos hpos, scanValue, scanValueWith] at hscan
  split at hscan
  · cases hscan
  split at hscan
  · obtain ⟨_, _, heq⟩ := Option.map_eq_some_iff.mp hscan
    cases heq
  split at hscan
  · cases hscan
  split at hscan
  · cases hscan
  split at hscan
  · cases eq_of_scanWord hscan
  split at hscan
  · cases eq_of_scanWord hscan
  split at hscan
  · cases eq_of_scanWord hscan
  · obtain ⟨_, heq⟩ := eq_num_of_scanNumeric hscan
    cases heq

end Reads

/-! ## Distinct names -/

section Distinct

variable {d : Dialect}

/-- No object in the value has two members with one name. -/
inductive Distinct : Json → Prop where
  | null : Distinct null
  | bool (value : Bool) : Distinct (bool value)
  | num (literal : Text) : Distinct (num literal)
  | str (value : Text) : Distinct (str value)
  | arr {elements : List Json} (h : ∀ element ∈ elements, Distinct element) : Distinct (arr elements)
  | obj {members : List (Text × Json)} (hnodup : (members.map Prod.fst).Nodup)
      (h : ∀ m ∈ members, Distinct m.2) : Distinct (obj members)

theorem mem_of_lookup {members : List (Text × Json)} {key : Text} {value : Json}
    (h : members.lookup key = some value) : (key, value) ∈ members := by
  obtain ⟨first, rest, rfl, _⟩ := List.lookup_eq_some_iff.mp h
  simp

theorem mem_setMember {members : List (Text × Json)} {key : Text} {value : Json} {m : Text × Json}
    (h : m ∈ setMember members key value) : m = (key, value) ∨ m ∈ members := by
  induction members with
  | nil => exact .inl (List.mem_singleton.mp h)
  | cons first members ih =>
    rw [setMember] at h
    split at h
    · rcases List.mem_cons.mp h with h | h
      · exact .inl h
      · exact .inr (List.mem_cons_of_mem _ h)
    · rcases List.mem_cons.mp h with h | h
      · exact .inr (h ▸ List.mem_cons_self)
      · exact (ih h).imp_right (List.mem_cons_of_mem _)

theorem nodup_setMember {members : List (Text × Json)} (key : Text) (value : Json)
    (h : (members.map Prod.fst).Nodup) : ((setMember members key value).map Prod.fst).Nodup := by
  induction members with
  | nil => simp [setMember]
  | cons first members ih =>
    rw [List.map_cons, List.nodup_cons] at h
    rw [setMember]
    split
    · next hname =>
      rw [List.map_cons, List.nodup_cons, ← hname]
      exact h
    · next hname =>
      rw [List.map_cons, List.nodup_cons]
      refine ⟨?_, ih h.2⟩
      intro hmem
      obtain ⟨m, hm, hfirst⟩ := List.mem_map.mp hmem
      rcases mem_setMember hm with rfl | hm
      · exact hname hfirst.symm
      · exact h.1 (hfirst ▸ List.mem_map_of_mem hm)

theorem distinct_ofMembers {pairs : List (Text × Json)} (h : ∀ m ∈ pairs, Distinct m.2) :
    Distinct (ofMembers pairs) := by
  suffices hfold : ∀ members : List (Text × Json), (members.map Prod.fst).Nodup →
      (∀ m ∈ members, Distinct m.2) →
      Distinct (obj (pairs.foldl (fun members pair ↦ setMember members pair.1 pair.2) members)) from
    hfold [] List.nodup_nil (by simp)
  induction pairs with
  | nil => exact fun members hnodup hmembers ↦ .obj hnodup hmembers
  | cons pair pairs ih =>
    intro members hnodup hmembers
    rw [List.forall_mem_cons] at h
    apply ih h.2 _ (nodup_setMember pair.1 pair.2 hnodup)
    intro m hm
    rcases mem_setMember hm with rfl | hm
    · exact h.1
    · exact hmembers m hm

/-- What an item scanner always reads holds of all items. -/
theorem forall_of_scanItems {α : Type} {item : Scanner α} {Q : α → Prop}
    (hitem : ∀ text value left, item text = some (value, left) → Q value) {close : Char} {fuel : ℕ}
    {text left : Text} {values : List α} (h : scanItems item close fuel text = some (values, left)) :
    ∀ value ∈ values, Q value := by
  induction fuel generalizing text values with
  | zero => cases h
  | succ fuel ih =>
    obtain ⟨⟨value, between⟩, hvalue, hrest⟩ := Option.bind_eq_some_iff.mp h
    split at hrest
    · cases hrest
    split at hrest
    · cases hrest
      simpa using hitem text value between hvalue
    split at hrest
    · obtain ⟨⟨others, _⟩, hothers, heq⟩ := Option.map_eq_some_iff.mp hrest
      cases heq
      exact List.forall_mem_cons.mpr ⟨hitem text value between hvalue, ih hothers⟩
    · cases hrest

theorem forall_of_scanList {α : Type} {item : Scanner α} {Q : α → Prop}
    (hitem : ∀ text value left, item text = some (value, left) → Q value) {close : Char}
    {text left : Text} {values : List α} (h : scanList item close text = some (values, left)) :
    ∀ value ∈ values, Q value := by
  unfold scanList at h
  split at h
  · cases h
  split at h
  · cases h
    simp
  · exact forall_of_scanItems hitem h

theorem distinct_of_scanMember {item : Scanner Json}
    (hitem : ∀ text value left, item text = some (value, left) → Distinct value)
    (text : Text) (m : Text × Json) (left : Text) (h : scanMember d item text = some (m, left)) :
    Distinct m.2 := by
  unfold scanMember at h
  split at h
  · cases h
  split at h
  · obtain ⟨name, _, h⟩ := Option.bind_eq_some_iff.mp h
    split at h
    · cases h
    split at h
    · obtain ⟨value, hvalue, heq⟩ := Option.map_eq_some_iff.mp h
      cases heq
      exact hitem _ value.1 value.2 hvalue
    · cases h
  · cases h

theorem distinct_of_scanValueWith {nested : Option (Scanner Json)}
    (hnested : ∀ item ∈ nested, ∀ text value left, item text = some (value, left) → Distinct value)
    (text : Text) (value : Json) (left : Text)
    (h : scanValueWith d nested text = some (value, left)) : Distinct value := by
  unfold scanValueWith at h
  split at h
  · cases h
  split at h
  · obtain ⟨_, _, heq⟩ := Option.map_eq_some_iff.mp h
    cases heq
    exact .str _
  split at h
  · obtain ⟨item, hitem, h⟩ := Option.bind_eq_some_iff.mp h
    obtain ⟨elements, helements, heq⟩ := Option.map_eq_some_iff.mp h
    cases heq
    exact .arr (forall_of_scanList (hnested item hitem) helements)
  split at h
  · obtain ⟨item, hitem, h⟩ := Option.bind_eq_some_iff.mp h
    obtain ⟨members, hmembers, heq⟩ := Option.map_eq_some_iff.mp h
    cases heq
    exact distinct_ofMembers
      (forall_of_scanList (distinct_of_scanMember (hnested item hitem)) hmembers)
  split at h
  · exact eq_of_scanWord h ▸ .bool true
  split at h
  · exact eq_of_scanWord h ▸ .bool false
  split at h
  · exact eq_of_scanWord h ▸ .null
  · obtain ⟨literal, rfl⟩ := eq_num_of_scanNumeric h
    exact .num literal

theorem distinct_of_scanValue (depth : ℕ) (text : Text) (value : Json) (left : Text)
    (h : scanValue d depth text = some (value, left)) : Distinct value := by
  induction depth generalizing text value left with
  | zero => exact distinct_of_scanValueWith (by simp) text value left h
  | succ depth ih =>
    apply distinct_of_scanValueWith _ text value left h
    intro item hitem
    cases hitem
    exact ih

/-- The objects that are read have distinct names. -/
theorem distinct_of_parse {text : Text} {value : Json} (h : parse d text = some value) :
    Distinct value := by
  obtain ⟨⟨value', left⟩, hscan, hend⟩ := Option.bind_eq_some_iff.mp h
  obtain ⟨_, heq⟩ := Option.ite_none_right_eq_some.mp hend
  cases heq
  exact distinct_of_scanValue d.maxDepth text value' left hscan

end Distinct

end EbpfPlayground.Json
