import EbpfPlayground.Foundation.JsonText
import Mathlib.Data.List.TakeWhile

/-!
# Texts that are no document

A decoder reads a document to its end or not at all.  Three slips are followed to the end here: a
control character inside a string, a string literal that is followed by neither a comma nor a closing
brace, and a closing brace that is followed by an opening one.  In the last case no scanner gets past
the two braces, unless a string literal hides them.
-/

namespace EbpfPlayground.Json

variable {α : Type} {d : Dialect}

/-- Whatever the scanner reads, it leaves more than white space. -/
def Rejects (scan : Scanner α) (text : Text) : Prop :=
  ∀ value left, scan text = some (value, left) → skipWs left ≠ []

theorem rejects_of_eq_none {scan : Scanner α} {text : Text} (h : scan text = none) :
    Rejects scan text := by
  intro value left hvalue
  rw [h] at hvalue
  cases hvalue

theorem parse_eq_none_of_rejects {text : Text} (h : Rejects (scanValue d d.maxDepth) text) :
    parse d text = none := by
  rw [parse]
  cases hscan : scanValue d d.maxDepth text with
  | none => rfl
  | some result => exact if_neg (h result.1 result.2 hscan)

/-! ## Objects whose members go wrong -/

/-- A later member goes wrong. -/
theorem rejects_scanItems_of_reads {item : Scanner α} {text : Text} {value : α}
    (h : Reads item text value) {rest : Text}
    (hrest : ∀ fuel, Rejects (scanItems item '}' fuel) rest) (fuel : ℕ) :
    Rejects (scanItems item '}' fuel) (text ++ ',' :: rest) := by
  intro values left hvalues
  obtain ⟨fuel', others, hothers, -⟩ := exists_of_scanItems_reads h hvalues
  exact hrest fuel' others left hothers

theorem rejects_obj {depth : ℕ} {text : Text}
    (h : ∀ fuel, Rejects (scanItems (scanMember d (scanValue d depth)) '}' fuel) ('"' :: text)) :
    Rejects (scanValue d (depth + 1)) ('\x7b' :: '"' :: text) := by
  intro value left hvalue
  rw [scanValue, scanValueWith, skipWs_cons_of_not_ws rfl] at hvalue
  obtain ⟨⟨members, left'⟩, hmembers, heq⟩ := Option.map_eq_some_iff.mp hvalue
  obtain rfl : left' = left := (Prod.mk.inj heq).2
  rw [scanList, skipWs_cons_of_not_ws rfl] at hmembers
  exact h _ members left' hmembers

/-- An object whose members go wrong is no document. -/
theorem parse_obj_eq_none {text : Text} (h : ∀ depth fuel,
    Rejects (scanItems (scanMember d (scanValue d depth)) '}' fuel) ('"' :: text)) :
    parse d ('\x7b' :: '"' :: text) = none := by
  apply parse_eq_none_of_rejects
  cases d.maxDepth with
  | zero => exact rejects_of_eq_none rfl
  | succ depth => exact rejects_obj (h depth)

/-- The item reads what follows the member's name. -/
theorem scanMember_quote {gap key : Text} (hgap : ∀ c ∈ gap, isWs c = true) (hkey : Printable key)
    (item : Scanner Json) (text : Text) :
    scanMember d item (gap ++ quote key ++ ':' :: text) =
      (item text).map fun value ↦ ((key, value.1), value.2) := by
  have hskip : skipWs gap = [] := List.dropWhile_eq_nil_iff.mpr hgap
  rw [← (skipsWs_scanMember _).skipWs_eq, List.append_assoc, skipWs_append_of_eq_nil hskip,
    (skipsWs_scanMember _).skipWs_eq, quote_append, scanMember, skipWs_cons_of_not_ws rfl]
  dsimp only
  rw [if_pos rfl, scanString_escaped hkey, Option.bind_some, skipWs_cons_of_not_ws rfl]
  dsimp only
  rw [if_pos rfl]

/-- A string is read up to its end. -/
theorem scanValue_string (depth : ℕ) (text : Text) :
    scanValue d depth (' ' :: '"' :: text) = (scanString d text).map (Prod.map str id) := by
  cases depth <;>
    rw [scanValue, scanValueWith, skipWs_cons_of_ws rfl, skipWs_cons_of_not_ws rfl] <;> rfl

theorem scanItems_eq_none_of_string {gap key : Text} (hgap : ∀ c ∈ gap, isWs c = true)
    (hkey : Printable key) {text : Text}
    (h : ∀ value left, scanString d text = some (value, left) →
      ∃ c rest, left = c :: rest ∧ isWs c = false ∧ c ≠ '}' ∧ c ≠ ',') (depth fuel : ℕ) :
    scanItems (scanMember d (scanValue d depth)) '}' fuel
      (gap ++ quote key ++ ':' :: ' ' :: '"' :: text) = none := by
  cases fuel with
  | zero => rfl
  | succ fuel =>
    rw [scanItems, scanMember_quote hgap hkey, scanValue_string]
    cases hstring : scanString d text with
    | none => rfl
    | some result =>
      obtain ⟨c, rest, hleft, hws, hclose, hcomma⟩ := h result.1 result.2 hstring
      rw [Option.map_some, Option.map_some, Option.bind_some]
      dsimp only [Prod.map, id]
      rw [hleft, skipWs_cons_of_not_ws hws]
      dsimp only
      rw [if_neg hclose, if_neg hcomma]

/-! ## Control characters -/

/-- No string literal is read over a control character, unless it ends before. -/
theorem scanPieces_eq_none_of_control {text : Text} (hquote : '"' ∉ text) (hback : '\\' ∉ text)
    (hcontrol : ¬ Printable text) (rest : Text) : scanPieces .plain (text ++ rest) = none := by
  induction text with
  | nil => exact absurd (fun _ hc ↦ absurd hc List.not_mem_nil) hcontrol
  | cons c text ih =>
    rw [List.mem_cons, not_or] at hquote hback
    rw [List.cons_append, scanPieces, if_neg (Ne.symm hquote.1), if_neg (Ne.symm hback.1)]
    by_cases hsmall : c.toNat < 0x20
    · exact if_pos hsmall
    · have htext : ¬ Printable text := by
        intro hprintable
        exact hcontrol (List.forall_mem_cons.mpr ⟨Nat.le_of_not_lt hsmall, hprintable⟩)
      rw [if_neg hsmall, ih hquote.2 hback.2 htext]
      rfl

/-! ## Braces back to back -/

/-- The text goes on with a closing brace, without a quote before it. -/
def ClosesBefore (tail text : Text) : Prop := ∃ front, '"' ∉ front ∧ text = front ++ '}' :: tail

theorem closesBefore_append {front : Text} (h : '"' ∉ front) (tail : Text) :
    ClosesBefore tail (front ++ '}' :: tail) := ⟨front, h, rfl⟩

theorem ClosesBefore.cons_cases {tail text : Text} {c : Char} (h : ClosesBefore tail (c :: text)) :
    c = '}' ∧ text = tail ∨ c ≠ '"' ∧ ClosesBefore tail text := by
  obtain ⟨front, hquote, heq⟩ := h
  cases front with
  | nil => exact .inl (List.cons.inj heq)
  | cons c' front =>
    rw [List.mem_cons, not_or] at hquote
    obtain ⟨rfl, rfl⟩ := List.cons.inj heq
    exact .inr ⟨Ne.symm hquote.1, closesBefore_append hquote.2 tail⟩

theorem ClosesBefore.ne_quote {tail text : Text} {c : Char} (h : ClosesBefore tail (c :: text)) :
    c ≠ '"' := by
  rcases h.cons_cases with hclose | hfront
  · rw [hclose.1]
    decide
  · exact hfront.1

theorem ClosesBefore.skipWs {tail text : Text} (h : ClosesBefore tail text) :
    ClosesBefore tail (skipWs text) := by
  induction text with
  | nil => exact h
  | cons c text ih =>
    cases hc : isWs c with
    | false => rwa [skipWs_cons_of_not_ws hc]
    | true =>
      rw [skipWs_cons_of_ws hc]
      rcases h.cons_cases with hclose | hfront
      · rw [hclose.1] at hc
        cases hc
      · exact ih hfront.2

theorem ClosesBefore.skipWs_ne_nil {tail text : Text} (h : ClosesBefore tail text) :
    Json.skipWs text ≠ [] := by
  obtain ⟨front, -, heq⟩ := h.skipWs
  rw [heq]
  simp

/-- In front of the brace the scanner stays in front of it, or it ends right behind it. -/
def StaysBefore (tail : Text) (scan : Scanner α) : Prop :=
  ∀ text, ClosesBefore tail text → ∀ value left, scan text = some (value, left) →
    ClosesBefore tail left ∨ left = tail

theorem stripPrefix_staysBefore {tail word text left : Text} (hword : '}' ∉ word)
    (htext : ClosesBefore tail text) (h : stripPrefix word text = some left) :
    ClosesBefore tail left := by
  induction word generalizing text with
  | nil =>
    obtain rfl : text = left := Option.some.inj h
    exact htext
  | cons p word ih =>
    rw [List.mem_cons, not_or] at hword
    cases text with
    | nil => cases h
    | cons c text =>
      rw [stripPrefix] at h
      split at h
      · next hpc =>
        rcases htext.cons_cases with hclose | hfront
        · exact absurd (hpc.trans hclose.1).symm hword.1
        · exact ih hword.2 hfront.2 h
      · cases h

theorem staysBefore_scanWord {tail word : Text} {value : Json} (hword : '}' ∉ word) :
    StaysBefore tail (scanWord word value) := by
  intro text htext value' left h
  obtain ⟨left', hleft, heq⟩ := Option.map_eq_some_iff.mp h
  obtain rfl : left' = left := (Prod.mk.inj heq).2
  exact .inl (stripPrefix_staysBefore hword htext hleft)

theorem scanNumber_staysBefore {tail : Text} (state : NumberState) {text literal left : Text}
    (htext : ClosesBefore tail text) (h : scanNumber state text = some (literal, left)) :
    ClosesBefore tail left := by
  induction text generalizing state literal with
  | nil =>
    obtain ⟨front, -, heq⟩ := htext
    simp at heq
  | cons c text ih =>
    rw [scanNumber] at h
    split at h
    · next state' hnext =>
      obtain ⟨⟨digits, left'⟩, hdigits, heq⟩ := Option.map_eq_some_iff.mp h
      obtain rfl : left' = left := (Prod.mk.inj heq).2
      rcases htext.cons_cases with hclose | hfront
      · rw [next_eq_none_of_delimiter state (.inr (.inr (.inr hclose.1)))] at hnext
        cases hnext
      · exact ih state' hfront.2 hdigits
    · obtain ⟨-, heq⟩ := Option.ite_none_right_eq_some.mp h
      obtain rfl : c :: text = left := (Prod.mk.inj (Option.some.inj heq)).2
      exact htext

theorem staysBefore_scanNumeric {tail : Text} : StaysBefore tail (scanNumeric d) := by
  intro text htext value left h
  unfold scanNumeric at h
  split at h
  · exact staysBefore_scanWord (by decide) _ htext _ _ h
  · exact staysBefore_scanWord (by decide) _ htext _ _ h
  · exact staysBefore_scanWord (by decide) _ htext _ _ h
  · obtain ⟨⟨literal, left'⟩, hliteral, hok⟩ := Option.bind_eq_some_iff.mp h
    obtain ⟨-, heq⟩ := Option.ite_none_right_eq_some.mp hok
    obtain rfl : left' = left := (Prod.mk.inj (Option.some.inj heq)).2
    exact .inl (scanNumber_staysBefore .start htext hliteral)

/-- The elements of an array do not go on behind the brace. -/
theorem staysBefore_scanItems {item : Scanner α} {rest : Text}
    (hitem : StaysBefore ('\x7b' :: rest) item) (fuel : ℕ) :
    StaysBefore ('\x7b' :: rest) (scanItems item ']' fuel) := by
  induction fuel with
  | zero =>
    intro text _ value left h
    cases h
  | succ fuel ih =>
    intro text htext values left h
    obtain ⟨⟨value, between⟩, hvalue, h⟩ := Option.bind_eq_some_iff.mp h
    dsimp only at h
    rcases hitem text htext value between hvalue with hbefore | rfl
    · have hskip := hbefore.skipWs
      split at h
      · cases h
      · next c next heq =>
        rw [heq] at hskip
        split at h
        · next hclose =>
          obtain rfl : next = left := (Prod.mk.inj (Option.some.inj h)).2
          rcases hskip.cons_cases with hbrace | hfront
          · rw [hbrace.1] at hclose
            cases hclose
          · exact .inl hfront.2
        · split at h
          · next hcomma =>
            obtain ⟨⟨others, left'⟩, hothers, heq'⟩ := Option.map_eq_some_iff.mp h
            obtain rfl : left' = left := (Prod.mk.inj heq').2
            rcases hskip.cons_cases with hbrace | hfront
            · rw [hbrace.1] at hcomma
              cases hcomma
            · exact ih next hfront.2 others left' hothers
          · cases h
    · rw [skipWs_cons_of_not_ws rfl] at h
      cases h

/-- No member of an object starts without a quote. -/
theorem scanMember_eq_none {tail text : Text} (h : ClosesBefore tail text) (item : Scanner Json) :
    scanMember d item text = none := by
  rw [scanMember]
  have hskip := h.skipWs
  split
  · rfl
  · next quote rest heq =>
    rw [heq] at hskip
    exact if_neg hskip.ne_quote

theorem scanItems_scanMember_eq_none {tail text : Text} (h : ClosesBefore tail text)
    (item : Scanner Json) (fuel : ℕ) : scanItems (scanMember d item) '}' fuel text = none := by
  cases fuel with
  | zero => rfl
  | succ fuel =>
    rw [scanItems, scanMember_eq_none h]
    rfl

/-- Only the empty object takes the brace itself. -/
theorem staysBefore_scanList_scanMember {tail : Text} (item : Scanner Json) :
    StaysBefore tail (scanList (scanMember d item) '}') := by
  intro text htext values left h
  rw [scanList] at h
  have hskip := htext.skipWs
  split at h
  · cases h
  · next c next heq =>
    rw [heq] at hskip
    split at h
    · obtain rfl : next = left := (Prod.mk.inj (Option.some.inj h)).2
      rcases hskip.cons_cases with hbrace | hfront
      · exact .inr hbrace.2
      · exact .inl hfront.2
    · rw [scanItems_scanMember_eq_none hskip] at h
      cases h

theorem staysBefore_scanList {item : Scanner α} {rest : Text}
    (hitem : StaysBefore ('\x7b' :: rest) item) :
    StaysBefore ('\x7b' :: rest) (scanList item ']') := by
  intro text htext values left h
  rw [scanList] at h
  have hskip := htext.skipWs
  split at h
  · cases h
  · next c next heq =>
    rw [heq] at hskip
    split at h
    · next hclose =>
      obtain rfl : next = left := (Prod.mk.inj (Option.some.inj h)).2
      rcases hskip.cons_cases with hbrace | hfront
      · rw [hbrace.1] at hclose
        cases hclose
      · exact .inl hfront.2
    · exact staysBefore_scanItems hitem _ _ hskip values left h

theorem staysBefore_scanValueWith {nested : Option (Scanner Json)} {rest : Text}
    (hnested : ∀ item ∈ nested, StaysBefore ('\x7b' :: rest) item) :
    StaysBefore ('\x7b' :: rest) (scanValueWith d nested) := by
  intro text htext value left h
  unfold scanValueWith at h
  have hskip := htext.skipWs
  split at h
  · cases h
  next c next heq =>
  rw [heq] at hskip
  split at h
  · next hquote => exact absurd hquote hskip.ne_quote
  split at h
  · next hopen =>
    obtain ⟨item, hitem, h⟩ := Option.bind_eq_some_iff.mp h
    obtain ⟨⟨elements, left'⟩, helements, heq'⟩ := Option.map_eq_some_iff.mp h
    obtain rfl : left' = left := (Prod.mk.inj heq').2
    rcases hskip.cons_cases with hbrace | hfront
    · rw [hbrace.1] at hopen
      cases hopen
    · exact staysBefore_scanList (hnested item hitem) next hfront.2 elements left' helements
  split at h
  · next hopen =>
    obtain ⟨item, hitem, h⟩ := Option.bind_eq_some_iff.mp h
    obtain ⟨⟨members, left'⟩, hmembers, heq'⟩ := Option.map_eq_some_iff.mp h
    obtain rfl : left' = left := (Prod.mk.inj heq').2
    rcases hskip.cons_cases with hbrace | hfront
    · rw [hbrace.1] at hopen
      cases hopen
    · exact staysBefore_scanList_scanMember item next hfront.2 members left' hmembers
  split at h
  · exact staysBefore_scanWord (by decide) _ hskip value left h
  split at h
  · exact staysBefore_scanWord (by decide) _ hskip value left h
  split at h
  · exact staysBefore_scanWord (by decide) _ hskip value left h
  · exact staysBefore_scanNumeric _ hskip value left h

theorem staysBefore_scanValue (rest : Text) (depth : ℕ) :
    StaysBefore ('\x7b' :: rest) (scanValue d depth) := by
  induction depth with
  | zero =>
    apply staysBefore_scanValueWith
    intro item hitem
    cases hitem
  | succ depth ih =>
    apply staysBefore_scanValueWith
    intro item hitem
    obtain rfl := Option.some.inj hitem
    exact ih

/-- An object that is closed and followed by an opening brace. -/
theorem rejects_scanItems_of_closesBefore {gap key : Text} (hgap : ∀ c ∈ gap, isWs c = true)
    (hkey : Printable key) {rest text : Text} (h : ClosesBefore ('\x7b' :: rest) text)
    (depth fuel : ℕ) :
    Rejects (scanItems (scanMember d (scanValue d depth)) '}' fuel)
      (gap ++ quote key ++ ':' :: text) := by
  cases fuel with
  | zero => exact rejects_of_eq_none rfl
  | succ fuel =>
    intro values left hvalues
    obtain ⟨⟨member, between⟩, hmember, hvalues⟩ := Option.bind_eq_some_iff.mp hvalues
    rw [scanMember_quote hgap hkey] at hmember
    obtain ⟨⟨value, left'⟩, hvalue, heq⟩ := Option.map_eq_some_iff.mp hmember
    obtain rfl : left' = between := (Prod.mk.inj heq).2
    dsimp only at hvalues
    rcases staysBefore_scanValue rest depth text h value left' hvalue with hbefore | rfl
    · have hskip' := hbefore.skipWs
      split at hvalues
      · cases hvalues
      · next c next hc =>
        rw [hc] at hskip'
        split at hvalues
        · obtain rfl : next = left := (Prod.mk.inj (Option.some.inj hvalues)).2
          rcases hskip'.cons_cases with hbrace | hfront
          · rw [hbrace.2, skipWs_cons_of_not_ws rfl]
            exact List.cons_ne_nil _ _
          · exact hfront.2.skipWs_ne_nil
        · split at hvalues
          · next hcomma =>
            rcases hskip'.cons_cases with hbrace | hfront
            · rw [hbrace.1] at hcomma
              cases hcomma
            · rw [scanItems_scanMember_eq_none hfront.2] at hvalues
              cases hvalues
          · cases hvalues
    · rw [skipWs_cons_of_not_ws rfl] at hvalues
      cases hvalues

end EbpfPlayground.Json
