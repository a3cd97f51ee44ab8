import EbpfPlayground.Foundation.JsonText
import Mathlib.Data.List.TakeWhile

/-!
# The parts of Python that the BCC daemon uses

Exceptions, and what the operators do on values that `json.loads` returns.  Numbers keep their
literals, so what Python's own numbers say about them (whether one is zero, whether two are equal) is
a field of the interpreter, and so is the text of a value that is no string.
-/

namespace EbpfPlayground.Python

inductive PyError where
  | keyError
  | indexError
  | typeError
  | valueError
  | unboundLocalError
  | recursionError
  /-- An exception of a library. -/
  | other
  deriving DecidableEq

structure Interpreter where
  /-- How deep `json.loads` can nest. -/
  recursionLimit : ℕ
  numberOk : Text → Bool
  /-- The number is not zero. -/
  numberTruthy : Text → Bool
  numberEq : Text → Text → Bool
  /-- The number equals `True` or `False`. -/
  numberEqBool : Text → Bool → Bool
  /-- What stands for a lone surrogate, which a `str` can hold: a character that no text has itself. -/
  loneSurrogate : ℕ → Option Char
  /-- In a text that is not read: brackets nest too deep before anything else is wrong. -/
  tooDeep : Text → Bool
  /-- `str(value)` of a value that is no string. -/
  str : Json → Text

def Interpreter.dialect (py : Interpreter) : Json.Dialect where
  maxDepth := py.recursionLimit
  numberOk := py.numberOk
  nonFinite := true
  loneSurrogate := py.loneSurrogate

/-- `json.loads`; a `JSONDecodeError` is a `ValueError`. -/
def jsonLoads (py : Interpreter) (text : Text) : Except PyError Json :=
  match Json.parse py.dialect text with
  | some value => .ok value
  | none => .error (if py.tooDeep text then .recursionError else .valueError)

/-- The character stands for a lone surrogate. -/
def Interpreter.isSurrogate (py : Interpreter) (c : Char) : Bool :=
  (List.range 0x800).any fun n ↦ py.loneSurrogate (0xD800 + n) == some c

/-- `str.encode`: UTF-8, which has no bytes for a lone surrogate; a `UnicodeEncodeError` is a
`ValueError`. -/
def encode (py : Interpreter) (text : Text) : Except PyError (List UInt8) :=
  if text.any py.isSurrogate then .error .valueError else .ok (Text.asBytes text)

/-- What `%s` puts in for a value. -/
def format (py : Interpreter) : Json → Text
  | .str text => text
  | value => py.str value

/-- The truth value. -/
def truthy (py : Interpreter) : Json → Bool
  | .null => false
  | .bool value => value
  | .num literal => py.numberTruthy literal
  | .str text => !text.isEmpty
  | .arr elements => !elements.isEmpty
  | .obj members => !members.isEmpty

/-- `value[key]` with a `str`. -/
def getItem (value : Json) (key : Text) : Except PyError Json :=
  match value with
  | .obj members =>
    match members.lookup key with
    | some member => .ok member
    | none => .error .keyError
  | _ => .error .typeError

/-- `value[0]`. -/
def firstItem : Json → Except PyError Json
  | .arr (element :: _) => .ok element
  | .arr [] => .error .indexError
  | .str (c :: _) => .ok (.str [c])
  | .str [] => .error .indexError
  | .obj _ => .error .keyError
  | _ => .error .typeError

/-- `len(value)`. -/
def len : Json → Except PyError ℕ
  | .arr elements => .ok elements.length
  | .str text => .ok text.length
  | .obj members => .ok members.length
  | _ => .error .typeError

mutual
/-- `==`. -/
def equal (py : Interpreter) : Json → Json → Bool
  | .null, .null => true
  | .bool a, .bool b => a == b
  | .bool a, .num b => py.numberEqBool b a
  | .num a, .bool b => py.numberEqBool a b
  | .num a, .num b => py.numberEq a b
  | .str a, .str b => a == b
  | .arr as, .arr bs => equalElements py as bs
  | .obj as, .obj bs => as.length == bs.length && equalMembers py as bs
  | _, _ => false

def equalElements (py : Interpreter) : List Json → List Json → Bool
  | [], [] => true
  | a :: as, b :: bs => equal py a b && equalElements py as bs
  | _, _ => false

/-- Every member of the first is one of the second. -/
def equalMembers (py : Interpreter) : List (Text × Json) → List (Text × Json) → Bool
  | [], _ => true
  | (key, a) :: as, bs =>
    (match bs.lookup key with
      | some b => equal py a b
      | none => false) && equalMembers py as bs
end

/-- `needle in container`. -/
def contains (py : Interpreter) (needle container : Json) : Except PyError Bool :=
  match container, needle with
  | .arr elements, _ => .ok (elements.any (equal py · needle))
  | .str text, .str part => .ok (text.tails.any fun tail ↦ part.isPrefixOf tail)
  | .obj members, .str key => .ok (members.lookup key).isSome
  | .obj _, .arr _ => .error .typeError
  | .obj _, .obj _ => .error .typeError
  | .obj _, _ => .ok false
  | _, _ => .error .typeError

def isSpace (c : Char) : Bool := Text.isWhitespace c || (0x1C ≤ c.toNat && c.toNat ≤ 0x1F)

/-- Remove such characters at both ends. -/
def stripBy (p : Char → Bool) (text : Text) : Text :=
  ((text.dropWhile p).reverse.dropWhile p).reverse

/-- `str.strip()`. -/
def strip (text : Text) : Text := stripBy isSpace text

theorem stripBy_eq_nil {p : Char → Bool} {text : Text} :
    stripBy p text = [] ↔ ∀ c ∈ text, p c = true := by
  constructor
  · intro h
    rw [stripBy, List.reverse_eq_nil_iff, List.dropWhile_eq_nil_iff] at h
    have hall : text.dropWhile p = [] := by
      by_contra hne
      have hhead := List.head_dropWhile_not p hne
      have hmem : (text.dropWhile p).head hne ∈ (text.dropWhile p).reverse :=
        List.mem_reverse.mpr (List.head_mem hne)
      rw [h _ hmem] at hhead
      cases hhead
    exact List.dropWhile_eq_nil_iff.mp hall
  · intro h
    rw [stripBy, List.dropWhile_eq_nil_iff.mpr h]
    rfl

theorem stripBy_append {p : Char → Bool} {text ending : Text} (htext : ∀ c ∈ text, p c = false)
    (hending : ∀ c ∈ ending, p c = true) : stripBy p (text ++ ending) = text := by
  cases text with
  | nil => exact stripBy_eq_nil.mpr hending
  | cons first rest =>
    have hkeep : ∀ tail, (first :: rest ++ tail).dropWhile p = first :: rest ++ tail := by
      intro tail
      rw [List.cons_append, List.dropWhile_cons_of_neg]
      rw [htext first List.mem_cons_self]
      exact Bool.noConfusion
    rw [stripBy, hkeep, List.reverse_append, List.dropWhile_append_of_pos]
    · have hreverse : ∀ c ∈ (first :: rest).reverse, ¬ p c = true := by
        intro c hc
        rw [htext c (List.mem_reverse.mp hc)]
        exact Bool.noConfusion
      rw [List.dropWhile_eq_self_iff.mpr, List.reverse_reverse]
      exact fun hlength ↦ hreverse _ (List.getElem_mem hlength)
    · exact fun c hc ↦ hending c (List.mem_reverse.mp hc)

/-- `str.strip('\"')`. -/
def stripQuotes (text : Text) : Text := stripBy (· == '"') text

/-- `int(text)` for texts that are all decimal digits. -/
def parseInt (text : Text) : Except PyError ℕ :=
  if text ≠ [] ∧ text.all Char.isDigit then .ok (Text.decimalValue text) else .error .valueError

/-- `'..'.format(..)`, for a text whose only braces are `{}`. -/
def strFormat : Text → List Text → Except PyError Text
  | [], _ => .ok []
  | '\x7b' :: '\x7d' :: _, [] => .error .indexError
  | '\x7b' :: '\x7d' :: rest, value :: values => (strFormat rest values).map (value ++ ·)
  | c :: rest, values => (strFormat rest values).map (c :: ·)

/-- The places for values in such a text. -/
def placeholders : Text → ℕ
  | [] => 0
  | '\x7b' :: '\x7d' :: rest => placeholders rest + 1
  | _ :: rest => placeholders rest

/-- With fewer values than places, `format` raises; with enough of them, it does not. -/
theorem strFormat_cases (text : Text) (values : List Text) :
    (values.length < placeholders text → strFormat text values = .error .indexError) ∧
      (placeholders text ≤ values.length → ∃ result, strFormat text values = .ok result) := by
  fun_induction strFormat text values with
  | case1 values => exact ⟨fun h ↦ absurd h (Nat.not_lt_zero _), fun _ ↦ ⟨[], rfl⟩⟩
  | case2 rest => exact ⟨fun _ ↦ rfl, fun h ↦ absurd h (Nat.not_succ_le_zero _)⟩
  | case3 rest value values ih =>
    rw [placeholders, List.length_cons]
    refine ⟨fun h ↦ ?_, fun h ↦ ?_⟩
    · rw [ih.1 (Nat.lt_of_succ_lt_succ h)]
      rfl
    · obtain ⟨result, hresult⟩ := ih.2 (Nat.le_of_succ_le_succ h)
      rw [hresult]
      exact ⟨_, rfl⟩
  | case4 c rest values hnone hsome ih =>
    have hplaces : placeholders (c :: rest) = placeholders rest := by
      rw [placeholders]
      rintro rest' rfl rfl
      cases values with
      | nil => exact hnone _ rfl rfl rfl
      | cons value values => exact hsome _ _ _ rfl rfl rfl
    rw [hplaces]
    refine ⟨fun h ↦ ?_, fun h ↦ ?_⟩
    · rw [ih.1 h]
      rfl
    · obtain ⟨result, hresult⟩ := ih.2 h
      rw [hresult]
      exact ⟨_, rfl⟩

theorem encode_eq_ok {py : Interpreter} {text : Text} {bytes : List UInt8} :
    encode py text = .ok bytes ↔
      (∀ c ∈ text, py.isSurrogate c = false) ∧ Text.asBytes text = bytes := by
  have hany : text.any py.isSurrogate = false ↔ ∀ c ∈ text, py.isSurrogate c = false := by simp
  rw [encode, ← hany]
  cases text.any py.isSurrogate <;> simp

/-! ## Reading members -/

/-- A computation that succeeds succeeds in its first step. -/
theorem exists_of_bind_eq_ok {α β : Type} {x : Except PyError α} {f : α → Except PyError β}
    {result : β} (h : (x >>= f) = .ok result) : ∃ value, x = .ok value ∧ f value = .ok result := by
  cases x with
  | error e => cases h
  | ok value => exact ⟨value, rfl, h⟩

/-- The computation ends with an exception. -/
def Raises {α : Type} (x : Except PyError α) : Prop := ∃ e, x = .error e

theorem raises_error {α : Type} (e : PyError) : Raises (.error e : Except PyError α) := ⟨e, rfl⟩

theorem not_raises_ok {α : Type} (value : α) : ¬ Raises (.ok value : Except PyError α) := by
  rintro ⟨e, h⟩
  cases h

theorem raises_iff_not_exists {α : Type} {x : Except PyError α} :
    Raises x ↔ ¬ ∃ value, x = .ok value := by
  cases x with
  | error e => exact iff_of_true ⟨e, rfl⟩ nofun
  | ok value => exact iff_of_false (not_raises_ok value) (not_not_intro ⟨value, rfl⟩)

/-- An exception comes from the first step or, after it, from the rest. -/
theorem raises_bind {α β : Type} {x : Except PyError α} {f : α → Except PyError β} :
    Raises (x >>= f) ↔ Raises x ∨ ∃ value, x = .ok value ∧ Raises (f value) := by
  cases x with
  | error e => exact iff_of_true ⟨e, rfl⟩ (.inl ⟨e, rfl⟩)
  | ok value =>
    rw [or_iff_right (not_raises_ok value)]
    constructor
    · exact fun h ↦ ⟨value, rfl, h⟩
    · rintro ⟨_, ⟨⟩, h⟩
      exact h

theorem getItem_self (key : Text) (value : Json) (members : List (Text × Json)) :
    getItem (.obj ((key, value) :: members)) key = .ok value := by
  simp [getItem]

theorem getItem_of_ne {key key' : Text} (h : key ≠ key') (value : Json)
    (members : List (Text × Json)) :
    getItem (.obj ((key', value) :: members)) key = getItem (.obj members) key := by
  have hbeq : (key == key') = false := by simpa using h
  simp [getItem, List.lookup_cons, hbeq]

theorem jsonLoads_stringObject {py : Interpreter} (hdepth : 0 < py.recursionLimit)
    (members : List (Text × Text)) (hne : members ≠ []) (hnodup : (members.map Prod.fst).Nodup)
    (hprintable : ∀ m ∈ members, Json.Printable m.1 ∧ Json.Printable m.2) :
    jsonLoads py (Json.stringObject [] members) =
      .ok (.obj (members.map fun m ↦ (m.1, .str m.2))) := by
  rw [jsonLoads, Json.parse_stringObject hdepth (by simp) hne hnodup hprintable]

theorem jsonLoads_eq_ok {py : Interpreter} {text : Text} {value : Json} :
    jsonLoads py text = .ok value ↔ Json.parse py.dialect text = some value := by
  unfold jsonLoads
  cases Json.parse py.dialect text <;> simp

theorem getItem_eq_ok {value member : Json} {key : Text} :
    getItem value key = .ok member ↔
      ∃ members, value = .obj members ∧ members.lookup key = some member := by
  unfold getItem
  split
  · next members =>
    simp only [Json.obj.injEq, exists_eq_left']
    cases members.lookup key <;> simp
  · next hnot => exact iff_of_false nofun fun ⟨members, heq, _⟩ ↦ hnot members heq

/-- A message that is read as an object needs a reader that nests. -/
theorem recursionLimit_pos_of_getItem {py : Interpreter} {text key : Text} {json value : Json}
    (hloads : jsonLoads py text = .ok json) (hitem : getItem json key = .ok value) :
    0 < py.recursionLimit := by
  obtain ⟨members, rfl, -⟩ := getItem_eq_ok.mp hitem
  exact Json.maxDepth_pos_of_parse_obj (jsonLoads_eq_ok.mp hloads)

theorem contains_self (py : Interpreter) (text : Text) :
    contains py (.str text) (.str text) = .ok true := by
  have hself : text.tails.any (fun tail ↦ text.isPrefixOf tail) = true := by
    rw [List.any_eq_true]
    exact ⟨text, by simp, by simp⟩
  simp [contains, hself]

end EbpfPlayground.Python
