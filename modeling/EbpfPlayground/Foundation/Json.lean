import EbpfPlayground.Foundation.Hex

/-!
# JSON values and their texts

A value keeps the members of an object in text order with distinct names; the last of several
members with one name wins, as in `serde_json`, Python's `json` and Go's `encoding/json`.  Numbers
keep their literal.  The reader follows the grammar of JSON character by character.  What differs
between decoders is a `Dialect`: how deep brackets may nest, which number literals the host's
number type can hold, whether the non-finite constants are read, and what becomes of an escaped
lone surrogate.
-/

namespace EbpfPlayground

inductive Json where
  | null
  | bool (value : Bool)
  | num (literal : Text)
  | str (value : Text)
  | arr (elements : List Json)
  | obj (members : List (Text × Json))

namespace Json

/-! ## Values -/

mutual
/-- The equality test behind `DecidableEq`. -/
def beq : Json → Json → Bool
  | null, null => true
  | bool a, bool b => a == b
  | num a, num b => a == b
  | str a, str b => a == b
  | arr a, arr b => beqElements a b
  | obj a, obj b => beqMembers a b
  | _, _ => false

def beqElements : List Json → List Json → Bool
  | [], [] => true
  | a :: as, b :: bs => beq a b && beqElements as bs
  | _, _ => false

def beqMembers : List (Text × Json) → List (Text × Json) → Bool
  | [], [] => true
  | (k, a) :: as, (k', b) :: bs => k == k' && beq a b && beqMembers as bs
  | _, _ => false
end

mutual
theorem beq_iff : ∀ a b : Json, beq a b = true ↔ a = b
  | null, b => by cases b <;> simp [beq]
  | bool a, b => by cases b <;> simp [beq]
  | num a, b => by cases b <;> simp [beq]
  | str a, b => by cases b <;> simp [beq]
  | arr a, b => by cases b <;> simp [beq, beqElements_iff a]
  | obj a, b => by cases b <;> simp [beq, beqMembers_iff a]

theorem beqElements_iff : ∀ as bs : List Json, beqElements as bs = true ↔ as = bs
  | [], bs => by cases bs <;> simp [beqElements]
  | a :: as, bs => by cases bs <;> simp [beqElements, beq_iff a, beqElements_iff as]

theorem beqMembers_iff : ∀ as bs : List (Text × Json), beqMembers as bs = true ↔ as = bs
  | [], bs => by cases bs <;> simp [beqMembers]
  | (k, a) :: as, bs => by
    cases bs with
    | nil => simp [beqMembers]
    | cons b bs =>
      obtain ⟨k', b⟩ := b
      simp [beqMembers, beq_iff a, beqMembers_iff as, and_assoc]
end
instance : DecidableEq Json := fun a b ↦ decidable_of_iff _ (beq_iff a b)

/-- The member with this name, of an object. -/
def get (key : Text) : Json → Option Json
  | obj members => members.lookup key
  | _ => none

/-- Indexing by a name: `null` where there is no such member. -/
def index (value : Json) (key : Text) : Json := (value.get key).getD null

def asStr : Json → Option Text
  | str value => some value
  | _ => none

def asArr : Json → Option (List Json)
  | arr elements => some elements
  | _ => none

/-- Replace the value under a name that is present, else add the member at the end. -/
def setMember (members : List (Text × Json)) (key : Text) (value : Json) : List (Text × Json) :=
  match members with
  | [] => [(key, value)]
  | (key', value') :: rest =>
    if key' = key then (key, value) :: rest else (key', value') :: setMember rest key value

/-- The object with the listed members, the last of equal names winning. -/
def ofMembers (pairs : List (Text × Json)) : Json :=
  obj (pairs.foldl (fun members pair ↦ setMember members pair.1 pair.2) [])

theorem lookup_setMember (members : List (Text × Json)) (key key' : Text) (value : Json) :
    (setMember members key value).lookup key' =
      if key' = key then some value else members.lookup key' := by
  induction members with
  | nil =>
    by_cases h : key' = key
    · simp [setMember, h]
    · have hbeq : (key' == key) = false := by simpa using h
      simp [setMember, List.lookup_cons, h, hbeq]
  | cons member members ih =>
    obtain ⟨name, old⟩ := member
    by_cases hname : name = key
    · subst hname
      by_cases h : key' = name
      · simp [setMember, h]
      · have hbeq : (key' == name) = false := by simpa using h
        simp [setMember, List.lookup_cons, h, hbeq]
    · rw [setMember, if_neg hname]
      by_cases h : key' = name
      · subst h
        simp [hname]
      · have hbeq : (key' == name) = false := by simpa using h
        simp only [List.lookup_cons, hbeq]
        exact ih

/-! ## Decoders -/

/-- What differs between JSON decoders. -/
structure Dialect where
  maxDepth : ℕ
  numberOk : Text → Bool
  nonFinite : Bool
  loneSurrogate : ℕ → Option Char

/-- A scanner takes a value from the front of a text and leaves the rest. -/
abbrev Scanner (α : Type) := Text → Option (α × Text)

def isWs (c : Char) : Bool := c == ' ' || c == '\t' || c == '\n' || c == '\r'

def skipWs (text : Text) : Text := text.dropWhile isWs

def stripPrefix : Text → Text → Option Text
  | [], text => some text
  | _ :: _, [] => none
  | p :: ps, c :: text => if p = c then stripPrefix ps text else none

/-! ### Strings -/

/-- A piece of a string literal: a character, or the number of a `\u` escape. -/
inductive StringPiece where
  | char (c : Char)
  | code (n : ℕ)

/-- Where the reader stands inside a string literal. -/
inductive StringState where
  | plain
  | escape
  | hex (left acc : ℕ)

/-- The character that a one-letter escape stands for. -/
def escapedChar (c : Char) : Option Char :=
  if c = '"' then some '"' else if c = '\\' then some '\\' else if c = '/' then some '/'
  else if c = 'b' then some '\x08' else if c = 'f' then some '\x0c' else if c = 'n' then some '\n'
  else if c = 'r' then some '\r' else if c = 't' then some '\t' else none

/-- The pieces up to the closing quote. -/
def scanPieces : StringState → Scanner (List StringPiece)
  | _, [] => none
  | .plain, c :: rest =>
    if c = '"' then some ([], rest)
    else if c = '\\' then scanPieces .escape rest
    else if c.toNat < 0x20 then none
    else (scanPieces .plain rest).map (Prod.map (.char c :: ·) id)
  | .escape, c :: rest =>
    if c = 'u' then scanPieces (.hex 3 0) rest
    else (escapedChar c).bind fun e ↦ (scanPieces .plain rest).map (Prod.map (.char e :: ·) id)
  | .hex left acc, c :: rest =>
    (Hex.digitValue c).bind fun digit ↦
      match left with
      | 0 => (scanPieces .plain rest).map (Prod.map (.code (16 * acc + digit) :: ·) id)
      | left + 1 => scanPieces (.hex left (16 * acc + digit)) rest

/-- Join the pieces, two escapes of a surrogate pair making one character. -/
def joinPieces (lone : ℕ → Option Char) : List StringPiece → Option Text
  | [] => some []
  | .char c :: rest => (joinPieces lone rest).map (c :: ·)
  | .code high :: .code low :: rest =>
    if 0xD800 ≤ high ∧ high < 0xDC00 ∧ 0xDC00 ≤ low ∧ low < 0xE000 then
      (joinPieces lone rest).map
        (Char.ofNat (0x10000 + (high - 0xD800) * 0x400 + (low - 0xDC00)) :: ·)
    else (single high).bind fun c ↦ (joinPieces lone (.code low :: rest)).map (c :: ·)
  | .code n :: rest => (single n).bind fun c ↦ (joinPieces lone rest).map (c :: ·)
where
  single (n : ℕ) : Option Char :=
    if 0xD800 ≤ n ∧ n < 0xE000 then lone n else some (Char.ofNat n)

/-- A string literal after its opening quote. -/
def scanString (d : Dialect) : Scanner Text := fun text ↦
  (scanPieces .plain text).bind fun result ↦
    (joinPieces d.loneSurrogate result.1).map (·, result.2)

/-! ### Numbers -/

/-- The states of the number grammar `-? int frac? exp?`. -/
inductive NumberState where
  | start | minus | zero | int | dot | frac | exp | expSign | expInt

def NumberState.accepting : NumberState → Bool
  | zero | int | frac | expInt => true
  | _ => false

def NumberState.next : NumberState → Char → Option NumberState
  | .start, c => if c = '-' then some .minus else leading c
  | .minus, c => leading c
  | .zero, c => fraction c
  | .int, c => if c.isDigit then some .int else fraction c
  | .dot, c => if c.isDigit then some .frac else none
  | .frac, c => if c.isDigit then some .frac else exponent c
  | .exp, c => if c = '+' ∨ c = '-' then some .expSign else if c.isDigit then some .expInt else none
  | .expSign, c => if c.isDigit then some .expInt else none
  | .expInt, c => if c.isDigit then some .expInt else none
where
  leading (c : Char) : Option NumberState :=
    if c = '0' then some .zero else if c.isDigit then some .int else none
  exponent (c : Char) : Option NumberState := if c = 'e' ∨ c = 'E' then some .exp else none
  fraction (c : Char) : Option NumberState := if c = '.' then some .dot else exponent c

/-- The longest number literal. -/
def scanNumber : NumberState → Scanner Text
  | state, [] => if state.accepting then some ([], []) else none
  | state, c :: rest =>
    match state.next c with
    | some state' => (scanNumber state' rest).map (Prod.map (c :: ·) id)
    | none => if state.accepting then some ([], c :: rest) else none

/-! ### Values -/

/-- A constant word at the front of the text. -/
def scanWord (word : Text) (value : Json) : Scanner Json := fun text ↦
  (stripPrefix word text).map (value, ·)

def scanNumberValue (d : Dialect) : Scanner Json := fun text ↦
  (scanNumber .start text).bind fun result ↦
    if d.numberOk result.1 then some (num result.1, result.2) else none

/-- A number, or one of the words that some decoders read as numbers. -/
def scanNumeric (d : Dialect) : Scanner Json := fun text ↦
  match d.nonFinite, text with
  | true, 'N' :: _ => scanWord "NaN".toList (num "NaN".toList) text
  | true, 'I' :: _ => scanWord "Infinity".toList (num "Infinity".toList) text
  | true, '-' :: 'I' :: _ => scanWord "-Infinity".toList (num "-Infinity".toList) text
  | _, _ => scanNumberValue d text

/-- Items separated by commas up to the closing bracket; every item costs one unit of fuel. -/
def scanItems {α : Type} (item : Scanner α) (close : Char) : ℕ → Scanner (List α)
  | 0, _ => none
  | fuel + 1, text =>
    (item text).bind fun result ↦
      match skipWs result.2 with
      | [] => none
      | c :: rest =>
        if c = close then some ([result.1], rest)
        else if c = ',' then (scanItems item close fuel rest).map (Prod.map (result.1 :: ·) id)
        else none

/-- A bracketed list after its opening bracket. -/
def scanList {α : Type} (item : Scanner α) (close : Char) : Scanner (List α) := fun text ↦
  match skipWs text with
  | [] => none
  | c :: rest =>
    if c = close then some ([], rest) else scanItems item close (c :: rest).length (c :: rest)

/-- A name, a colon and a value. -/
def scanMember (d : Dialect) (item : Scanner Json) : Scanner (Text × Json) := fun text ↦
  match skipWs text with
  | [] => none
  | quote :: rest =>
    if quote = '"' then
      (scanString d rest).bind fun name ↦
        match skipWs name.2 with
        | [] => none
        | colon :: rest' =>
          if colon = ':' then (item rest').map fun value ↦ ((name.1, value.1), value.2) else none
    else none

/-- A value; `nested` reads what stands inside brackets, unless they are too deep. -/
def scanValueWith (d : Dialect) (nested : Option (Scanner Json)) : Scanner Json := fun text ↦
  match skipWs text with
  | [] => none
  | c :: rest =>
    if c = '"' then (scanString d rest).map (Prod.map str id)
    else if c = '[' then
      nested.bind fun item ↦ (scanList item ']' rest).map (Prod.map arr id)
    else if c = '{' then
      nested.bind fun item ↦ (scanList (scanMember d item) '}' rest).map (Prod.map ofMembers id)
    else if c = 't' then scanWord "true".toList (bool true) (c :: rest)
    else if c = 'f' then scanWord "false".toList (bool false) (c :: rest)
    else if c = 'n' then scanWord "null".toList null (c :: rest)
    else scanNumeric d (c :: rest)

/-- A value with brackets nested at most `depth` deep. -/
def scanValue (d : Dialect) : ℕ → Scanner Json
  | 0 => scanValueWith d none
  | depth + 1 => scanValueWith d (some (scanValue d depth))

/-- A text that is one value, with white space around it. -/
def parse (d : Dialect) (text : Text) : Option Json :=
  (scanValue d d.maxDepth text).bind fun result ↦
    if skipWs result.2 = [] then some result.1 else none

end Json

end EbpfPlayground
