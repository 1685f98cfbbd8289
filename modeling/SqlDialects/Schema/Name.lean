import SqlDialects.Schema.Scan

/-!
# Names in statements

A name stands plainly or between double quotes, backquotes or brackets; inside double quotes a quote is
written twice. Two readers of names differ in what they take for a plain name: the one that finds where a
name ends takes every word character and the dollar sign (`takeName`), the one that says what a name is
takes those of ASCII only (`leadingName`).
-/

set_option autoImplicit false

namespace SqlDialects.Schema

open Text

/-! ## What a name is -/

/-- The name between double quotes, the first of which has been read, and the text after the second. -/
def closeQuoted : List Char → Option (List Char × List Char)
  | [] => none
  | '"' :: '"' :: cs => (closeQuoted cs).map (fun r => ('"' :: r.1, r.2))
  | '"' :: cs => some ([], cs)
  | c :: cs => (closeQuoted cs).map (fun r => (c :: r.1, r.2))

/-- The text up to a closing character and the text after it. -/
def closeAt (close : Char) : List Char → Option (List Char × List Char)
  | [] => none
  | c :: cs => if c = close then some ([], cs) else (closeAt close cs).map (fun r => (c :: r.1, r.2))

/-- Whether a character may stand in a plain name. -/
def isPlainNameChar (c : Char) : Bool := isPlainWordChar c || c == '$'

/-- The name at the start of a text, after blanks, and the text after it. A plain name is not empty, one
between quotes may be. -/
def leadingName (cs : List Char) : Option (List Char × List Char) :=
  match trimStart cs with
  | '"' :: cs => closeQuoted cs
  | '\x60' :: cs => closeAt '\x60' cs
  | '[' :: cs => closeAt ']' cs
  | cs =>
    match cs.takeWhile isPlainNameChar with
    | [] => none
    | c :: name => some (c :: name, cs.dropWhile isPlainNameChar)

/-- Reading up to a closing quote consumes at least the quote. -/
theorem length_closeQuoted {cs name rest : List Char} (h : closeQuoted cs = some (name, rest)) :
    rest.length < cs.length := by
  fun_induction closeQuoted cs generalizing name with
  | case1 => simp at h
  | case2 cs ih =>
    simp only [Option.map_eq_some_iff, Prod.mk.injEq, Prod.exists] at h
    obtain ⟨_, r, hr, _, rfl⟩ := h
    have := ih hr
    simp only [List.length_cons]
    omega
  | case3 cs _ => simp at h; simp [h.2]
  | case4 c cs _ _ ih =>
    simp only [Option.map_eq_some_iff, Prod.mk.injEq, Prod.exists] at h
    obtain ⟨_, r, hr, _, rfl⟩ := h
    have := ih hr
    simp only [List.length_cons]
    omega

/-- Reading up to a closing character consumes at least that character. -/
theorem length_closeAt {close : Char} {cs name rest : List Char}
    (h : closeAt close cs = some (name, rest)) : rest.length < cs.length := by
  induction cs generalizing name with
  | nil => simp [closeAt] at h
  | cons c cs ih =>
    unfold closeAt at h
    split at h
    · simp at h; simp [h.2]
    · simp only [Option.map_eq_some_iff, Prod.mk.injEq, Prod.exists] at h
      obtain ⟨_, r, hr, _, rfl⟩ := h
      have := ih hr
      simp only [List.length_cons]
      omega

/-- What follows a name is no longer than the text that begins with it. -/
theorem length_leadingName {cs name rest : List Char} (h : leadingName cs = some (name, rest)) :
    rest.length ≤ cs.length := by
  have start := length_trimStart_le cs
  unfold leadingName at h
  split at h
  · have := length_closeQuoted h; simp_all; omega
  · have := length_closeAt h; simp_all; omega
  · have := length_closeAt h; simp_all; omega
  · split at h
    · simp at h
    · simp only [Option.some.injEq, Prod.mk.injEq] at h
      have := (List.dropWhile_suffix isPlainNameChar (l := trimStart cs)).length_le
      rw [h.2] at this
      omega

/-- The last part of a name whose parts are separated by dots. Every part has to be a name. -/
def lastNamePart (cs : List Char) : Option (List Char) :=
  match _h : leadingName cs with
  | none => none
  | some (name, rest) =>
    match _hr : trimStart rest with
    | '.' :: next => lastNamePart next
    | _ => some name
termination_by cs.length
decreasing_by
  have := length_leadingName _h
  have := length_trimStart_le rest
  simp [_hr] at this
  omega

/-- A text with each pair of double quotes in it made one. -/
def halving : List Char → List Char
  | [] => []
  | '"' :: '"' :: cs => '"' :: halving cs
  | c :: cs => c :: halving cs

/-- What a text names: what stands between its quotes, if quotes enclose it. -/
def unquoted (cs : List Char) : List Char :=
  match cs with
  | [] => []
  | c :: inner =>
    match c, inner.getLast? with
    | '"', some '"' => halving inner.dropLast
    | '\x60', some '\x60' | '[', some ']' => inner.dropLast
    | _, _ => cs

/-! ## Where a name ends -/

/-- Whether a character may stand in a name without quotes. -/
def isNameChar (c : Char) : Bool := isWordChar c || c == '$'

/-- The written inside of a name between double quotes, the first of which has been read, and the text
after the second. A pair of quotes stands for one, unless the text ends before a quote that closes: then
the last pair closes with its first quote. The inside is not empty. -/
def takeQuoted (isFirst : Bool) : List Char → Option (List Char × List Char)
  | [] => none
  | '"' :: '"' :: cs =>
    match takeQuoted false cs with
    | some (inner, rest) => some ('"' :: '"' :: inner, rest)
    | none => if isFirst then none else some ([], '"' :: cs)
  | '"' :: cs => if isFirst then none else some ([], cs)
  | c :: cs => (takeQuoted false cs).map (fun r => (c :: r.1, r.2))

/-- The written inside, not empty, up to a closing character, and the text after it. -/
def takeEnclosed (close : Char) (cs : List Char) : Option (List Char × List Char) :=
  (closeAt close cs).filter (fun r => !r.1.isEmpty)

/-- The characters at the start of a text that may stand in a name, at least one, and the text after
them. -/
def takePlain (cs : List Char) : Option (List Char × List Char) :=
  match cs.takeWhile isNameChar with
  | [] => none
  | c :: name => some (c :: name, cs.dropWhile isNameChar)

/-- The name at the start of a text as it is written, and the text after it. -/
def takeName : List Char → Option (List Char × List Char)
  | '"' :: cs => (takeQuoted true cs).map (fun r => ('"' :: r.1 ++ ['"'], r.2))
  | '\x60' :: cs => (takeEnclosed '\x60' cs).map (fun r => ('\x60' :: r.1 ++ ['\x60'], r.2))
  | '[' :: cs => (takeEnclosed ']' cs).map (fun r => ('[' :: r.1 ++ [']'], r.2))
  | cs => takePlain cs

/-- The name at the start of a text as it is written, with a second part after a dot if there is one, and
the text after it. Blanks may surround the dot. -/
def takeDottedName (cs : List Char) : Option (List Char × List Char) :=
  match takeName cs with
  | none => none
  | some (first, rest) =>
    match trimStart rest with
    | '.' :: next =>
      match takeName (trimStart next) with
      | some (second, rest) => some (first ++ '.' :: second, rest)
      | none => some (first, rest)
    | _ => some (first, rest)

/-! ## Columns by name -/

/-- Where the reader of a column reference stands. -/
inductive ReferenceState where
  /-- Before the first part. -/
  | start
  /-- Before a part that follows a dot. -/
  | part
  /-- Inside a plain part. -/
  | plain
  /-- Inside a part between quotes that may be empty so far. -/
  | quoted (isEmpty : Bool)
  /-- Behind a quote inside a part between quotes: it closes the part or is the first of a pair. -/
  | quote (isEmpty : Bool)
  /-- In the blanks behind a part. -/
  | gap
  /-- Behind what is no column reference. -/
  | failed
  deriving DecidableEq

namespace ReferenceState

/-- Where the reader stands when a part may begin. -/
def begins (c : Char) : ReferenceState :=
  if c = '"' then quoted true else if isNameChar c then plain else failed

/-- Where the reader stands when a part may have ended. -/
def ends (c : Char) : ReferenceState :=
  if isBlank c then gap else if c = '.' then part else failed

/-- Where the reader stands after one more character. -/
def next : ReferenceState → Char → ReferenceState
  | start, c => begins c
  | part, c => if isBlank c then part else begins c
  | plain, c => if isNameChar c then plain else ends c
  | quoted isEmpty, c => if c = '"' then quote isEmpty else quoted false
  | quote isEmpty, c =>
    if c = '"' then quoted false else if isEmpty then failed else ends c
  | gap, c => ends c
  | failed, _ => failed

/-- Whether a reference may end here. -/
def isFinal : ReferenceState → Bool
  | plain | quote false => true
  | _ => false

end ReferenceState

/-- Whether a text is a reference to a column: names, plain or between double quotes, separated by dots
that blanks may surround. -/
def isColumnReference (cs : List Char) : Bool :=
  (cs.foldl ReferenceState.next .start).isFinal

end SqlDialects.Schema
