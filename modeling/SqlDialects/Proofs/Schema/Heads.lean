import SqlDialects.Proofs.Schema.Casts
import SqlDialects.Proofs.Schema.Elements
import SqlDialects.Proofs.Schema.SelectList

/-!
# Heads of creation statements

What a creation statement begins with, as it is written: the keywords, a name of one or two parts, and blanks
(`exists_of_takeHead`). A part of a name carries how it is written and that it can be written so (`NamePart`), and a
name is made of parts with dots between them (`IsDotted`). What is kept of a name is written with the same parts.
-/

set_option autoImplicit false

namespace SqlDialects.Schema

open Text

/-! ## Names of parts -/

/-- What a part of a name is written between. -/
inductive NameQuotes where
  | nothing
  | double
  | back
  | brackets
  deriving DecidableEq

/-- Whether a name can be written so. Only between double quotes the closing character can be a part of it. -/
def NameQuotes.admits : NameQuotes → List Char → Bool
  | nothing, name => name.all isNameChar
  | double, _ => true
  | back, name => !name.contains '\x60'
  | brackets, name => !name.contains ']'

/-- A part of a name, and how it is written. -/
structure NamePart where
  quotes : NameQuotes
  name : List Char
  full : name ≠ []
  admitted : quotes.admits name = true

def NamePart.written (p : NamePart) : List Char :=
  match p.quotes with
  | .nothing => p.name
  | .double => '"' :: (doubling '"' p.name ++ ['"'])
  | .back => '\x60' :: (p.name ++ ['\x60'])
  | .brackets => '[' :: (p.name ++ [']'])

/-- A name of parts, with dots between them and blanks around the dots. -/
inductive IsDotted : List NamePart → List Char → Prop
  | last (p : NamePart) : IsDotted [p] p.written
  | cons {p : NamePart} {parts : List NamePart} {cs before behind : List Char} (blank : before.all isBlank = true)
    (blank' : behind.all isBlank = true) (rest : IsDotted parts cs) :
    IsDotted (p :: parts) (p.written ++ (before ++ '.' :: (behind ++ cs)))

/-! ## Names at the start of a text -/

section Names

variable {cs name rest inner : List Char} {close : Char} {isFirst : Bool}

theorem exists_of_takeQuoted (h : takeQuoted isFirst cs = some (inner, rest)) :
    ∃ name, inner = doubling '"' name ∧ cs = inner ++ '"' :: rest ∧ (isFirst = true → name ≠ []) := by
  fun_induction takeQuoted isFirst cs generalizing inner with
  | case1 => cases h
  | case2 isFirst cs inner' rest' read ih =>
    cases h
    obtain ⟨name, rfl, rfl, -⟩ := ih read
    exact ⟨'"' :: name, rfl, rfl, fun _ => List.cons_ne_nil _ _⟩
  | case3 => cases h
  | case4 isFirst cs none outside _ =>
    cases h
    exact ⟨[], rfl, rfl, fun first => absurd first outside⟩
  | case5 => cases h
  | case6 isFirst cs _ outside =>
    cases h
    exact ⟨[], rfl, rfl, fun first => absurd first outside⟩
  | case7 isFirst c cs _ other ih =>
    obtain ⟨⟨inner', rest'⟩, read, same⟩ := Option.map_eq_some_iff.1 h
    cases same
    obtain ⟨name, rfl, rfl, -⟩ := ih read
    have plain : doubling '"' (c :: name) = c :: doubling '"' name := if_neg other
    exact ⟨c :: name, plain.symm, rfl, fun _ => List.cons_ne_nil _ _⟩

theorem exists_of_closeAt (h : closeAt close cs = some (name, rest)) : cs = name ++ close :: rest ∧ close ∉ name := by
  induction cs generalizing name with
  | nil => cases h
  | cons c cs ih =>
    rw [closeAt] at h
    split at h
    · next closes =>
      cases h
      exact ⟨by rw [closes]; rfl, List.not_mem_nil⟩
    · next other =>
      obtain ⟨⟨name', rest'⟩, read, same⟩ := Option.map_eq_some_iff.1 h
      cases same
      obtain ⟨rfl, free⟩ := ih read
      refine ⟨rfl, fun mem => ?_⟩
      rcases List.mem_cons.1 mem with rfl | mem
      · exact other rfl
      · exact free mem

theorem exists_of_takeEnclosed (h : takeEnclosed close cs = some (name, rest)) :
    cs = name ++ close :: rest ∧ name ≠ [] ∧ name.contains close = false := by
  obtain ⟨read, full⟩ := Option.filter_eq_some_iff.1 h
  obtain ⟨cut, free⟩ := exists_of_closeAt read
  exact ⟨cut, by simpa using full, by simpa using free⟩

theorem exists_of_takePlain (h : takePlain cs = some (name, rest)) :
    cs = name ++ rest ∧ name ≠ [] ∧ name.all isNameChar = true ∧ ∀ c ∈ rest.head?, isNameChar c = false := by
  have cut := List.takeWhile_append_dropWhile (p := isNameChar) (l := cs)
  have names : (cs.takeWhile isNameChar).all isNameChar = true := List.all_takeWhile
  have stops := List.head?_dropWhile_not isNameChar cs
  unfold takePlain at h
  split at h
  · cases h
  · next taken =>
    cases h
    rw [taken] at cut names
    refine ⟨cut.symm, List.cons_ne_nil _ _, names, fun c hc => ?_⟩
    rw [Option.mem_def.1 hc] at stops
    exact stops

/-- What is taken for a name is a part of a name. -/
theorem exists_of_takeName (h : takeName cs = some (name, rest)) :
    ∃ p : NamePart, p.written = name ∧ cs = name ++ rest := by
  unfold takeName at h
  split at h
  · next cs =>
    obtain ⟨⟨inner, rest'⟩, read, same⟩ := Option.map_eq_some_iff.1 h
    cases same
    obtain ⟨name, rfl, rfl, full⟩ := exists_of_takeQuoted read
    exact ⟨⟨.double, name, full rfl, rfl⟩, rfl, by simp⟩
  · next cs =>
    obtain ⟨⟨inner, rest'⟩, read, same⟩ := Option.map_eq_some_iff.1 h
    cases same
    obtain ⟨rfl, full, free⟩ := exists_of_takeEnclosed read
    exact ⟨⟨.back, inner, full, by rw [NameQuotes.admits, free]; rfl⟩, rfl, by simp⟩
  · next cs =>
    obtain ⟨⟨inner, rest'⟩, read, same⟩ := Option.map_eq_some_iff.1 h
    cases same
    obtain ⟨rfl, full, free⟩ := exists_of_takeEnclosed read
    exact ⟨⟨.brackets, inner, full, by rw [NameQuotes.admits, free]; rfl⟩, rfl, by simp⟩
  · obtain ⟨cut, full, names, -⟩ := exists_of_takePlain h
    exact ⟨⟨.nothing, name, full, names⟩, rfl, cut⟩

/-- What is kept of a dotted name has the parts of the name. -/
theorem exists_of_takeDottedName (h : takeDottedName cs = some (name, rest)) :
    ∃ parts text, IsDotted parts name ∧ IsDotted parts text ∧ cs = text ++ rest := by
  have one : ∀ {first left}, takeName cs = some (first, left) → (first, left) = (name, rest) →
      ∃ parts text, IsDotted parts name ∧ IsDotted parts text ∧ cs = text ++ rest := by
    rintro first left read ⟨⟩
    obtain ⟨p, rfl, cut⟩ := exists_of_takeName read
    exact ⟨[p], p.written, .last p, .last p, cut⟩
  unfold takeDottedName at h
  split at h
  · cases h
  · next first left read =>
    split at h
    · next next dotted =>
      split at h
      · next second rest' read' =>
        cases h
        obtain ⟨p, rfl, rfl⟩ := exists_of_takeName read
        obtain ⟨q, rfl, cut⟩ := exists_of_takeName read'
        obtain ⟨before, rfl, blank, -⟩ := trimStart_eq_iff.1 dotted
        obtain ⟨behind, rfl, blank', -⟩ := trimStart_eq_iff.1 cut
        refine ⟨[p, q], _, ?_, .cons blank blank' (.last q), by simp⟩
        exact @IsDotted.cons p [q] q.written [] [] rfl rfl (.last q)
      · exact one read (Option.some.inj h)
    · exact one read (Option.some.inj h)

end Names

/-! ## Keywords -/

/-- Whether a text is made of blanks and of letters of some words, and ends with a blank if it is not empty. -/
structure AreKeywords (words : List String) (cs : List Char) : Prop where
  letters : ∀ c ∈ cs, isBlank c = true ∨ ∃ word ∈ words, ∃ k ∈ word.toList, isReadAs k c = true
  ends : ∀ c ∈ cs.getLast?, isBlank c = true

section Keywords

variable {words : List String} {word : String} {cs cs' rest : List Char}

theorem AreKeywords.nil : AreKeywords words [] := ⟨nofun, nofun⟩

theorem AreKeywords.append (h : AreKeywords words cs) (h' : AreKeywords words cs') :
    AreKeywords words (cs ++ cs') where
  letters c hc := (List.mem_append.1 hc).elim (h.letters c) (h'.letters c)
  ends c hc := by
    rw [List.getLast?_append, Option.mem_def, Option.or_eq_some_iff] at hc
    rcases hc with hc | ⟨-, hc⟩
    · exact h'.ends c hc
    · exact h.ends c hc

theorem areKeywords_of_blank (h : cs.all isBlank = true) : AreKeywords words cs where
  letters c hc := .inl (List.all_eq_true.1 h c hc)
  ends c hc := List.all_eq_true.1 h c (List.mem_of_getLast? hc)

/-- What is dropped with a keyword are its letters, and blanks behind them. -/
theorem exists_keyword_of_dropWord (hw : word ∈ words) (h : dropWord word cs = some rest) :
    ∃ keyword, cs = keyword ++ rest ∧ AreKeywords words keyword := by
  obtain ⟨left, letters, blanks⟩ := Option.bind_eq_some_iff.1 h
  obtain ⟨read, rfl, reads⟩ := exists_of_dropLetters letters
  cases left with
  | nil => cases blanks
  | cons c left =>
    rw [dropBlanks] at blanks
    split at blanks
    · next hc =>
      obtain ⟨before, rfl, blank, -⟩ := trimStart_eq_iff.1 (Option.some.inj blanks)
      have behind : (c :: before).all isBlank = true := by rw [List.all_cons, hc, blank]; rfl
      refine ⟨read ++ c :: before, by simp, fun a ha => ?_, fun a ha => ?_⟩
      · rcases List.mem_append.1 ha with ha | ha
        · exact .inr ⟨word, hw, reads a ha⟩
        · exact .inl (List.all_eq_true.1 behind a ha)
      · rw [List.getLast?_append_of_ne_nil _ (List.cons_ne_nil _ _)] at ha
        exact List.all_eq_true.1 behind a (List.mem_of_getLast? ha)
    · cases blanks

end Keywords

/-! ## Heads -/

deriving instance DecidableEq for Head

def ObjectKind.keyword : ObjectKind → String
  | table => "table"
  | view => "view"

/-- The words that may stand before the name of what a statement creates. -/
def headWords (kind : ObjectKind) : List String :=
  ["create", "temporary", "temp", kind.keyword, "if", "not", "exists"]

section Heads

variable {kind : ObjectKind} {cs name rest : List Char} {head : Head}

theorem exists_keyword_of_temporary (cs : List Char) :
    ∃ keyword, cs = keyword ++ ((dropWord "temporary" cs).orElse fun _ => dropWord "temp" cs).getD cs ∧
      AreKeywords (headWords kind) keyword := by
  cases long : dropWord "temporary" cs with
  | some rest => exact exists_keyword_of_dropWord (by simp [headWords]) long
  | none =>
    cases short : dropWord "temp" cs with
    | some rest => exact exists_keyword_of_dropWord (by simp [headWords]) short
    | none => exact ⟨[], rfl, .nil⟩

theorem exists_of_takeKind (h : takeKind cs = some (kind, rest)) :
    ∃ keyword, cs = keyword ++ rest ∧ AreKeywords (headWords kind) keyword := by
  unfold takeKind at h
  split at h
  · next read =>
    cases h
    exact exists_keyword_of_dropWord (by decide) read
  · obtain ⟨rest', read, same⟩ := Option.map_eq_some_iff.1 h
    cases same
    exact exists_keyword_of_dropWord (by decide) read

theorem exists_of_takeNewName (h : takeNewName cs = some (name, rest)) :
    ∃ keywords parts text, cs = keywords ++ (text ++ rest) ∧ AreKeywords (headWords kind) keywords ∧
      IsDotted parts name ∧ IsDotted parts text := by
  unfold takeNewName at h
  split at h
  · next found =>
    cases h
    obtain ⟨left, keywords, read⟩ := Option.bind_eq_some_iff.1 found
    obtain ⟨second, keywords, last⟩ := Option.bind_eq_some_iff.1 keywords
    obtain ⟨first, start, next⟩ := Option.bind_eq_some_iff.1 keywords
    have mem : ∀ word ∈ ["if", "not", "exists"], word ∈ headWords kind := by simp [headWords]
    obtain ⟨k₁, rfl, h₁⟩ := exists_keyword_of_dropWord (mem "if" (by simp)) start
    obtain ⟨k₂, rfl, h₂⟩ := exists_keyword_of_dropWord (mem "not" (by simp)) next
    obtain ⟨k₃, rfl, h₃⟩ := exists_keyword_of_dropWord (mem "exists" (by simp)) last
    obtain ⟨parts, text, kept, written, rfl⟩ := exists_of_takeDottedName read
    exact ⟨k₁ ++ (k₂ ++ k₃), parts, text, by simp, h₁.append (h₂.append h₃), kept, written⟩
  · obtain ⟨parts, text, kept, written, rfl⟩ := exists_of_takeDottedName h
    exact ⟨[], parts, text, rfl, .nil, kept, written⟩

/-- A statement begins with keywords, the name of what it creates, and blanks. -/
theorem exists_of_takeHead (h : takeHead cs = some head) :
    ∃ keywords parts text blanks, cs = keywords ++ (text ++ (blanks ++ head.rest)) ∧
      AreKeywords (headWords head.kind) keywords ∧ IsDotted parts head.name ∧ IsDotted parts text ∧
      blanks.all isBlank = true := by
  unfold takeHead at h
  simp only [Option.bind_eq_bind, Option.bind_eq_some_iff, Option.pure_def, Option.some.injEq, Prod.exists] at h
  obtain ⟨created, create, kind, behind, hkind, name, rest, hname, rfl⟩ := h
  obtain ⟨start, hstart, blank, -⟩ := trimStart_eq_iff.1 (rfl : trimStart cs = trimStart cs)
  have mem : "create" ∈ headWords kind := by simp [headWords]
  obtain ⟨k₁, h₁, create⟩ := exists_keyword_of_dropWord mem create
  obtain ⟨k₂, h₂, temporary⟩ := @exists_keyword_of_temporary kind created
  obtain ⟨k₃, h₃, keyword⟩ := exists_of_takeKind hkind
  obtain ⟨k₄, parts, text, h₄, exists', kept, written⟩ := @exists_of_takeNewName kind _ _ _ hname
  obtain ⟨behind', hbehind, blank', -⟩ := trimStart_eq_iff.1 (rfl : trimStart rest = trimStart rest)
  refine ⟨start ++ (k₁ ++ (k₂ ++ (k₃ ++ k₄))), parts, text, behind', ?_, ?_, kept, written, blank'⟩
  · calc cs = start ++ (k₁ ++ created) := by rw [hstart, h₁]
      _ = start ++ (k₁ ++ (k₂ ++ (k₃ ++ behind))) := by rw [← h₃, ← h₂]
      _ = start ++ (k₁ ++ (k₂ ++ (k₃ ++ (k₄ ++ (text ++ (behind' ++ trimStart rest)))))) := by rw [← hbehind, ← h₄]
      _ = _ := by simp
  · exact (areKeywords_of_blank blank).append (create.append (temporary.append (keyword.append exists')))

end Heads

/-! ## Statements -/

section Statements

variable {source name : String} {cs : List Char} {o : DeclaredObject}

/-- What a statement declares is what its head and the text behind it say. -/
theorem exists_of_ofStatement (h : DeclaredObject.ofStatement source = .ok o) :
    ∃ head, takeHead source.toList = some head ∧ head.kind = o.kind ∧
      o.name = String.ofList ((lastNamePart head.name).getD []) ∧
      (o.kind = .table → declaredTable o.name head.rest = .ok o) ∧
      (o.kind = .view → declaredView o.name head.rest = .ok o) := by
  unfold DeclaredObject.ofStatement at h
  split at h
  · cases h
  · next head read =>
    refine ⟨head, read, ?_⟩
    simp only at h
    split at h
    · next kind =>
      obtain ⟨inside, behind, _, _, _, same⟩ := exists_of_declaredTable h
      have hk : o.kind = .table := congrArg DeclaredObject.kind same
      have hn : o.name = String.ofList ((lastNamePart head.name).getD []) := congrArg DeclaredObject.name same
      rw [hk, hn]
      exact ⟨kind, rfl, fun _ => h, nofun⟩
    · next kind =>
      obtain ⟨_, _, _, _, same⟩ := exists_of_declaredView h
      have hk : o.kind = .view := congrArg DeclaredObject.kind same
      have hn : o.name = String.ofList ((lastNamePart head.name).getD []) := congrArg DeclaredObject.name same
      rw [hk, hn]
      exact ⟨kind, rfl, nofun, fun _ => h⟩

end Statements

end SqlDialects.Schema
