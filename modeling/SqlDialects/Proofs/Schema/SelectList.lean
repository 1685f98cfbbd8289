import SqlDialects.Proofs.Schema.Columns
import SqlDialects.Proofs.Schema.Keywords

/-!
# Which items of a select list are columns

The columns of a view are the items of its select list, between the commas outside quotes, brackets and parentheses.
Where the list ends is found by a reader that takes brackets for plain characters: at the first `FROM` that stands out
for it. It finds the end of the list exactly if no `FROM` stands out of the list for it, and what follows the list, if
anything does, is a `FROM` that stands out; and then the columns are the items (`DeclaredObject.ofStatement_view_iff`).

That nothing else than the end of the list gives these columns is a matter of weight: of the characters that are not
blank, a text has those of its parts and the separators between them. So a text that ends before the list has too few of
them, and one that goes on behind the list would have to go on with separators alone.
-/

set_option autoImplicit false

namespace SqlDialects.Schema

open Text

/-! ## Weight -/

/-- How many characters of a text are not blank. -/
def weight (cs : List Char) : Nat := cs.countP fun c => !isBlank c

section Weight

variable {c sep : Char} {s : Nesting} {cs cs' : List Char}

theorem weight_cons (h : isBlank c = false) : weight (c :: cs) = weight cs + 1 := List.countP_cons_of_pos (by simp [h])

theorem weight_append (cs cs' : List Char) : weight (cs ++ cs') = weight cs + weight cs' := List.countP_append

theorem weight_eq_zero (h : cs.all isBlank = true) : weight cs = 0 := by
  rw [weight, List.countP_eq_zero]
  intro c hc
  simp [List.all_eq_true.1 h c hc]

theorem weight_trimStart (cs : List Char) : weight (trimStart cs) = weight cs := by
  have blank : weight (cs.takeWhile isBlank) = 0 := weight_eq_zero List.all_takeWhile
  have cut := weight_append (cs.takeWhile isBlank) (cs.dropWhile isBlank)
  rw [List.takeWhile_append_dropWhile, blank, Nat.zero_add] at cut
  exact cut.symm

theorem weight_trimChars (cs : List Char) : weight (trimChars cs) = weight cs := by
  have reversed : ∀ cs : List Char, weight cs.reverse = weight cs := fun cs => List.countP_reverse
  rw [trimChars, trimEnd, reversed, ← trimStart, weight_trimStart, reversed, weight_trimStart]

theorem weight_flatten_trimChars (parts : List (List Char)) :
    weight (parts.map trimChars).flatten = weight parts.flatten := by
  induction parts with
  | nil => rfl
  | cons part parts ih =>
    rw [List.map_cons, List.flatten_cons, List.flatten_cons, weight_append, weight_append, weight_trimChars, ih]

theorem cutAt_ne_nil (sep : Char) (s : Nesting) (cs : List Char) : cutAt sep s cs ≠ [] := by
  cases cs with
  | nil => exact List.cons_ne_nil _ _
  | cons c cs =>
    rw [cutAt]
    split
    · exact List.cons_ne_nil _ _
    · split <;> exact List.cons_ne_nil _ _

/-- The weight of a text is that of its parts and of the separators between them. -/
theorem weight_cutAt (h : isBlank sep = false) (s : Nesting) (cs : List Char) :
    weight cs + 1 = weight (cutAt sep s cs).flatten + (cutAt sep s cs).length := by
  induction cs generalizing s with
  | nil => rfl
  | cons c cs ih =>
    rw [cutAt]
    split
    · next cuts =>
      rw [Bool.and_eq_true, beq_iff_eq] at cuts
      rw [cuts.2, weight_cons h, List.flatten_cons, List.nil_append, List.length_cons, ih s, Nat.add_assoc]
    · have behind := ih (s.next .quotesAndBrackets c)
      split
      · next none => exact absurd none (cutAt_ne_nil _ _ _)
      · next part parts some =>
        rw [some] at behind
        have head : weight (c :: part) + weight cs = weight (c :: cs) + weight part := by
          simp only [weight, List.countP_cons]
          omega
        simp only [List.flatten_cons, weight_append, List.length_cons] at behind ⊢
        omega

theorem length_cutAt_cons (s : Nesting) (c : Char) (cs : List Char) :
    (cutAt ',' s (c :: cs)).length
      = (cutAt ',' (s.next .quotesAndBrackets c) cs).length + if s.isTop && c == ',' then 1 else 0 := by
  rw [cutAt]
  split
  · next cuts =>
    rw [Bool.and_eq_true, beq_iff_eq] at cuts
    have stays : s.next .quotesAndBrackets c = s := by
      obtain ⟨closing, depth⟩ := s
      have outside : closing = none := by
        have top := cuts.1
        rw [Nesting.isTop, Bool.and_eq_true] at top
        exact Option.isNone_iff_eq_none.1 top.1
      rw [cuts.2, outside]
      rfl
    rw [stays]
    rfl
  · split
    · next none => exact absurd none (cutAt_ne_nil _ _ _)
    · next some =>
      rw [some]
      rfl

/-- The cuts of a text are those of its beginning and those of the rest. -/
theorem length_cutAt_append (s : Nesting) (cs cs' : List Char) :
    (cutAt ',' s (cs ++ cs')).length + 1
      = (cutAt ',' s cs).length + (cutAt ',' (s.after .quotesAndBrackets cs) cs').length := by
  induction cs generalizing s with
  | nil => exact Nat.add_comm _ _
  | cons c cs ih =>
    have behind := ih (s.next .quotesAndBrackets c)
    rw [List.cons_append, length_cutAt_cons, length_cutAt_cons]
    show _ = _ + (cutAt ',' ((s.next .quotesAndBrackets c).after .quotesAndBrackets cs) cs').length
    omega

/-- The parts of a text whose first character is neither blank nor a separator have some weight. -/
theorem weight_flatten_cutAt_pos (h : isBlank c = false) (hc : c ≠ sep) (s : Nesting) (cs : List Char) :
    0 < weight (cutAt sep s (c :: cs)).flatten := by
  rw [cutAt, if_neg (by simp [hc])]
  split
  · next none => exact absurd none (cutAt_ne_nil _ _ _)
  · rw [List.flatten_cons, List.cons_append, weight_cons h]
    exact Nat.succ_pos _

/-- The items of a list have the weight of its parts. -/
theorem weight_flatten_listItems (cs : List Char) :
    weight (listItems cs).flatten = weight (cutAt ',' .top cs).flatten := by
  unfold listItems
  induction cutAt ',' .top cs with
  | nil => rfl
  | cons part parts ih =>
    rw [List.filter_cons]
    split
    · rw [List.flatten_cons, List.flatten_cons, weight_append, weight_append, ih]
    · next blank =>
      have none : weight part = 0 := weight_eq_zero (by simpa using blank)
      rw [List.flatten_cons, weight_append, none, Nat.zero_add, ih]

end Weight

/-! ## The end of the list -/

section Ending

variable {list tail : List Char}

/-- What follows a list does not run together with it: no blank, no comma, and no word that goes on. -/
def Borders (list tail : List Char) : Prop :=
  ∀ c ∈ tail.head?,
    isBlank c = false ∧ c ≠ ',' ∧ (endsInWord isPlainWordChar false list = true → isPlainWordChar c = false)

instance Borders.decidable : (list tail : List Char) → Decidable (Borders list tail)
  | _, [] => .isTrue nofun
  | list, c :: _ =>
    decidable_of_iff
      (isBlank c = false ∧ c ≠ ',' ∧ (endsInWord isPlainWordChar false list = true → isPlainWordChar c = false))
      ⟨fun h => forall_head?_cons h, fun h => h c rfl⟩

/-- No word reaches over the end of the list. -/
theorem Borders.beginsWithWord_append {n : Nat} {word : List Char} (h : Borders list tail)
    (plain : word.all isPlainWordChar = true) (hn : n < list.length) :
    beginsWithWord word (list.drop n ++ tail) = beginsWithWord word (list.drop n) := by
  have rest : list.drop n ≠ [] := by simpa using hn
  have ends : ∀ c ∈ tail.head?,
      endsInWord isPlainWordChar (endsInWord isPlainWordChar false (list.take n)) (list.drop n) = true →
        isPlainWordChar c = false := by
    intro c hc ends
    rw [← endsInWord_append, List.take_append_drop] at ends
    exact (h c hc).2.2 ends
  exact Schema.beginsWithWord_append plain rest ends

/-- The text before the first `FROM` is the list exactly if no `FROM` stands out of the list and one that follows it
does. -/
theorem beforeWord_from_iff (h : Borders list tail) :
    beforeWord "from".toList false .top (list ++ tail) = list ↔
      ¬ HasWord .quotes "from".toList list ∧
        (tail ≠ [] → StandsOut .quotes false .top "from".toList list tail) := by
  have plain : "from".toList.all isPlainWordChar = true := by decide
  obtain ⟨rest, cut, stands, first⟩ := beforeWord_spec "from".toList false .top (list ++ tail)
  generalize beforeWord "from".toList false .top (list ++ tail) = read at cut stands first
  constructor
  · rintro rfl
    have behind : rest = tail := (List.append_cancel_left cut).symm
    refine ⟨?_, fun some => behind ▸ stands (behind ▸ some)⟩
    rintro ⟨n, -, top, ends, begins⟩
    have within : n < read.length := by
      by_contra outside
      rw [List.drop_eq_nil_of_le (Nat.le_of_not_lt outside)] at begins
      cases begins
    refine first (read.take n) (read.drop n ++ tail) ?_ ?_ ⟨top, ends, ?_⟩
    · rw [← List.append_assoc, List.take_append_drop]
    · rwa [List.length_take_of_le (Nat.le_of_lt within)]
    · rw [h.beginsWithWord_append plain within, begins]
  · rintro ⟨none, out⟩
    rcases List.append_eq_append_iff.1 cut with ⟨more, rfl, rfl⟩ | ⟨more, rfl, rfl⟩
    · cases more with
      | nil => exact List.append_nil list
      | cons c more =>
        -- The `FROM` behind the list stands out, so the reader does not go past it.
        have longer : list.length < (list ++ c :: more).length := by simp
        exact absurd (out (List.cons_ne_nil _ _)) (first list _ rfl longer)
    · cases more with
      | nil => exact (List.append_nil read).symm
      | cons c more =>
        -- A `FROM` where the reader stopped stands out of the list.
        have within : read.length < (read ++ c :: more).length := by simp
        obtain ⟨top, ends, begins⟩ := stands (List.cons_ne_nil _ _)
        have same := h.beginsWithWord_append plain within
        rw [List.drop_left] at same
        refine absurd ⟨read.length, Nat.le_of_lt within, ?_⟩ none
        rw [List.take_left, List.drop_left]
        exact ⟨top, ends, same ▸ begins⟩

/-- Only the list has its items: a text that ends earlier is too light, and one that ends later is too heavy. -/
theorem eq_of_listItems {items : List (List Char)} {read rest : List Char} (h : Borders list tail)
    (cut : list ++ tail = read ++ rest) (stop : ∀ c ∈ rest.head?, isBlank c = false)
    (hl : cutAt ',' .top list = items) (top : Nesting.top.after .quotesAndBrackets list = .top)
    (hi : (listItems read).map trimChars = items.map trimChars) : read = list := by
  have same : weight (cutAt ',' .top read).flatten = weight items.flatten := by
    rw [← weight_flatten_listItems, ← weight_flatten_trimChars, hi, weight_flatten_trimChars]
  have number : items.length ≤ (cutAt ',' .top read).length := by
    have same := congrArg List.length hi
    rw [List.length_map, List.length_map] at same
    rw [← same]
    exact List.length_filter_le _ _
  have comma : isBlank ',' = false := by decide
  have ofRead := weight_cutAt comma .top read
  have ofList := weight_cutAt comma .top list
  rw [hl] at ofList
  rcases List.append_eq_append_iff.1 cut with ⟨more, rfl, rfl⟩ | ⟨more, rfl, rfl⟩
  · cases more with
    | nil => exact List.append_nil list
    | cons c more =>
      -- What is read behind the list would consist of separators, but it begins with another character.
      obtain ⟨visible, other, -⟩ := h c rfl
      have cuts := length_cutAt_append .top list (c :: more)
      have ofMore := weight_cutAt comma .top (c :: more)
      have part := weight_flatten_cutAt_pos visible other .top more
      rw [top, hl] at cuts
      rw [weight_append] at ofRead
      omega
  · cases more with
    | nil => exact (List.append_nil read).symm
    | cons c more =>
      -- What is not read of the list has some weight.
      rw [weight_append, weight_cons (stop c rfl)] at ofList
      omega

end Ending

/-! ## Columns of views -/

section Views

variable {view : String} {given items : List (List Char)} {columns : List DeclaredColumn}

/-- Each item declares a column, under the name that the view gives it, if it gives one. -/
theorem eq_of_viewColumns (h : viewColumns view given items = .ok columns) :
    columns = items.mapIdx fun i item => viewColumn item given[i]? := by
  induction items generalizing given columns with
  | nil =>
    cases h
    rfl
  | cons item items ih =>
    rw [viewColumns] at h
    split at h
    · cases h
    · cases behind : viewColumns view given.tail items with
      | error e =>
        rw [behind] at h
        cases h
      | ok columns =>
        rw [behind] at h
        cases h
        rw [List.mapIdx_cons, ih behind, List.head?_eq_getElem?]
        simp only [List.getElem?_tail]

theorem exists_viewColumns (h : ∀ item ∈ items, isStar item = false) :
    ∃ columns, viewColumns view given items = .ok columns := by
  induction items generalizing given with
  | nil => exact ⟨[], rfl⟩
  | cons item items ih =>
    obtain ⟨columns, behind⟩ := @ih given.tail fun i hi => h i (List.mem_cons_of_mem item hi)
    refine ⟨viewColumn item given.head? :: columns, ?_⟩
    rw [viewColumns, h item List.mem_cons_self, behind]
    rfl

/-- What a view is declared by: the list of its names, if there is one, and its query. -/
theorem exists_of_declaredView {name : String} {cs : List Char} {o : DeclaredObject}
    (h : declaredView name cs = .ok o) :
    ∃ names query, takeSelection cs = some (names, query) ∧
      viewColumns name ((listItems names).map fun n => unquoted (trimChars n))
        ((listItems (beforeWord "from".toList false .top query)).map trimChars) = .ok o.columns ∧
      o = ⟨name, .view, o.columns, false⟩ := by
  unfold declaredView at h
  split at h
  · cases h
  · next names query read =>
    refine ⟨names, query, read, ?_⟩
    cases hv : viewColumns name ((listItems names).map fun n => unquoted (trimChars n))
        ((listItems (beforeWord "from".toList false .top query)).map trimChars) with
    | error e =>
      simp only [hv] at h
      cases h
    | ok columns =>
      simp only [hv] at h
      replace h : (if columns.isEmpty = true then throw (.noColumns .view name) else
        pure ⟨name, .view, columns, false⟩ : Except StatementError DeclaredObject) = .ok o := h
      split at h
      · cases h
      · cases h
        exact ⟨rfl, rfl⟩

theorem declarations_of_declaredView {name : String} {cs names query : List Char} {o : DeclaredObject}
    (hs : takeSelection cs = some (names, query)) (h : declaredView name cs = .ok o) :
    o.columns.map (·.declaration)
      = ((listItems (beforeWord "from".toList false .top query)).map trimChars).map String.ofList := by
  obtain ⟨names', query', read, columns, -⟩ := exists_of_declaredView h
  cases hs.symm.trans read
  rw [eq_of_viewColumns columns]
  exact List.ext_getElem (by simp) fun i _ _ => by simp [viewColumn]

theorem exists_declaredView {name : String} {cs names query : List Char}
    (hs : takeSelection cs = some (names, query))
    (some : listItems (beforeWord "from".toList false .top query) ≠ [])
    (h : ∀ item ∈ listItems (beforeWord "from".toList false .top query), isStar (trimChars item) = false) :
    ∃ o, declaredView name cs = .ok o := by
  obtain ⟨columns, hv⟩ := @exists_viewColumns name ((listItems names).map fun n => unquoted (trimChars n))
    ((listItems (beforeWord "from".toList false .top query)).map trimChars) (by simpa using h)
  have full : columns ≠ [] := by
    rintro rfl
    have none := eq_of_viewColumns hv
    rw [eq_comm, List.mapIdx_eq_nil_iff, List.map_eq_nil_iff] at none
    exact some none
  refine ⟨⟨name, .view, columns, false⟩, ?_⟩
  rw [declaredView, hs]
  simp only [hv]
  show (if columns.isEmpty = true then throw (.noColumns .view name) else
    pure ⟨name, .view, columns, false⟩ : Except StatementError DeclaredObject) = _
  rw [if_neg (by simpa using full)]
  rfl

end Views

/-! ## Select lists -/

/-- Whether a text is an item of a select list: it says something, names the columns it stands for, and quotes or
parentheses enclose its commas. -/
structure IsItem (item : List Char) : Prop where
  passes : Passes ',' .top item .top
  visible : item.all isBlank = false
  named : isStar (trimChars item) = false

theorem isItem_iff {item : List Char} :
    IsItem item ↔ Passes ',' .top item .top ∧ item.all isBlank = false ∧ isStar (trimChars item) = false :=
  ⟨fun h => ⟨h.passes, h.visible, h.named⟩, fun ⟨passes, visible, named⟩ => ⟨passes, visible, named⟩⟩

instance (item : List Char) : Decidable (IsItem item) := decidable_of_iff _ isItem_iff.symm

theorem after_append (q : Quoting) (s : Nesting) (cs cs' : List Char) :
    s.after q (cs ++ cs') = (s.after q cs).after q cs' := List.foldl_append

/-- Behind a select list nothing is open. -/
theorem after_flatMap {item : List Char} {items : List (List Char)} (h : ∀ i ∈ item :: items, IsItem i) :
    Nesting.top.after .quotesAndBrackets (item ++ items.flatMap (',' :: ·)) = .top := by
  induction items generalizing item with
  | nil => rw [List.flatMap_nil, List.append_nil, (h item List.mem_cons_self).passes.after]
  | cons item' items ih =>
    rw [List.flatMap_cons, after_append, (h item List.mem_cons_self).passes.after]
    have behind : Nesting.top.after .quotesAndBrackets (item' ++ items.flatMap (',' :: ·)) = .top :=
      ih fun i hi => h i (List.mem_cons_of_mem item hi)
    exact behind

section Columns

variable {source : String} {head : Head} {names tail : List Char} {items : List (List Char)}

/-- The columns of a view are the items of its select list exactly if, for a reader that takes brackets for plain
characters, no `FROM` stands out of the list, and what follows the list, if anything does, is a `FROM` that does. -/
theorem DeclaredObject.ofStatement_view_iff (hh : takeHead source.toList = some head) (hk : head.kind = .view)
    (hs : takeSelection head.rest = some (names, [','].intercalate items ++ tail)) (some : items ≠ [])
    (hi : ∀ item ∈ items, IsItem item) (hb : Borders ([','].intercalate items) tail) :
    (∃ o, ofStatement source = .ok o ∧
        o.columns.map (·.declaration) = items.map fun item => String.ofList (trimChars item)) ↔
      ¬ HasWord .quotes "from".toList ([','].intercalate items) ∧
        (tail ≠ [] → StandsOut .quotes false .top "from".toList ([','].intercalate items) tail) := by
  obtain ⟨item, others, rfl⟩ := List.exists_cons_of_ne_nil some
  have cut : cutAt ',' .top ([','].intercalate (item :: others)) = item :: others := by
    rw [intercalate_cons]
    exact cutAt_flatMap fun i h => (hi i h).passes
  have list : listItems ([','].intercalate (item :: others)) = item :: others := by
    rw [intercalate_cons]
    exact listItems_of_passes (fun i h => (hi i h).passes) fun i h => (hi i h).visible
  have top : Nesting.top.after .quotesAndBrackets ([','].intercalate (item :: others)) = .top := by
    rw [intercalate_cons]
    exact after_flatMap hi
  have statement : ofStatement source = declaredView (String.ofList ((lastNamePart head.name).getD [])) head.rest := by
    rw [ofStatement, hh]
    simp only [hk]
  have declarations : ((item :: others).map fun i => String.ofList (trimChars i))
      = ((item :: others).map trimChars).map String.ofList := by
    rw [List.map_map]
    rfl
  rw [← beforeWord_from_iff hb, statement, declarations]
  constructor
  · rintro ⟨o, ho, columns⟩
    obtain ⟨rest, hr, stands, -⟩ :=
      beforeWord_spec "from".toList false .top ([','].intercalate (item :: others) ++ tail)
    have stop : ∀ c ∈ rest.head?, isBlank c = false := by
      intro c hc
      have full : rest ≠ [] := by
        rintro rfl
        cases hc
      exact isBlank_of_isPlainWordChar (head?_of_beginsWithWord (by decide) (by decide) (stands full).2.2 c hc)
    have same : (listItems (beforeWord "from".toList false .top ([','].intercalate (item :: others) ++ tail))).map
        trimChars = (item :: others).map trimChars := by
      rw [declarations_of_declaredView hs ho] at columns
      exact List.map_injective_iff.2 (fun _ _ => String.ofList_injective) columns
    exact eq_of_listItems hb hr stop cut top same
  · intro read
    have query : listItems (beforeWord "from".toList false .top ([','].intercalate (item :: others) ++ tail))
        = item :: others := by rw [read, list]
    obtain ⟨o, ho⟩ := exists_declaredView hs (by rwa [query]) (by
      rw [query]
      exact fun i h => (hi i h).named)
    refine ⟨o, ho, ?_⟩
    rw [declarations_of_declaredView hs ho, query]

end Columns

/-! ## Brackets in select lists -/

namespace Brackets

def items : List (List Char) :=
  ["[a b]".toList, " f(x, (y)) AS `c, d`".toList, " 'from, [' || \"e from\" ".toList]

def view : String := "CREATE VIEW v AS SELECT [a b], f(x, (y)) AS `c, d`, 'from, [' || \"e from\" FROM t"

def head : Head := ⟨.view, "v".toList, "AS SELECT [a b], f(x, (y)) AS `c, d`, 'from, [' || \"e from\" FROM t".toList⟩

/-- Brackets around what is neither a keyword nor a quote do no harm. -/
theorem view_columns :
    ∃ o, DeclaredObject.ofStatement view = .ok o ∧
      o.columns.map (·.declaration) = ["[a b]", "f(x, (y)) AS `c, d`", "'from, [' || \"e from\""] :=
  (@DeclaredObject.ofStatement_view_iff view head [] "FROM t".toList items rfl rfl (by decide +kernel) (by decide)
    (by decide +kernel) (by decide +kernel)).2 (by decide +kernel)

/-- A keyword between brackets cuts the list short, and a quote between them hides the keyword behind the list. -/
theorem columns_misread :
    (∀ item ∈ ["[from]".toList, " b ".toList, "[it's] AS a".toList], IsItem item) ∧
      ¬ HasWord .quotesAndBrackets "from".toList "[from], b ".toList ∧
      ¬ HasWord .quotesAndBrackets "from".toList "[it's] AS a, b ".toList ∧
      (∃ o, DeclaredObject.ofStatement "CREATE VIEW v AS SELECT [from], b FROM t" = .ok o ∧
        o.columns.map (·.declaration) = ["["]) ∧
      ∃ o, DeclaredObject.ofStatement "CREATE VIEW v AS SELECT [it's] AS a, b FROM t" = .ok o ∧
        o.columns.map (·.declaration) = ["[it's] AS a", "b FROM t"] := by
  refine ⟨by decide +kernel, by decide +kernel, by decide +kernel, ?_, ?_⟩
  · exact ⟨⟨"v", .view, [⟨"[", "", none, none, "["⟩], false⟩, by decide +kernel, rfl⟩
  · exact ⟨⟨"v", .view, [⟨"a", "", none, none, "[it's] AS a"⟩, ⟨"t", "", none, none, "b FROM t"⟩], false⟩,
      by decide +kernel, rfl⟩

end Brackets

end SqlDialects.Schema
