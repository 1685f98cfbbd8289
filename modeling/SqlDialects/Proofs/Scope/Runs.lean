import SqlDialects.Proofs.Scope.Tidy

/-!
# Runs of a scope stack

A scope stack is a stack of finite maps that is kept name by name. Here the changes that can be made to a stack
are also made to its levels, where each is one line, and the two are compared after any run of changes: a change
is refused on both sides or on neither, and whatever can be asked of the stack is answered by the levels
(`ScopeStack.run_mirrors`).
-/

set_option autoImplicit false

namespace SqlDialects.ScopeStack

variable {κ ν : Type}

/-- A change of a scope stack. -/
inductive Change (κ ν : Type) where
  | start
  | finish
  | set (k : κ) (v : ν)
  | setAll (v : ν)
  | getOrCreate (k : κ)

/-- Makes a change, the missing values of names being made by a constructor. -/
def change [BEq κ] (make : κ → Nat → ν) (s : ScopeStack κ ν) : Change κ ν → Except ScopeError (ScopeStack κ ν)
  | .start => .ok s.start
  | .finish => s.finish?
  | .set k v => s.whenOpen .set (s.set k v)
  | .setAll v => s.whenOpen .setAll (s.setAll v)
  | .getOrCreate k =>
    let (answer, s') := s.getOrCreate (some make) k
    answer.map fun _ => s'

/-- The same change to a stack of finite maps, innermost first. A map is a list in which the first entry of a
name counts. -/
def Change.onLevels [BEq κ] (make : κ → Nat → ν) (levels : List (List (κ × ν))) :
    Change κ ν → Option (List (List (κ × ν)))
  | .start => some ([] :: levels)
  | .finish => levels.tail?
  | .set k v =>
    match levels with
    | [] => none
    | level :: outer => some (((k, v) :: level) :: outer)
  | .setAll v =>
    match levels with
    | [] => none
    | level :: outer => some ((levels.flatten.map (fun e => (e.1, v)) ++ level) :: outer)
  | .getOrCreate k =>
    match levels with
    | [] => none
    | level :: outer =>
      if levels.any fun l => (l.lookup k).isSome then some levels
      else some (((k, make k outer.length) :: level) :: outer)

/-- What can be asked of a stack, answered by its levels. -/
structure Mirrors [BEq κ] (s : ScopeStack κ ν) (levels : List (List (κ × ν))) : Prop where
  depth_eq : s.depth = levels.length
  get?_eq : ∀ k, s.get? k = levels.findSome? (List.lookup k)
  getCurrent?_eq : ∀ k, s.getCurrent? k = levels.head?.bind (List.lookup k)
  nodup_toList : (s.toList.map Prod.fst).Nodup
  mem_toList : ∀ k v, (k, v) ∈ s.toList ↔ levels.findSome? (List.lookup k) = some v
  nodup_currentList : (s.currentList.map Prod.fst).Nodup
  mem_currentList : ∀ k v, (k, v) ∈ s.currentList ↔ levels.head?.bind (List.lookup k) = some v
  isEmpty_iff : s.isEmpty = true ↔ ∀ level ∈ levels, ∀ k, level.lookup k = none
  /-- The levels from the deepest one that binds the name outwards. -/
  slotCount_eq : ∀ k, s.slotCount k = (levels.dropWhile fun level => (level.lookup k).isNone).length
  slots : ∀ e ∈ s.slots, e.2 ≠ [] ∧ e.2.length ≤ s.depth ∧ ∃ v, e.2.getLast? = some (some v)

/-! ## Slots in order -/

theorem innermost_eq_getLast? {list : List (Option ν)} (h : ∃ v, list.getLast? = some (some v)) :
    innermost list = list.getLast?.join := by
  obtain ⟨v, hv⟩ := h
  rw [hv, innermost]
  rw [← List.head?_reverse] at hv
  cases hr : list.reverse with
  | nil => simp [hr] at hv
  | cons x xs =>
    rw [hr, List.head?_cons] at hv
    cases hv
    rfl

section Lawful

variable [BEq κ]

theorem lookup_flatten (k : κ) (levels : List (List (κ × ν))) :
    levels.flatten.lookup k = levels.findSome? (List.lookup k) := by
  induction levels with
  | nil => rfl
  | cons level outer ih =>
    rw [List.flatten_cons, List.lookup_append, List.findSome?_cons, ih]
    cases level.lookup k <;> rfl

theorem lookup_map_snd {α β : Type} (f : α → β) (k : κ) (es : List (κ × α)) :
    (es.map fun e => (e.1, f e.2)).lookup k = (es.lookup k).map f := by
  induction es with
  | nil => rfl
  | cons e es ih =>
    obtain ⟨a, x⟩ := e
    simp only [List.map_cons, List.lookup_cons, ih]
    split <;> rfl

variable [LawfulBEq κ] {s : ScopeStack κ ν} {levels : List (List (κ × ν))}

theorem Tidy.ends_slotsOf (h : s.Tidy) {k : κ} (hk : s.slotsOf k ≠ []) :
    ∃ v, (s.slotsOf k).getLast? = some (some v) := h.ends _ (mem_slots_of_slotsOf hk)

theorem Tidy.get?_eq_none_iff (h : s.Tidy) (k : κ) : s.get? k = none ↔ s.slotsOf k = [] := by
  constructor
  · intro hn
    cases hk : s.slotsOf k with
    | nil => rfl
    | cons x xs =>
      have he := h.ends_slotsOf (k := k) (by simp [hk])
      have hl := innermost_eq_getLast? he
      obtain ⟨v, hv⟩ := he
      rw [get?, hl, hv] at hn
      cases hn
  · intro hk
    rw [get?, hk]
    rfl

/-- Setting all names sets those that have a value. -/
theorem slotsOf_setAll {n : Nat} (hd : s.depth = n + 1) (h : s.Tidy) (v : ν) (k : κ) :
    (s.setAll v).slotsOf k = if s.get? k = none then [] else putAt (s.slotsOf k) n v := by
  have hl : s.level? = some n := by rw [level?, hd]
  have hs : (s.setAll v).slotsOf k = ((s.slots.lookup k).map fun list => putAt list n v).getD [] := by
    rw [setAll, hl, slotsOf]
    dsimp only
    rw [lookup_map_snd fun list => putAt list n v]
  rw [hs]
  cases hk : s.slots.lookup k with
  | none =>
    have hn : s.get? k = none := by simp [get?, slotsOf, hk, innermost]
    rw [if_pos hn]
    rfl
  | some list =>
    have ho : s.slotsOf k = list := by simp [slotsOf, hk]
    have hn : s.get? k ≠ none := by
      rw [Ne, h.get?_eq_none_iff, ho]
      intro he
      obtain ⟨before, after, hb, -⟩ := List.lookup_eq_some_iff.1 hk
      obtain ⟨v, hv⟩ := h.ends (k, list) (by rw [hb]; simp)
      simp [he] at hv
    rw [if_neg hn, ho]
    rfl

theorem Represents.setAll {level : List (κ × ν)} (h : s.Represents (level :: levels)) (ht : s.Tidy) (v : ν) :
    (s.setAll v).Represents
      (((level :: levels).flatten.map (fun e => (e.1, v)) ++ level) :: levels) := by
  have hd : s.depth = levels.length + 1 := h.depth_eq
  have hl : s.level? = some levels.length := by rw [level?, hd]
  have hdepth : (s.setAll v).depth = s.depth := by rw [ScopeStack.setAll, hl]
  refine ⟨by rw [hdepth, hd]; rfl, (ht.setAll v).nodup, ?_, ?_⟩
  · exact (ht.setAll v).length_slotsOf_le
  · intro i k
    have hv := h.valueAt_eq i k
    rw [valueAt, bind_getElem?_reverse_cons] at hv
    rw [valueAt, slotsOf_setAll hd ht, bind_getElem?_reverse_cons, h.get?, List.lookup_append,
      lookup_map_snd (fun _ => v), lookup_flatten]
    cases hk : (level :: levels).findSome? (List.lookup k) with
    | none =>
      -- An unknown name has no slots, so no level has a value for it.
      have ho : s.slotsOf k = [] := (ht.get?_eq_none_iff k).1 (by rw [h.get?, hk])
      rw [ho] at hv
      rw [if_pos rfl]
      exact hv
    | some w =>
      rw [if_neg (by simp), join_getElem?_putAt, hv]
      split <;> rfl

/-! ## Listings -/

omit [BEq κ] [LawfulBEq κ] in
/-- A listing that reads a value off the slots of each name lists a name once at most. -/
theorem Tidy.nodup_listing (h : s.Tidy) (read : List (Option ν) → Option ν) :
    ((s.slots.filterMap fun e => (read e.2).map fun v => (e.1, v)).map Prod.fst).Nodup := by
  refine List.Nodup.sublist ?_ h.nodup
  rw [List.map_filterMap]
  induction s.slots with
  | nil => exact List.Sublist.refl _
  | cons e es ih =>
    rw [List.filterMap_cons, List.map_cons]
    cases read e.2 with
    | none => exact ih.cons _
    | some v => exact ih.cons_cons _

theorem Tidy.mem_listing (h : s.Tidy) (read : List (Option ν) → Option ν) (hr : read [] = none) (k : κ) (v : ν) :
    (k, v) ∈ s.slots.filterMap (fun e => (read e.2).map fun v => (e.1, v)) ↔ read (s.slotsOf k) = some v := by
  rw [List.mem_filterMap]
  constructor
  · intro hm
    obtain ⟨e, he, hv⟩ := hm
    obtain ⟨w, hw, hkv⟩ := Option.map_eq_some_iff.1 hv
    cases hkv
    rw [slotsOf_eq_of_mem h.nodup he]
    exact hw
  · intro hv
    have hk : s.slotsOf k ≠ [] := by
      intro hn
      rw [hn, hr] at hv
      cases hv
    exact ⟨_, mem_slots_of_slotsOf hk, by rw [hv]; rfl⟩

theorem Tidy.mem_toList (h : s.Tidy) (k : κ) (v : ν) : (k, v) ∈ s.toList ↔ s.get? k = some v :=
  h.mem_listing innermost rfl k v

/-- The levels from the deepest one that binds a name outwards are as many as the name has slots. -/
theorem Represents.slotCount (h : s.Represents levels) (ht : s.Tidy) (k : κ) :
    s.slotCount k = (levels.dropWhile fun level => (level.lookup k).isNone).length := by
  have padded := congrArg List.reverse (h.padded k)
  rw [← List.map_reverse, List.reverse_reverse, List.reverse_append, List.reverse_replicate] at padded
  have hd : (levels.map (List.lookup k)).dropWhile Option.isNone = (s.slotsOf k).reverse := by
    rw [← padded]
    induction s.depth - (s.slotsOf k).length with
    | succ n ih => simpa [List.replicate_succ] using ih
    | zero =>
      -- The last slot has a value, so nothing is dropped from the reversed list.
      cases hs : (s.slotsOf k).reverse with
      | nil => rfl
      | cons x xs =>
        obtain ⟨v, hv⟩ := ht.ends_slotsOf (k := k) (by intro hn; simp [hn] at hs)
        rw [← List.head?_reverse, hs, List.head?_cons] at hv
        cases hv
        rfl
  rw [List.dropWhile_map] at hd
  have hl := congrArg List.length hd
  simpa [ScopeStack.slotCount, Function.comp_def] using hl.symm

/-- A stack in order that stands for levels answers as they do. -/
theorem Represents.mirrors (h : s.Represents levels) (ht : s.Tidy) : s.Mirrors levels := by
  have current : ∀ k, s.getCurrent? k = levels.head?.bind (List.lookup k) := by
    intro k
    cases levels with
    | nil => exact h.getCurrent?_nil k
    | cons level outer => exact h.getCurrent? k
  have mem : ∀ k v, (k, v) ∈ s.toList ↔ levels.findSome? (List.lookup k) = some v := by
    intro k v
    rw [← h.get?]
    exact ht.mem_toList k v
  refine ⟨h.depth_eq, h.get?, current, ht.nodup_listing _, mem, ht.nodup_listing _, ?_, ?_, h.slotCount ht, ?_⟩
  · intro k v
    rw [← current]
    exact ht.mem_listing (atDepth s.depth) (by simp [atDepth]) k v
  · rw [isEmpty, List.isEmpty_iff, List.eq_nil_iff_forall_not_mem]
    constructor
    · intro hn level hm k
      have hk : levels.findSome? (List.lookup k) = none := by
        rw [Option.eq_none_iff_forall_ne_some]
        intro v hv
        exact hn (k, v) ((mem k v).2 hv)
      exact List.findSome?_eq_none_iff.1 hk level hm
    · intro hn e he
      have hk := (mem e.1 e.2).1 he
      rw [List.findSome?_eq_none_iff.2 fun level hm => hn level hm e.1] at hk
      cases hk
  · intro e he
    obtain ⟨v, hv⟩ := ht.ends e he
    refine ⟨?_, ht.bounded e he, v, hv⟩
    intro hn
    simp [hn] at hv

/-! ## Runs -/

omit [LawfulBEq κ] in
theorem isOpen_of_represents (h : s.Represents levels) : s.isOpen = !levels.isEmpty := by
  rw [isOpen, h.depth_eq]
  cases levels <;> rfl

/-- A stack that stands for levels still does after a change to both, and a change is refused on both sides or on
neither. -/
theorem change_represents (make : κ → Nat → ν) (c : Change κ ν) (h : s.Represents levels) (ht : s.Tidy) :
    match s.change make c, c.onLevels make levels with
    | .ok s', some levels' => s'.Represents levels' ∧ s'.Tidy
    | .error _, none => True
    | _, _ => False := by
  have ho := isOpen_of_represents h
  cases levels with
  | nil =>
    have hl : s.level? = none := by rw [level?, h.depth_eq]; rfl
    cases c with
    | start => exact ⟨h.start, ht.start⟩
    | finish => simp [change, finish?, ho, Change.onLevels]
    | set k v => simp [change, whenOpen, ho, Change.onLevels]
    | setAll v => simp [change, whenOpen, ho, Change.onLevels]
    | getOrCreate k => simp [change, getOrCreate, hl, Change.onLevels, Except.map]
  | cons level outer =>
    have hl : s.level? = some outer.length := by rw [level?, h.depth_eq]; rfl
    cases c with
    | start => exact ⟨h.start, ht.start⟩
    | finish =>
      simp only [change, finish?, ho]
      exact ⟨h.finish, ht.finish⟩
    | set k v =>
      simp only [change, whenOpen, ho]
      exact ⟨h.set k v, ht.set k v⟩
    | setAll v =>
      simp only [change, whenOpen, ho]
      exact ⟨h.setAll ht v, ht.setAll v⟩
    | getOrCreate k =>
      simp only [change, getOrCreate, hl, h.get?, Change.onLevels]
      cases hk : (level :: outer).findSome? (List.lookup k) with
      | some v =>
        have hb : ((level :: outer).any fun l => (l.lookup k).isSome) = true := by
          obtain ⟨l, hm, hv⟩ := List.exists_of_findSome?_eq_some hk
          exact List.any_eq_true.2 ⟨l, hm, by rw [hv]; rfl⟩
        rw [if_pos hb]
        exact ⟨h, ht⟩
      | none =>
        have hb : ((level :: outer).any fun l => (l.lookup k).isSome) = false := by
          rw [List.any_eq_false]
          intro l hm
          simp [List.findSome?_eq_none_iff.1 hk l hm]
        rw [if_neg (by simp [hb])]
        exact ⟨h.set k _, ht.set k _⟩

/-- So it does after any number of changes. -/
theorem run_represents (make : κ → Nat → ν) (cs : List (Change κ ν)) (h : s.Represents levels) (ht : s.Tidy) :
    match cs.foldlM (change make) s, cs.foldlM (Change.onLevels make) levels with
    | .ok s', some levels' => s'.Represents levels' ∧ s'.Tidy
    | .error _, none => True
    | _, _ => False := by
  induction cs generalizing s levels with
  | nil => exact ⟨h, ht⟩
  | cons c cs ih =>
    have step := change_represents make c h ht
    rw [List.foldlM_cons, List.foldlM_cons]
    cases hs : s.change make c with
    | error e =>
      cases hl : c.onLevels make levels with
      | none => trivial
      | some levels' => rw [hs, hl] at step; exact step.elim
    | ok s' =>
      cases hl : c.onLevels make levels with
      | none => rw [hs, hl] at step; exact step.elim
      | some levels' =>
        rw [hs, hl] at step
        exact ih step.1 step.2

end Lawful

/-- After any run of changes, from a stack with nothing in it, the stack answers as a stack of finite maps does
to which the same changes were made. A run is refused on both sides or on neither. -/
theorem run_mirrors [DecidableEq κ] (make : κ → Nat → ν) (cs : List (Change κ ν)) :
    match cs.foldlM (change make) (empty : ScopeStack κ ν), cs.foldlM (Change.onLevels make) [] with
    | .ok s, some levels => s.Mirrors levels
    | .error _, none => True
    | _, _ => False := by
  have h := run_represents make cs (Represents.empty (κ := κ) (ν := ν)) Tidy.empty
  revert h
  split
  · intro h
    exact h.1.mirrors h.2
  · exact id
  · exact id

end SqlDialects.ScopeStack
