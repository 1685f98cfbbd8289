import SqlDialects.Proofs.Scope.Runs

/-!
# Flattened scopes

A stack in order can be taken apart into levels (`ScopeStack.Tidy.represents_entries`). Flattening it puts all
that is visible on one level, so every name is found there with the value that it has in the stack
(`ScopeStack.Tidy.get?_flatten`).
-/

set_option autoImplicit false

namespace SqlDialects.ScopeStack

variable {κ ν : Type} [BEq κ] [LawfulBEq κ] {s : ScopeStack κ ν}

/-! ## Levels -/

/-- What is set at a level, counted from the outermost. -/
def entriesAt (s : ScopeStack κ ν) (level : Nat) : List (κ × ν) :=
  s.slots.filterMap fun e => e.2[level]?.join.map fun v => (e.1, v)

/-- The levels of a stack, innermost first. -/
def entries (s : ScopeStack κ ν) : List (List (κ × ν)) := (List.range s.depth).reverse.map s.entriesAt

theorem Tidy.lookup_entriesAt (h : s.Tidy) (level : Nat) (k : κ) :
    (s.entriesAt level).lookup k = s.valueAt level k := by
  apply Option.ext
  intro v
  have hn : ((s.entriesAt level).map Prod.fst).Nodup := h.nodup_listing fun list => list[level]?.join
  rw [lookup_eq_some_iff_mem hn]
  exact h.mem_listing (fun list => list[level]?.join) rfl k v

theorem Tidy.represents_entries (h : s.Tidy) : s.Represents s.entries where
  depth_eq := by simp [entries]
  nodup := h.nodup
  bounded := h.length_slotsOf_le
  valueAt_eq level k := by
    have hb := h.length_slotsOf_le k
    rw [entries, ← List.map_reverse, List.reverse_reverse, List.getElem?_map]
    by_cases hl : level < s.depth
    · rw [List.getElem?_range hl]
      exact (h.lookup_entriesAt level k).symm
    · -- There is nothing beyond the innermost level.
      rw [valueAt, List.getElem?_eq_none (by omega), List.getElem?_eq_none (by simp; omega)]
      rfl

/-- No name is visible where no level is open. -/
theorem Tidy.get?_of_depth (h : s.Tidy) (hd : s.depth = 0) (k : κ) : s.get? k = none := by
  have hb := h.length_slotsOf_le k
  rw [h.get?_eq_none_iff]
  exact List.length_eq_zero_iff.1 (by omega)

/-! ## All on one level -/

theorem Represents.foldl_set {level : List (κ × ν)} {outer : List (List (κ × ν))} (h : s.Represents (level :: outer))
    (es : List (κ × ν)) :
    (es.foldl (fun t e => t.set e.1 e.2) s).Represents ((es.reverse ++ level) :: outer) := by
  induction es generalizing s level with
  | nil => exact h
  | cons e es ih =>
    have hs := ih (h.set e.1 e.2)
    simpa using hs

theorem Tidy.foldl_set (h : s.Tidy) (es : List (κ × ν)) : (es.foldl (fun t e => t.set e.1 e.2) s).Tidy := by
  induction es generalizing s with
  | nil => exact h
  | cons e es ih => exact ih (h.set e.1 e.2)

theorem tidy_flatten (s : ScopeStack κ ν) : s.flatten.Tidy := by
  unfold flatten
  split
  · exact Tidy.empty.start.foldl_set s.toList
  · exact Tidy.empty

theorem represents_flatten (ho : s.isOpen = true) : s.flatten.Represents [s.toList.reverse] := by
  have h := (Represents.empty (κ := κ) (ν := ν)).start.foldl_set s.toList
  rw [List.append_nil] at h
  rw [flatten, if_pos ho]
  exact h

theorem isOpen_flatten (s : ScopeStack κ ν) : s.flatten.isOpen = s.isOpen := by
  cases ho : s.isOpen with
  | false =>
    rw [flatten, ho]
    rfl
  | true => rw [isOpen_of_represents (represents_flatten ho)]; rfl

/-- Flattening a stack hides no name and changes none. -/
theorem Tidy.get?_flatten (h : s.Tidy) (k : κ) : s.flatten.get? k = s.get? k := by
  cases ho : s.isOpen with
  | false =>
    have hd : s.depth = 0 := by simpa [isOpen] using ho
    rw [h.get?_of_depth hd, flatten, ho]
    rfl
  | true =>
    have hn : (s.toList.reverse.map Prod.fst).Nodup := by
      rw [List.map_reverse]
      exact List.pairwise_reverse.2 ((h.nodup_listing innermost).imp Ne.symm)
    rw [(represents_flatten ho).get?]
    apply Option.ext
    intro v
    rw [← h.mem_toList, ← List.mem_reverse, ← lookup_eq_some_iff_mem hn]
    rw [List.findSome?_cons]
    cases s.toList.reverse.lookup k <;> rfl

/-! ## Setting one name -/

omit [LawfulBEq κ] in
/-- A name is visible if some level sets it. -/
theorem get?_eq_none_iff_valueAt (s : ScopeStack κ ν) (k : κ) :
    s.get? k = none ↔ ∀ level, s.valueAt level k = none := by
  rw [get?, innermost, List.findSome?_eq_none_iff]
  constructor
  · intro h level
    rw [valueAt]
    cases hx : (s.slotsOf k)[level]? with
    | none => rfl
    | some x => exact h x (List.mem_reverse.2 (List.mem_of_getElem? hx))
  · intro h x hx
    obtain ⟨level, hl⟩ := List.getElem?_of_mem (List.mem_reverse.1 hx)
    have hv := h level
    rw [valueAt, hl] at hv
    exact hv

theorem slotsOf_set_of_ne {k k' : κ} (hk : k' ≠ k) (v : ν) : (s.set k v).slotsOf k' = s.slotsOf k' := by
  cases hl : s.level? with
  | none => rw [set, hl]
  | some n => rw [slotsOf_set (depth_of_level? hl), beq_false_of_ne hk, if_neg Bool.false_ne_true]

theorem Tidy.represents_set (h : s.Tidy) (ho : s.isOpen = true) (k : κ) (v : ν) :
    ∃ level outer, s.Represents (level :: outer) ∧ (s.set k v).Represents (((k, v) :: level) :: outer) := by
  have hr := h.represents_entries
  cases he : s.entries with
  | nil =>
    rw [he] at hr
    rw [isOpen_of_represents hr] at ho
    cases ho
  | cons level outer =>
    rw [he] at hr
    exact ⟨level, outer, hr, hr.set k v⟩

theorem Tidy.getCurrent?_set (h : s.Tidy) (ho : s.isOpen = true) (k : κ) (v : ν) :
    (s.set k v).getCurrent? k = some v := by
  obtain ⟨level, outer, -, ht⟩ := h.represents_set ho k v
  rw [ht.getCurrent?, List.lookup_cons_self]

/-- Setting a name hides no other. -/
theorem Tidy.isSome_get?_set (h : s.Tidy) {k' : κ} (hk : (s.get? k').isSome = true) (k : κ) (v : ν) :
    ((s.set k v).get? k').isSome = true := by
  cases ho : s.isOpen with
  | false =>
    have hd : s.depth = 0 := by simpa [isOpen] using ho
    rwa [set_of_depth hd]
  | true =>
    obtain ⟨level, outer, hs, ht⟩ := h.represents_set ho k v
    rw [hs.get?, List.findSome?_cons] at hk
    rw [ht.get?, List.findSome?_cons, List.lookup_cons]
    by_cases he : k' == k
    · rw [he]
      rfl
    · rw [Bool.eq_false_iff.2 he]
      exact hk

theorem Tidy.isSome_get?_set_self (h : s.Tidy) (ho : s.isOpen = true) (k : κ) (v : ν) :
    ((s.set k v).get? k).isSome = true := by
  obtain ⟨level, outer, -, ht⟩ := h.represents_set ho k v
  rw [ht.get?, List.findSome?_cons, List.lookup_cons_self]
  rfl

end SqlDialects.ScopeStack
