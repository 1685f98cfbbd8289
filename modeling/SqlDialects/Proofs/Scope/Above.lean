import SqlDialects.Proofs.Scope.Flatten

/-!
# Stacks that are alike on top

Two stacks of scopes may differ below and still be used alike: if they have the same levels on top, and below them
the same names, whatever these stand for and on however many levels. That is the relation between a stack and the
flattened one (`ScopeStack.Tidy.alike_flatten`), and opening, closing and setting keep it.
-/

set_option autoImplicit false

namespace SqlDialects.ScopeStack

variable {κ ν : Type} [BEq κ]

/-- The names of levels, without what they stand for. -/
def SameNames (outer outer' : List (List (κ × ν))) : Prop :=
  ∀ k, (outer.findSome? (List.lookup k)).isSome = (outer'.findSome? (List.lookup k)).isSome

/-- Two stacks in order with so many levels in common. Below them both have levels or neither, and the same names
are bound there. -/
structure AlikeAbove (levels : Nat) (s s' : ScopeStack κ ν) : Prop where
  tidy : s.Tidy
  tidy' : s'.Tidy
  parts : ∃ inner outer outer' : List (List (κ × ν)), inner.length = levels ∧ s.Represents (inner ++ outer) ∧
    s'.Represents (inner ++ outer') ∧ (outer = [] ↔ outer' = []) ∧ SameNames outer outer'

variable {s s' : ScopeStack κ ν} {levels : Nat}

namespace AlikeAbove

theorem isOpen (h : AlikeAbove levels s s') : s.isOpen = s'.isOpen := by
  obtain ⟨inner, outer, outer', -, hs, hs', he, -⟩ := h.parts
  rw [isOpen_of_represents hs, isOpen_of_represents hs', Bool.eq_iff_iff]
  simp [he]

theorem names (h : AlikeAbove levels s s') (k : κ) : (s.get? k).isSome = (s'.get? k).isSome := by
  obtain ⟨inner, outer, outer', -, hs, hs', -, hn⟩ := h.parts
  rw [hs.get?, hs'.get?, List.findSome?_append, List.findSome?_append]
  cases inner.findSome? (List.lookup k) with
  | none => exact hn k
  | some v => rfl

/-- The current level is one of those in common, if there are any. -/
theorem current (h : AlikeAbove levels s s') (hl : 0 < levels) (k : κ) : s.getCurrent? k = s'.getCurrent? k := by
  obtain ⟨inner, outer, outer', hi, hs, hs', -, -⟩ := h.parts
  cases inner with
  | nil =>
    subst hi
    exact absurd hl (Nat.lt_irrefl 0)
  | cons level inner => rw [hs.getCurrent?, hs'.getCurrent?]

theorem start (h : AlikeAbove levels s s') : AlikeAbove (levels + 1) s.start s'.start where
  tidy := h.tidy.start
  tidy' := h.tidy'.start
  parts := by
    obtain ⟨inner, outer, outer', hi, hs, hs', hn⟩ := h.parts
    exact ⟨[] :: inner, outer, outer', congrArg (· + 1) hi, hs.start, hs'.start, hn⟩

end AlikeAbove

variable [LawfulBEq κ]

theorem SameNames.cons {level level' : List (κ × ν)} {outer outer' : List (List (κ × ν))}
    (h : SameNames (level :: outer) (level' :: outer')) (k : κ) (v : ν) :
    SameNames (((k, v) :: level) :: outer) (((k, v) :: level') :: outer') := by
  intro k'
  have hk := h k'
  by_cases he : k' = k
  · simp [he]
  · simpa [List.findSome?_cons, List.lookup_cons, beq_false_of_ne he] using hk

theorem Tidy.entries_eq_nil_iff (h : s.Tidy) : s.entries = [] ↔ s.isOpen = false := by
  have hd := h.represents_entries.depth_eq
  rw [isOpen, hd, ← List.length_eq_zero_iff]
  simp

/-- Stacks with the same names are alike above no level. -/
theorem AlikeAbove.of_names (h : s.Tidy) (h' : s'.Tidy) (ho : s.isOpen = s'.isOpen)
    (hn : ∀ k, (s.get? k).isSome = (s'.get? k).isSome) : AlikeAbove 0 s s' where
  tidy := h
  tidy' := h'
  parts := by
    refine ⟨[], s.entries, s'.entries, rfl, h.represents_entries, h'.represents_entries, ?_, ?_⟩
    · rw [h.entries_eq_nil_iff, h'.entries_eq_nil_iff, ho]
    · intro k
      rw [← h.represents_entries.get?, ← h'.represents_entries.get?]
      exact hn k

namespace AlikeAbove

theorem finish (h : AlikeAbove (levels + 1) s s') : AlikeAbove levels s.finish s'.finish where
  tidy := h.tidy.finish
  tidy' := h.tidy'.finish
  parts := by
    obtain ⟨inner, outer, outer', hi, hs, hs', hn⟩ := h.parts
    cases inner with
    | nil => cases hi
    | cons level inner => exact ⟨inner, outer, outer', Nat.succ.inj hi, hs.finish, hs'.finish, hn⟩

theorem set (h : AlikeAbove levels s s') (k : κ) (v : ν) : AlikeAbove levels (s.set k v) (s'.set k v) where
  tidy := h.tidy.set k v
  tidy' := h.tidy'.set k v
  parts := by
    obtain ⟨inner, outer, outer', hi, hs, hs', he, hn⟩ := h.parts
    cases inner with
    | cons level inner =>
      exact ⟨((k, v) :: level) :: inner, outer, outer', hi, hs.set k v, hs'.set k v, he, hn⟩
    | nil =>
      -- Set below the levels in common, a name is known on both sides, or there is no level on either.
      cases outer with
      | nil =>
        cases he.1 rfl
        rw [set_of_depth hs.depth_eq, set_of_depth hs'.depth_eq]
        exact ⟨[], [], [], hi, hs, hs', he, hn⟩
      | cons level outer =>
        cases outer' with
        | nil => cases he.2 rfl
        | cons level' outer' =>
          exact ⟨[], ((k, v) :: level) :: outer, ((k, v) :: level') :: outer', hi, hs.set k v, hs'.set k v,
            by simp, hn.cons k v⟩

theorem flatten (h : AlikeAbove levels s s') : AlikeAbove 0 s.flatten s'.flatten := by
  refine .of_names (tidy_flatten s) (tidy_flatten s') ?_ ?_
  · rw [isOpen_flatten, isOpen_flatten, h.isOpen]
  · intro k
    rw [h.tidy.get?_flatten, h.tidy'.get?_flatten, h.names]

end AlikeAbove

/-- A stack and the flattened one have the same names. -/
theorem Tidy.alike_flatten (h : s.Tidy) : AlikeAbove 0 s s.flatten :=
  .of_names h (tidy_flatten s) (isOpen_flatten s).symm fun k => by rw [h.get?_flatten]

end SqlDialects.ScopeStack
