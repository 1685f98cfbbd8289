import SqlDialects.Proofs.Scope.Flatten
import SqlDialects.Render.Context

/-!
# Names made up

What is picked is the first candidate that is not taken (`Text.exists_firstFree`). So a generated alias is none of
the names that are visible where it is made (`Context.get?_freshAlias`), and it depends on nothing else: where the
same names are visible, on whatever levels and in whatever order, the same alias is made
(`Context.freshAlias_congr`).
-/

set_option autoImplicit false

namespace SqlDialects

theorem Decimal.digits_injective {m n : Nat} (h : digits m = digits n) : m = n := by
  have hd : Nat.toDigits 10 m = Nat.toDigits 10 n := String.ofList_injective h
  rw [← Nat.ofDigitChars_ten_toDigits (n := m), hd, Nat.ofDigitChars_ten_toDigits]

/-- Among different candidates there is a first one that is not taken, and that one is picked. -/
theorem Text.exists_firstFree {candidate : Nat → String} (distinct : ∀ i j, candidate i = candidate j → i = j)
    (taken : List String) :
    ∃ k, firstFree candidate taken = candidate k ∧ candidate k ∉ taken ∧ ∀ j < k, candidate j ∈ taken := by
  have free : firstFree candidate taken ∉ taken := firstFree_not_mem distinct
  unfold firstFree at free ⊢
  cases h : ((List.range taken.length).map candidate).find? (fun c => !taken.contains c) with
  | some c =>
    rw [h] at free
    obtain ⟨-, i, hi, rfl, before⟩ := List.find?_eq_some_iff_getElem.1 h
    rw [List.getElem_map, List.getElem_range] at free ⊢
    refine ⟨i, rfl, free, ?_⟩
    intro j hj
    have taken := before j hj
    rw [List.getElem_map, List.getElem_range] at taken
    simpa using taken
  | none =>
    rw [h] at free
    refine ⟨taken.length, rfl, free, ?_⟩
    intro j hj
    have hm := List.find?_eq_none.1 h (candidate j) (List.mem_map_of_mem (List.mem_range.2 hj))
    simpa using hm

/-- What is picked depends on which names are taken, not on their order. -/
theorem Text.firstFree_congr {candidate : Nat → String} {taken taken' : List String} (hn : taken.Nodup)
    (hn' : taken'.Nodup) (h : ∀ n, n ∈ taken ↔ n ∈ taken') :
    firstFree candidate taken = firstFree candidate taken' := by
  have hl : taken.length = taken'.length := by
    apply Nat.le_antisymm
    · exact length_le_of_nodup_of_subset hn fun n hm => (h n).1 hm
    · exact length_le_of_nodup_of_subset hn' fun n hm => (h n).2 hm
  have hc : ∀ n, taken.contains n = taken'.contains n := by
    intro n
    rw [Bool.eq_iff_iff]
    simpa using h n
  simp only [firstFree, hl, hc]

namespace Context

theorem aliasCandidate_injective (stem : String) (i j : Nat) (h : aliasCandidate stem i = aliasCandidate stem j) :
    i = j := by
  -- A number adds a digit at least, so the stem itself is no numbered candidate.
  have numbered : ∀ n, stem ≠ stem ++ Decimal.digits (n + 1) := by
    intro n he
    have hl := congrArg String.length he
    simp [Decimal.digits] at hl
  cases i with
  | zero =>
    cases j with
    | zero => rfl
    | succ j => exact absurd h (numbered j)
  | succ i =>
    cases j with
    | zero => exact absurd h.symm (numbered i)
    | succ j =>
      have hd : Decimal.digits (i + 1) = Decimal.digits (j + 1) := by simpa [aliasCandidate] using h
      exact Decimal.digits_injective hd

variable {c c' : Context}

theorem mem_visibleNames (h : c.scopes.Tidy) (n : String) : n ∈ c.visibleNames ↔ (c.scopes.get? n).isSome = true := by
  rw [visibleNames, List.mem_map, Option.isSome_iff_exists]
  constructor
  · intro hm
    obtain ⟨e, he, rfl⟩ := hm
    exact ⟨e.2, (h.mem_toList e.1 e.2).1 he⟩
  · intro hm
    obtain ⟨d, hd⟩ := hm
    exact ⟨(n, d), (h.mem_toList n d).2 hd, rfl⟩

/-- A generated alias is not visible where it is made. -/
theorem get?_freshAlias (h : c.scopes.Tidy) (stem : String) : c.scopes.get? (c.freshAlias stem) = none := by
  have hn : c.freshAlias stem ∉ c.visibleNames := Text.firstFree_not_mem (aliasCandidate_injective stem)
  rw [mem_visibleNames h] at hn
  simpa using hn

/-- The alias is the first of the candidates that no level declares. -/
theorem exists_freshAlias (h : c.scopes.Tidy) (stem : String) :
    ∃ k, c.freshAlias stem = aliasCandidate stem k ∧
      (∀ level, c.scopes.valueAt level (aliasCandidate stem k) = none) ∧
      ∀ j < k, ∃ level, c.scopes.valueAt level (aliasCandidate stem j) ≠ none := by
  obtain ⟨k, hk, free, before⟩ := Text.exists_firstFree (aliasCandidate_injective stem) c.visibleNames
  refine ⟨k, hk, ?_, ?_⟩
  · rw [← ScopeStack.get?_eq_none_iff_valueAt]
    rw [mem_visibleNames h] at free
    simpa using free
  · intro j hj
    have visible : c.scopes.get? (aliasCandidate stem j) ≠ none :=
      Option.isSome_iff_ne_none.1 ((mem_visibleNames h _).1 (before j hj))
    rw [Ne, ScopeStack.get?_eq_none_iff_valueAt] at visible
    exact Classical.not_forall.1 visible

/-- Where the same names are visible, the same alias is made. -/
theorem freshAlias_congr (h : c.scopes.Tidy) (h' : c'.scopes.Tidy)
    (hn : ∀ n, (c.scopes.get? n).isSome = (c'.scopes.get? n).isSome) (stem : String) :
    c.freshAlias stem = c'.freshAlias stem := by
  apply Text.firstFree_congr
  · exact h.nodup_listing ScopeStack.innermost
  · exact h'.nodup_listing ScopeStack.innermost
  · intro n
    rw [mem_visibleNames h, mem_visibleNames h', hn]

end Context

end SqlDialects
