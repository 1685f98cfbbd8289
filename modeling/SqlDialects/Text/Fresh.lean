/-!
# Picking a name that is not taken

Generated names come from a sequence of pairwise different candidates, and the first one that is not
taken wins. With at most `n` names taken, one of the first `n + 1` candidates is free, so the search
is bounded by the number of taken names.
-/

set_option autoImplicit false

namespace SqlDialects.Text

/-- The first candidate that is not among the taken names. -/
def firstFree (candidate : Nat → String) (taken : List String) : String :=
  (((List.range taken.length).map candidate).find? (fun c => !taken.contains c)).getD
    (candidate taken.length)

/-- Pairwise different members of a list are at most as many as the list is long. -/
theorem length_le_of_nodup_of_subset {xs ys : List String} (nodup : xs.Nodup) (sub : xs ⊆ ys) :
    xs.length ≤ ys.length := by
  induction xs generalizing ys with
  | nil => simp
  | cons x xs ih =>
    obtain ⟨fresh, nodup⟩ := List.nodup_cons.1 nodup
    have mem : x ∈ ys := sub (by simp)
    have rest : xs ⊆ ys.erase x := by
      intro y hy
      have ne : y ≠ x := fun h => fresh (h ▸ hy)
      exact (List.mem_erase_of_ne ne).2 (sub (by simp [hy]))
    have := ih nodup rest
    have := List.length_erase_of_mem mem
    have := List.length_pos_of_mem mem
    simp; omega

/-- A candidate outside the taken names exists among as many candidates as there are names and one
more, so the chosen name is free. -/
theorem firstFree_not_mem {candidate : Nat → String} {taken : List String}
    (distinct : ∀ i j, candidate i = candidate j → i = j) : firstFree candidate taken ∉ taken := by
  unfold firstFree
  cases h : ((List.range taken.length).map candidate).find? (fun c => !taken.contains c) with
  | some c => simpa using List.find?_some h
  | none =>
    intro last
    have all : ∀ i < taken.length + 1, candidate i ∈ taken := by
      intro i hi
      rcases Nat.lt_or_eq_of_le (Nat.le_of_lt_succ hi) with hi | rfl
      · have := List.find?_eq_none.1 h (candidate i)
          (List.mem_map.2 ⟨i, List.mem_range.2 hi, rfl⟩)
        simpa using this
      · exact last
    have sub : (List.range (taken.length + 1)).map candidate ⊆ taken := by
      intro c hc
      obtain ⟨i, hi, rfl⟩ := List.mem_map.1 hc
      exact all i (List.mem_range.1 hi)
    have nodup : ((List.range (taken.length + 1)).map candidate).Nodup := by
      rw [List.nodup_iff_pairwise_ne, List.pairwise_map]
      exact List.nodup_range.imp (fun hne he => hne (distinct _ _ he))
    have := length_le_of_nodup_of_subset nodup sub
    simp only [List.length_map, List.length_range] at this
    omega

end SqlDialects.Text
