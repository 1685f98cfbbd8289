import SqlDialects.Proofs.Scope

/-!
# Scope stacks in order

A stack that was built by its operations keeps no slot that it does not need: a slot list ends at the deepest
level its name is set at, and a name without slots is not listed. That makes the representation unique where it
matters: what is set on a level leaves no trace once the level is closed (`ScopeStack.finish_set`), so opening a
level and closing it gives back the very stack.
-/

set_option autoImplicit false

namespace SqlDialects.ScopeStack

variable {κ ν : Type}

/-- Every name is listed once, with slots up to the deepest level that it is set at. -/
structure Tidy (s : ScopeStack κ ν) : Prop where
  nodup : (s.slots.map Prod.fst).Nodup
  bounded : ∀ e ∈ s.slots, e.2.length ≤ s.depth
  ends : ∀ e ∈ s.slots, ∃ v, e.2.getLast? = some (some v)

theorem depth_of_level? {s : ScopeStack κ ν} {n : Nat} (h : s.level? = some n) : s.depth = n + 1 := by
  unfold level? at h
  split at h
  · cases h
  · next m hm =>
    cases h
    exact hm

/-- Without an open level nothing is set. -/
theorem set_of_depth [BEq κ] {s : ScopeStack κ ν} (h : s.depth = 0) (k : κ) (v : ν) : s.set k v = s := by
  rw [set, level?, h]

/-! ## Slot lists that end in a value -/

theorem getLast?_putAt {list : List (Option ν)} {level : Nat} (h : list.length ≤ level + 1) (v : ν) :
    (putAt list level v).getLast? = some (some v) := by
  have hl : (putAt list level v).length = level + 1 := by
    rw [length_putAt]
    omega
  rw [List.getLast?_eq_getElem?, hl, Nat.add_sub_cancel, putAt]
  apply List.getElem?_set_self
  simp
  omega

/-- The last slot of a trimmed list is not empty. -/
theorem getLast?_trimSlots {depth : Nat} {list : List (Option ν)} (h : trimSlots depth list ≠ []) :
    ∃ v, (trimSlots depth list).getLast? = some (some v) := by
  unfold trimSlots at h ⊢
  rw [List.getLast?_reverse]
  cases hd : (list.take depth).reverse.dropWhile Option.isNone with
  | nil => simp [hd] at h
  | cons x xs =>
    have hx : x.isNone = false := by
      have hp := List.head?_dropWhile_not Option.isNone (list.take depth).reverse
      rw [hd] at hp
      simpa using hp
    cases x with
    | none => cases hx
    | some v => exact ⟨v, rfl⟩

/-- A list that is short enough and ends in a value has nothing to trim. -/
theorem trimSlots_eq_self {depth : Nat} {list : List (Option ν)} (hl : list.length ≤ depth)
    (he : ∃ v, list.getLast? = some (some v)) : trimSlots depth list = list := by
  obtain ⟨v, hv⟩ := he
  rw [trimSlots, List.take_of_length_le hl]
  rw [← List.head?_reverse] at hv
  cases hr : list.reverse with
  | nil => simp [hr] at hv
  | cons x xs =>
    rw [hr, List.head?_cons] at hv
    cases hv
    rw [List.dropWhile_cons_of_neg (by simp), ← hr, List.reverse_reverse]

/-- Trimming below a level forgets what was put there. -/
theorem trimSlots_putAt (list : List (Option ν)) (level : Nat) (v : ν) :
    trimSlots level (putAt list level v) = trimSlots level list := by
  have hn : ∀ n, ((list ++ List.replicate n none).take level).reverse.dropWhile Option.isNone
      = (list.take level).reverse.dropWhile Option.isNone := by
    intro n
    rw [List.take_append, List.take_replicate, List.reverse_append, List.reverse_replicate]
    induction min (level - list.length) n with
    | zero => rfl
    | succ m ih => simp [List.replicate_succ]
  rw [trimSlots, trimSlots, putAt, List.take_set_of_le (Nat.le_refl level), hn]

/-! ## Names -/

section Lawful

variable [BEq κ] [LawfulBEq κ]

/-- Where no name is listed twice, an entry is found under its name. -/
theorem lookup_of_mem {α : Type} {es : List (κ × α)} (h : (es.map Prod.fst).Nodup) {e : κ × α} (he : e ∈ es) :
    es.lookup e.1 = some e.2 := by
  obtain ⟨before, after, rfl⟩ := List.append_of_mem he
  rw [List.lookup_eq_some_iff]
  refine ⟨before, after, rfl, fun p hp => ?_⟩
  -- The names before it are others.
  rw [List.map_append, List.map_cons, List.nodup_append] at h
  have hne := h.2.2 p.1 (List.mem_map_of_mem hp) e.1 (by simp)
  simpa using fun hep => hne hep.symm

theorem lookup_eq_some_iff_mem {α : Type} {es : List (κ × α)} (h : (es.map Prod.fst).Nodup) (k : κ) (a : α) :
    es.lookup k = some a ↔ (k, a) ∈ es := by
  constructor
  · intro hl
    obtain ⟨before, after, rfl, -⟩ := List.lookup_eq_some_iff.1 hl
    simp
  · exact lookup_of_mem h

theorem slotsOf_eq_of_mem {s : ScopeStack κ ν} (h : (s.slots.map Prod.fst).Nodup)
    {e : κ × List (Option ν)} (he : e ∈ s.slots) : s.slotsOf e.1 = e.2 := by
  rw [slotsOf, lookup_of_mem h he]
  rfl

theorem mem_slots_of_slotsOf {s : ScopeStack κ ν} {k : κ} (h : s.slotsOf k ≠ []) :
    (k, s.slotsOf k) ∈ s.slots := by
  unfold slotsOf at h ⊢
  cases hl : s.slots.lookup k with
  | none => simp [hl] at h
  | some list =>
    obtain ⟨before, after, hs, -⟩ := List.lookup_eq_some_iff.1 hl
    rw [hs]
    simp

theorem mem_putSlots {k : κ} {list : List (Option ν)} {es : List (κ × List (Option ν))}
    {e : κ × List (Option ν)} (h : e ∈ putSlots k list es) : e = (k, list) ∨ e ∈ es := by
  induction es with
  | nil => exact .inl (List.mem_singleton.1 h)
  | cons f es ih =>
    unfold putSlots at h
    by_cases hf : f.1 = k
    · rw [if_pos (beq_iff_eq.2 hf)] at h
      rcases List.mem_cons.1 h with he | he
      · exact .inl (by rw [he, hf])
      · exact .inr (List.mem_cons_of_mem _ he)
    · rw [if_neg (by simpa using hf)] at h
      rcases List.mem_cons.1 h with he | he
      · exact .inr (by rw [he]; exact List.mem_cons_self)
      · rcases ih he with he | he
        · exact .inl he
        · exact .inr (List.mem_cons_of_mem _ he)

end Lawful

/-! ## Operations -/

namespace Tidy

variable {s : ScopeStack κ ν}

theorem empty : (ScopeStack.empty : ScopeStack κ ν).Tidy where
  nodup := List.nodup_nil
  bounded _ he := absurd he List.not_mem_nil
  ends _ he := absurd he List.not_mem_nil

theorem start (h : s.Tidy) : s.start.Tidy where
  nodup := h.nodup
  bounded e he := Nat.le_succ_of_le (h.bounded e he)
  ends := h.ends

theorem finish (h : s.Tidy) : s.finish.Tidy := by
  have trimmed : ∀ e ∈ s.finish.slots, ∃ list, e.2 = trimSlots (s.depth - 1) list ∧ e.2 ≠ [] := by
    intro e he
    obtain ⟨hm, hne⟩ := List.mem_filter.1 he
    obtain ⟨f, -, rfl⟩ := List.mem_map.1 hm
    exact ⟨f.2, rfl, by simpa using hne⟩
  refine ⟨nodup_finish h.nodup, ?_, ?_⟩
  · intro e he
    obtain ⟨list, hl, -⟩ := trimmed e he
    rw [hl]
    exact length_trimSlots_le _ _
  · intro e he
    obtain ⟨list, hl, hne⟩ := trimmed e he
    rw [hl] at hne ⊢
    exact getLast?_trimSlots hne

theorem setAll (h : s.Tidy) (v : ν) : (s.setAll v).Tidy := by
  cases hl : s.level? with
  | none =>
    rw [ScopeStack.setAll, hl]
    exact h
  | some n =>
    have hd : s.depth = n + 1 := depth_of_level? hl
    rw [ScopeStack.setAll, hl]
    refine ⟨?_, ?_, ?_⟩
    · simpa [List.map_map, Function.comp_def] using h.nodup
    · intro e he
      obtain ⟨f, hf, rfl⟩ := List.mem_map.1 he
      have hb := h.bounded f hf
      show (putAt f.2 n v).length ≤ s.depth
      rw [length_putAt]
      omega
    · intro e he
      obtain ⟨f, hf, rfl⟩ := List.mem_map.1 he
      have hb := h.bounded f hf
      exact ⟨v, getLast?_putAt (by omega) v⟩

/-- Closing a level that was opened and not used gives back the stack. -/
theorem finish_start (h : s.Tidy) : s.start.finish = s := by
  have trim : s.slots.map (fun e => (e.1, trimSlots s.depth e.2)) = s.slots := by
    conv => rhs; rw [← List.map_id s.slots]
    apply List.map_congr_left
    intro e he
    rw [trimSlots_eq_self (h.bounded e he) (h.ends e he)]
    rfl
  have keep : s.slots.filter (fun e => !e.2.isEmpty) = s.slots := by
    rw [List.filter_eq_self]
    intro e he
    obtain ⟨v, hv⟩ := h.ends e he
    cases hs : e.2 with
    | nil => simp [hs] at hv
    | cons x xs => rfl
  simp only [ScopeStack.start, ScopeStack.finish, Nat.add_sub_cancel, trim, keep]

variable [BEq κ] [LawfulBEq κ]

theorem length_slotsOf_le (h : s.Tidy) (k : κ) : (s.slotsOf k).length ≤ s.depth := by
  by_cases hk : s.slotsOf k = []
  · rw [hk]
    exact Nat.zero_le _
  · exact h.bounded _ (mem_slots_of_slotsOf hk)

theorem set (h : s.Tidy) (k : κ) (v : ν) : (s.set k v).Tidy := by
  cases hl : s.level? with
  | none =>
    rw [ScopeStack.set, hl]
    exact h
  | some n =>
    have hd : s.depth = n + 1 := depth_of_level? hl
    have hk := h.length_slotsOf_le k
    rw [ScopeStack.set, hl]
    refine ⟨nodup_putSlots _ _ h.nodup, ?_, ?_⟩
    · intro e he
      rcases mem_putSlots he with rfl | he
      · show (putAt (s.slotsOf k) n v).length ≤ s.depth
        rw [length_putAt]
        omega
      · exact h.bounded e he
    · intro e he
      rcases mem_putSlots he with rfl | he
      · exact ⟨v, getLast?_putAt (by omega) v⟩
      · exact h.ends e he

end Tidy

/-- What is set on a level is forgotten when the level is closed. -/
theorem finish_set [BEq κ] [LawfulBEq κ] (s : ScopeStack κ ν) (k : κ) (v : ν) :
    (s.set k v).finish = s.finish := by
  cases hl : s.level? with
  | none => rw [set, hl]
  | some n =>
    have hd : s.depth = n + 1 := depth_of_level? hl
    -- The name's slots are trimmed to what they were, and a name that is new goes.
    have kept : ∀ es : List (κ × List (Option ν)),
        ((putSlots k (putAt ((es.lookup k).getD []) n v) es).map fun e => (e.1, trimSlots n e.2)).filter
            (fun e => !e.2.isEmpty)
          = (es.map fun e => (e.1, trimSlots n e.2)).filter fun e => !e.2.isEmpty := by
      intro es
      induction es with
      | nil => simp [putSlots, trimSlots_putAt]
      | cons e es ih =>
        obtain ⟨a, list⟩ := e
        unfold putSlots
        by_cases ha : a = k
        · subst ha
          simp [trimSlots_putAt]
        · have hk : (k == a) = false := beq_false_of_ne (Ne.symm ha)
          simp only [beq_false_of_ne ha, Bool.false_eq_true, if_false, List.lookup_cons, hk, List.map_cons,
            List.filter_cons, ih]
    simp only [set, hl, finish, hd, Nat.add_sub_cancel, slotsOf, kept]

end SqlDialects.ScopeStack
