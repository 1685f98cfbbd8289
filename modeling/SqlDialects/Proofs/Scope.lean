import SqlDialects.Scope

/-!
# Scope stacks as lists of levels

A scope stack keeps a list of slots for each name. What it means is simpler: a list of levels, innermost
first, each with the values set there. `ScopeStack.Represents` relates the two, and the operations on stacks
are what one expects of the levels: opening adds an empty level, setting adds to the first, closing drops it,
and a name is looked up level by level.
-/

set_option autoImplicit false

namespace SqlDialects.ScopeStack

variable {κ ν : Type} [BEq κ]

/-- What a name is set to at a level, counted from the outermost. -/
def valueAt (s : ScopeStack κ ν) (level : Nat) (k : κ) : Option ν := (s.slotsOf k)[level]?.join

/-- A stack and the levels that it stands for, innermost first. -/
structure Represents (s : ScopeStack κ ν) (levels : List (List (κ × ν))) : Prop where
  depth_eq : s.depth = levels.length
  /-- Every name has its slots in one place. -/
  nodup : (s.slots.map Prod.fst).Nodup
  bounded : ∀ k, (s.slotsOf k).length ≤ s.depth
  valueAt_eq : ∀ level k, s.valueAt level k = (levels.reverse[level]?).bind (List.lookup k)

/-! ## Depth -/

theorem depth_set (s : ScopeStack κ ν) (k : κ) (v : ν) : (s.set k v).depth = s.depth := by
  unfold set
  split <;> rfl

theorem depth_flatten {s : ScopeStack κ ν} (h : s.isOpen = true) : s.flatten.depth = 1 := by
  have fold : ∀ (es : List (κ × ν)) (t : ScopeStack κ ν),
      (es.foldl (fun t e => t.set e.1 e.2) t).depth = t.depth := by
    -- Setting names leaves the depth alone, whatever the names are.
    intro es
    induction es with
    | nil => exact fun _ => rfl
    | cons e es ih =>
      intro t
      rw [List.foldl_cons, ih, depth_set]
  rw [flatten, if_pos h, fold]
  rfl

/-! ## Slot lists -/

theorem join_getElem?_append_replicate (list : List (Option ν)) (n i : Nat) :
    (list ++ List.replicate n none)[i]?.join = list[i]?.join := by
  rw [List.getElem?_append]
  split
  · rfl
  · next h =>
    rw [List.getElem?_eq_none (Nat.le_of_not_lt h), List.getElem?_replicate]
    split <;> rfl

/-- Lists of one length are equal if they hold the same values in the same places. -/
theorem ext_join {l l' : List (Option ν)} (hl : l.length = l'.length)
    (h : ∀ i : Nat, l[i]?.join = l'[i]?.join) : l = l' := by
  refine List.ext_getElem hl fun i hi hi' => ?_
  have hj := h i
  rw [List.getElem?_eq_getElem hi, List.getElem?_eq_getElem hi'] at hj
  exact hj

theorem join_getElem?_putAt (list : List (Option ν)) (level : Nat) (v : ν) (i : Nat) :
    (putAt list level v)[i]?.join = if i = level then some v else list[i]?.join := by
  unfold putAt
  by_cases hi : i = level
  · subst hi
    rw [if_pos rfl, List.getElem?_set_self (by simp; omega)]
    rfl
  · rw [if_neg hi, List.getElem?_set_ne (Ne.symm hi), join_getElem?_append_replicate]

theorem length_putAt (list : List (Option ν)) (level : Nat) (v : ν) :
    (putAt list level v).length = max list.length (level + 1) := by
  simp only [putAt, List.length_set, List.length_append, List.length_replicate]
  omega

/-- Empty slots at the end of a list mean nothing. -/
theorem join_getElem?_dropLast_isNone (list : List (Option ν)) (i : Nat) :
    ((list.reverse.dropWhile Option.isNone).reverse)[i]?.join = list[i]?.join := by
  have hl : list = (list.reverse.dropWhile Option.isNone).reverse
      ++ (list.reverse.takeWhile Option.isNone).reverse := by
    rw [← List.reverse_append, List.takeWhile_append_dropWhile, List.reverse_reverse]
  have hi := congrArg (fun l => l[i]?.join) hl
  rw [hi, List.getElem?_append]
  split
  · rfl
  · next h =>
    rw [List.getElem?_eq_none (Nat.le_of_not_lt h)]
    symm
    -- Past the shorter list there are only the slots that were dropped, and they are empty.
    cases hx : (list.reverse.takeWhile Option.isNone).reverse[i - _]? with
    | none => rfl
    | some x =>
      have hm := List.mem_of_getElem? hx
      rw [List.mem_reverse] at hm
      have hn := List.all_takeWhile (p := Option.isNone) (l := list.reverse)
      rw [List.all_eq_true] at hn
      simpa using hn x hm

theorem join_getElem?_trimSlots (depth : Nat) (list : List (Option ν)) (i : Nat) :
    (trimSlots depth list)[i]?.join = if i < depth then list[i]?.join else none := by
  unfold trimSlots
  rw [join_getElem?_dropLast_isNone, List.getElem?_take]
  split <;> rfl

@[simp] theorem trimSlots_nil (depth : Nat) : trimSlots depth ([] : List (Option ν)) = [] := by
  simp [trimSlots]

theorem length_trimSlots_le (depth : Nat) (list : List (Option ν)) :
    (trimSlots depth list).length ≤ depth := by
  have h := (List.dropWhile_sublist (p := Option.isNone) (l := (list.take depth).reverse)).length_le
  simp only [trimSlots, List.length_reverse, List.length_take] at h ⊢
  omega

theorem innermost_append_replicate (list : List (Option ν)) (n : Nat) :
    innermost (list ++ List.replicate n none) = innermost list := by
  have hn : (List.replicate n (none : Option ν)).findSome? id = none := by
    rw [List.findSome?_eq_none_iff]
    intro x hx
    rw [List.eq_of_mem_replicate hx]
    rfl
  rw [innermost, List.reverse_append, List.reverse_replicate, List.findSome?_append, hn]
  rfl

omit [BEq κ] in
/-- Closing a scope keeps the names in their order, those that go left out. -/
theorem nodup_finish {s : ScopeStack κ ν} (h : (s.slots.map Prod.fst).Nodup) :
    (s.finish.slots.map Prod.fst).Nodup := by
  refine List.Nodup.sublist ?_ h
  have hs := (List.filter_sublist (p := fun e : κ × List (Option ν) => !e.2.isEmpty)
    (l := s.slots.map fun e => (e.1, trimSlots (s.depth - 1) e.2))).map Prod.fst
  simpa [finish, List.map_map, Function.comp_def] using hs

/-! ## Slots by name -/

section Lawful

variable [LawfulBEq κ]

theorem lookup_putSlots (k k' : κ) (list : List (Option ν)) (es : List (κ × List (Option ν))) :
    (putSlots k list es).lookup k' = if k' == k then some list else es.lookup k' := by
  induction es with
  | nil =>
    rw [putSlots, List.lookup_cons]
    split <;> simp_all
  | cons e es ih =>
    obtain ⟨a, l⟩ := e
    unfold putSlots
    -- The entry is replaced where it is found, so a later one of the same name would stay hidden.
    by_cases ha : a = k
    · subst ha
      simp only [beq_self_eq_true, if_true, List.lookup_cons]
      split <;> simp_all
    · have hb : (a == k) = false := beq_false_of_ne ha
      simp only [hb, Bool.false_eq_true, if_false, List.lookup_cons]
      rw [ih]
      by_cases hk : k' = a
      · subst hk
        simp [hb]
      · simp [beq_false_of_ne hk]

theorem keys_putSlots (k : κ) (list : List (Option ν)) (es : List (κ × List (Option ν))) :
    (putSlots k list es).map Prod.fst
      = es.map Prod.fst ++ if (es.map Prod.fst).contains k then [] else [k] := by
  induction es with
  | nil => rfl
  | cons e es ih =>
    unfold putSlots
    by_cases he : e.1 = k
    · simp [he]
    · have hk : (k == e.1) = false := beq_false_of_ne (Ne.symm he)
      simp only [beq_false_of_ne he, Bool.false_eq_true, if_false, List.map_cons, ih, List.contains_cons,
        hk, Bool.false_or, List.cons_append]

theorem nodup_putSlots (k : κ) (list : List (Option ν)) {es : List (κ × List (Option ν))}
    (h : (es.map Prod.fst).Nodup) : ((putSlots k list es).map Prod.fst).Nodup := by
  rw [keys_putSlots]
  split
  · simpa using h
  · next hk =>
    have hk' : k ∉ es.map Prod.fst := by simpa using hk
    rw [List.nodup_append]
    refine ⟨h, by simp, ?_⟩
    intro a ha b hb hab
    rw [List.mem_singleton.1 hb] at hab
    exact hk' (hab ▸ ha)

/-- Trimming commutes with looking a name up, the names being distinct. -/
theorem lookup_trimmed (depth : Nat) (k : κ) {es : List (κ × List (Option ν))}
    (h : (es.map Prod.fst).Nodup) :
    (((es.map (fun e => (e.1, trimSlots depth e.2))).filter (fun e => !e.2.isEmpty)).lookup k).getD []
      = trimSlots depth ((es.lookup k).getD []) := by
  induction es with
  | nil => simp
  | cons e es ih =>
    obtain ⟨a, l⟩ := e
    have hr := ih (List.nodup_cons.1 h).2
    have ha : a ∉ es.map Prod.fst := (List.nodup_cons.1 h).1
    rw [List.map_cons, List.filter_cons]
    by_cases hk : k = a
    · subst hk
      simp only [List.lookup_cons_self, Option.getD_some]
      split
      · simp
      · next he =>
        -- The name is gone, and it is not found behind this entry either.
        have hn : es.lookup k = none := by
          rw [List.lookup_eq_none_iff]
          intro p hp
          have hne : k ≠ p.1 := fun hkp => ha (hkp ▸ List.mem_map_of_mem hp)
          exact bne_iff_ne.2 hne
        have ht : trimSlots depth l = [] := by simpa using he
        rw [hr, hn, ht, Option.getD_none, trimSlots_nil]
    · have hb : (k == a) = false := beq_false_of_ne hk
      split
      · simp only [List.lookup_cons, hb]
        exact hr
      · simp only [List.lookup_cons, hb]
        exact hr

theorem slotsOf_set {s : ScopeStack κ ν} {n : Nat} (hd : s.depth = n + 1) (k : κ) (v : ν) (k' : κ) :
    (s.set k v).slotsOf k' = if k' == k then putAt (s.slotsOf k) n v else s.slotsOf k' := by
  have hl : s.level? = some n := by rw [level?, hd]
  rw [set, hl]
  show ((putSlots k _ s.slots).lookup k').getD [] = _
  rw [lookup_putSlots]
  split <;> rfl

/-- Closing a scope trims every slot list. A name that is dropped has no slots left. -/
theorem slotsOf_finish {s : ScopeStack κ ν} (h : (s.slots.map Prod.fst).Nodup) (k : κ) :
    s.finish.slotsOf k = trimSlots (s.depth - 1) (s.slotsOf k) :=
  lookup_trimmed (s.depth - 1) k h

end Lawful

/-! ## Operations on levels -/

/-- The outermost levels come first where levels are counted, so the innermost one is the last. -/
theorem bind_getElem?_reverse_cons {α β : Type} (levels : List α) (level : α) (f : α → Option β) (i : Nat) :
    ((level :: levels).reverse[i]?).bind f
      = if i = levels.length then f level else (levels.reverse[i]?).bind f := by
  rw [List.reverse_cons, List.getElem?_append, List.length_reverse]
  by_cases hi : i < levels.length
  · rw [if_pos hi, if_neg (Nat.ne_of_lt hi)]
  · rw [if_neg hi]
    by_cases he : i = levels.length
    · subst he
      simp
    · rw [if_neg he, List.getElem?_eq_none (by simp; omega), List.getElem?_eq_none (by simp; omega)]

namespace Represents

variable {s : ScopeStack κ ν} {levels : List (List (κ × ν))} {level : List (κ × ν)}

theorem empty : (ScopeStack.empty : ScopeStack κ ν).Represents [] where
  depth_eq := rfl
  nodup := List.nodup_nil
  bounded _ := Nat.le_refl 0
  valueAt_eq _ _ := rfl

theorem start (h : s.Represents levels) : s.start.Represents ([] :: levels) where
  depth_eq := by simp [ScopeStack.start, h.depth_eq]
  nodup := h.nodup
  bounded k := Nat.le_succ_of_le (h.bounded k)
  valueAt_eq i k := by
    have hv := h.valueAt_eq i k
    show s.valueAt i k = _
    rw [hv, bind_getElem?_reverse_cons]
    split
    · next hi => rw [hi, List.getElem?_eq_none (by simp)]; rfl
    · rfl

/-- A name's slots, padded to the depth, are its values level by level. -/
theorem padded (h : s.Represents levels) (k : κ) :
    s.slotsOf k ++ List.replicate (s.depth - (s.slotsOf k).length) none
      = levels.reverse.map (List.lookup k) := by
  have hb := h.bounded k
  have hd := h.depth_eq
  -- Both lists have one slot a level, so it is enough to compare them slot by slot.
  refine ext_join (by simp; omega) fun i => ?_
  have hv := h.valueAt_eq i k
  rw [valueAt] at hv
  rw [join_getElem?_append_replicate, hv, List.getElem?_map]
  cases levels.reverse[i]? <;> rfl

/-- A name is looked up level by level, from the innermost one outwards. -/
theorem get? (h : s.Represents levels) (k : κ) : s.get? k = levels.findSome? (List.lookup k) := by
  rw [ScopeStack.get?, ← innermost_append_replicate, h.padded k, innermost, ← List.map_reverse,
    List.reverse_reverse, List.findSome?_map]
  rfl

theorem getCurrent? (h : s.Represents (level :: levels)) (k : κ) : s.getCurrent? k = level.lookup k := by
  have hd : s.depth = levels.length + 1 := h.depth_eq
  have hb := h.bounded k
  have hv := h.valueAt_eq levels.length k
  rw [valueAt, bind_getElem?_reverse_cons, if_pos rfl] at hv
  rw [ScopeStack.getCurrent?, atDepth, ← hv]
  split
  · next hl => rw [List.getLast?_eq_getElem?, hl, hd]; rfl
  · -- A slot list that ends before the innermost level holds nothing there.
    rw [List.getElem?_eq_none (by omega)]
    rfl

theorem getCurrent?_nil (h : s.Represents []) (k : κ) : s.getCurrent? k = none := by
  have hd : s.depth = 0 := h.depth_eq
  have hb := h.bounded k
  have hn : s.slotsOf k = [] := List.length_eq_zero_iff.1 (by omega)
  rw [ScopeStack.getCurrent?, hn, atDepth]
  split <;> rfl

variable [LawfulBEq κ]

theorem finish (h : s.Represents (level :: levels)) : s.finish.Represents levels where
  depth_eq := by simp [ScopeStack.finish, h.depth_eq]
  nodup := nodup_finish h.nodup
  bounded k := by
    rw [slotsOf_finish h.nodup]
    exact length_trimSlots_le _ _
  valueAt_eq i k := by
    have hv := h.valueAt_eq i k
    have hd : s.depth - 1 = levels.length := by simp [h.depth_eq]
    rw [valueAt, bind_getElem?_reverse_cons] at hv
    rw [valueAt, slotsOf_finish h.nodup, join_getElem?_trimSlots, hd, hv]
    -- The level that is closed is the one at the index `levels.length`.
    by_cases hi : i < levels.length
    · rw [if_pos hi, if_neg (Nat.ne_of_lt hi)]
    · rw [if_neg hi, List.getElem?_eq_none (by simpa using hi)]
      rfl

theorem set (h : s.Represents (level :: levels)) (k : κ) (v : ν) :
    (s.set k v).Represents (((k, v) :: level) :: levels) := by
  have hd : s.depth = levels.length + 1 := h.depth_eq
  have hl : s.level? = some levels.length := by rw [level?, hd]
  have hdepth := depth_set s k v
  refine ⟨by rw [hdepth, hd]; rfl, ?_, ?_, ?_⟩
  · rw [ScopeStack.set, hl]
    exact nodup_putSlots _ _ h.nodup
  · intro k'
    rw [hdepth, slotsOf_set hd]
    split
    · have hb := h.bounded k
      rw [length_putAt]
      omega
    · exact h.bounded k'
  · intro i k'
    have hv := h.valueAt_eq i k'
    rw [valueAt, bind_getElem?_reverse_cons] at hv
    rw [valueAt, slotsOf_set hd, bind_getElem?_reverse_cons, List.lookup_cons]
    by_cases hk : k' = k
    · subst hk
      rw [if_pos (beq_self_eq_true k'), join_getElem?_putAt, hv, beq_self_eq_true]
      split <;> rfl
    · rw [if_neg (by simp [hk]), hv, beq_false_of_ne hk]

end Represents

end SqlDialects.ScopeStack
