import SqlDialects.Query.Node
import Mathlib.Data.List.Forall2

/-!
# Structural equality

Structural equality of nodes follows `==` on values, which is equality of numbers for floats. So it is
symmetric and transitive but not reflexive: a tree that holds a NaN differs from itself. The instances of
`PartialEquivBEq` let the library's lemmas on such relations apply to values, nodes and common tables.
-/

set_option autoImplicit false

namespace SqlDialects

/-! ## Values -/

namespace Decimal.Binary64

theorem beq_iff (x y : Binary64) :
    (x == y) = true ↔
      x.isNaN = false ∧ y.isNaN = false ∧ (x = y ∨ (x.isZero = true ∧ y.isZero = true)) := by
  show Binary64.beq x y = true ↔ _
  obtain ⟨a⟩ := x
  obtain ⟨b⟩ := y
  simp [Binary64.beq, and_assoc]

instance : PartialEquivBEq Binary64 where
  symm := by
    intro x y h
    rw [beq_iff] at h ⊢
    obtain ⟨hx, hy, hxy⟩ := h
    refine ⟨hy, hx, ?_⟩
    rcases hxy with rfl | ⟨zx, zy⟩
    · exact .inl rfl
    · exact .inr ⟨zy, zx⟩
  trans := by
    intro x y z h h'
    rw [beq_iff] at h h' ⊢
    obtain ⟨hx, _, hxy⟩ := h
    obtain ⟨_, hz, hyz⟩ := h'
    refine ⟨hx, hz, ?_⟩
    -- Bits may differ between the two zeros only, and then all three numbers are zeros.
    rcases hxy with rfl | ⟨zx, zy⟩
    · exact hyz
    · rcases hyz with rfl | ⟨_, zz⟩
      · exact .inr ⟨zx, zy⟩
      · exact .inr ⟨zx, zz⟩

end Decimal.Binary64

namespace Value

/-- Values other than floats are equal under `==` exactly if they are equal. -/
theorem beq_iff (v w : Value) :
    (v == w) = true ↔ (∃ x y, v = float x ∧ w = float y ∧ (x == y) = true) ∨
      (v = w ∧ ∀ x, v ≠ float x) := by
  show Value.beq v w = true ↔ _
  cases v <;> cases w <;> simp [Value.beq]

instance : PartialEquivBEq Value where
  symm := by
    intro v w h
    rw [beq_iff] at h ⊢
    rcases h with ⟨x, y, rfl, rfl, h⟩ | ⟨rfl, h⟩
    · exact .inl ⟨y, x, rfl, rfl, BEq.symm h⟩
    · exact .inr ⟨rfl, h⟩
  trans := by
    intro u v w h h'
    rw [beq_iff] at h h' ⊢
    rcases h with ⟨x, y, rfl, rfl, h⟩ | ⟨rfl, h⟩
    · -- What equals a float is a float.
      rcases h' with ⟨y', z, hy, rfl, h'⟩ | ⟨_, hne⟩
      · injection hy with hy
        subst hy
        exact .inl ⟨x, z, rfl, rfl, BEq.trans h h'⟩
      · exact absurd rfl (hne y)
    · exact h'.imp id fun h'' => h''

end Value

instance : PartialEquivBEq (Option Value) where
  symm := by
    intro v w h
    cases v with
    | none => cases w <;> simp_all
    | some v =>
      cases w with
      | none => simp at h
      | some w =>
        simp only [Option.some_beq_some] at h ⊢
        exact BEq.symm h
  trans := by
    intro u v w h h'
    cases u with
    | none => cases v <;> cases w <;> simp_all
    | some u =>
      cases v with
      | none => simp at h
      | some v =>
        cases w with
        | none => simp at h'
        | some w =>
          simp only [Option.some_beq_some] at h h' ⊢
          exact BEq.trans h h'

/-! ## Nodes -/

namespace Node

/-- Two lists of the same length with equal nodes in the same places. -/
abbrev EqualAll : List Node → List Node → Prop := List.Forall₂ fun c c' => (c == c') = true

theorem beq_iff (a b : Node) :
    (a == b) = true ↔
      a.label = b.label ∧ (a.value? == b.value?) = true ∧ EqualAll a.children b.children := by
  -- The proofs that `attach` adds are there for termination only.
  have hz : (a.children.attach.zip b.children).all (fun p => Node.beq p.1.1 p.2)
      = (a.children.zip b.children).all (fun p => p.1 == p.2) := by
    conv_rhs => rw [← a.children.attach_map_subtype_val]
    rw [List.zip_map_left, List.all_map]
    rfl
  show Node.beq a b = true ↔ _
  rw [Node.beq, hz, EqualAll, List.forall₂_iff_zip]
  simp [and_assoc]

theorem EqualAll.symm {cs cs' : List Node} (h : EqualAll cs cs')
    (hs : ∀ c ∈ cs, ∀ c', (c == c') = true → (c' == c) = true) : EqualAll cs' cs := by
  induction h with
  | nil => exact .nil
  | cons hc _ ih =>
    exact .cons (hs _ (.head _) _ hc) (ih fun c hm => hs c (.tail _ hm))

theorem EqualAll.trans {cs cs' cs'' : List Node} (h : EqualAll cs cs') (h' : EqualAll cs' cs'')
    (ht : ∀ c ∈ cs, ∀ c' c'', (c == c') = true → (c' == c'') = true → (c == c'') = true) :
    EqualAll cs cs'' := by
  induction h generalizing cs'' with
  | nil =>
    cases h'
    exact .nil
  | cons hc _ ih =>
    cases h' with
    | cons hc' hr => exact .cons (ht _ (.head _) _ _ hc hc') (ih hr fun c hm => ht c (.tail _ hm))

theorem beq_symm (a : Node) : ∀ b, (a == b) = true → (b == a) = true := by
  induction a using Node.induction with
  | step a ih =>
    intro b h
    rw [beq_iff] at h ⊢
    obtain ⟨hl, hv, hc⟩ := h
    exact ⟨hl.symm, BEq.symm hv, hc.symm ih⟩

theorem beq_trans (a : Node) : ∀ b c, (a == b) = true → (b == c) = true → (a == c) = true := by
  induction a using Node.induction with
  | step a ih =>
    intro b c h h'
    rw [beq_iff] at h h' ⊢
    obtain ⟨hl, hv, hc⟩ := h
    obtain ⟨hl', hv', hc'⟩ := h'
    exact ⟨hl.trans hl', BEq.trans hv hv', hc.trans hc' ih⟩

/-- The values anywhere in a node. -/
def values (n : Node) : List Value :=
  n.value?.toList ++ n.children.attach.flatMap (fun c => c.1.values)
termination_by sizeOf n
decreasing_by exact sizeOf_lt_of_mem_children c.2

theorem values_eq (n : Node) : n.values = n.value?.toList ++ n.children.flatMap values := by
  have ha : n.children.attach.flatMap (fun c => c.1.values) = n.children.flatMap values := by
    rw [List.flatMap_subtype fun _ _ => rfl, List.unattach_attach]
  rw [values, ha]

/-- A node equals itself if its values do. -/
theorem beq_self {n : Node} (h : ∀ v ∈ n.values, (v == v) = true) : (n == n) = true := by
  induction n using Node.induction with
  | step n ih =>
    rw [values_eq] at h
    rw [beq_iff]
    refine ⟨rfl, ?_, ?_⟩
    · cases hv : n.value? with
      | none => rfl
      | some v => exact h v (by simp [hv])
    · have hc : ∀ c ∈ n.children, (c == c) = true := by
        intro c hc
        refine ih c hc fun v hv => h v ?_
        exact List.mem_append_right _ (List.mem_flatMap.2 ⟨c, hc, hv⟩)
      exact List.forall₂_same.2 hc

instance : PartialEquivBEq Node where
  symm := beq_symm _ _
  trans := beq_trans _ _ _

end Node

instance : PartialEquivBEq CommonTable where
  symm := Node.beq_symm _ _
  trans := Node.beq_trans _ _ _

end SqlDialects
