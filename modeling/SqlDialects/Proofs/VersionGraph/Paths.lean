import Mathlib.Data.Nat.Find
import Mathlib.Order.Bounds.Basic
import SqlDialects.VersionGraph

/-!
# Paths through a history

A version graph is made by offering versions to the empty one, and a version that is refused leaves it as it was. In
a graph that was so made every parent has a smaller index than its child, and a name is found where its version is
(`VersionGraph.wellFormed_ofVersions`). What the ancestors of a version are, and how far away, is said here by paths
along its parents; the search for them comes later.
-/

set_option autoImplicit false

namespace SqlDialects.VersionGraph

/-- The graph after a version was offered to it. -/
def offer (g : VersionGraph) (v : Version) : VersionGraph :=
  match g.add v with
  | .ok h => h
  | .error _ => g

/-- The graph that is made by offering versions one after the other. -/
def ofVersions (vs : List Version) : VersionGraph := vs.foldl offer empty

/-- What holds of every graph that is made by adding versions. -/
structure WellFormed (g : VersionGraph) : Prop where
  parents_lt : ∀ {i p : Nat}, p ∈ g.parents i → p < i
  find?_iff : ∀ {id : String} {i : Nat}, g.find? id = some i ↔ g.versions[i]?.map Version.id = some id

section WellFormed

variable {g h : VersionGraph} {v : Version} {i j : Nat}

theorem add_eq_ok (ha : g.add v = .ok h) :
    g.find? v.id = none ∧ (∀ p ∈ v.parents, p < g.size) ∧ h = ⟨g.versions.push v, (v.id, g.size) :: g.indices⟩ := by
  unfold add at ha
  split at ha
  · cases ha
  · next free =>
    split at ha
    · cases ha
    · next known =>
      cases ha
      refine ⟨by simpa using free, fun p hp => ?_, rfl⟩
      simpa using List.find?_eq_none.1 known p hp

theorem wellFormed_empty : empty.WellFormed where
  parents_lt h := by simp [parents, empty] at h
  find?_iff := by simp [find?, empty]

theorem find?_push (g : VersionGraph) (v : Version) (id : String) :
    (VersionGraph.mk (g.versions.push v) ((v.id, g.size) :: g.indices)).find? id
      = if id = v.id then some g.size else g.find? id := by
  rw [find?, List.lookup_cons]
  split
  · next same => rw [if_pos (eq_of_beq same)]
  · next other =>
    rw [if_neg (by simpa using other)]
    rfl

theorem WellFormed.add (hg : g.WellFormed) (ha : g.add v = .ok h) : h.WellFormed := by
  obtain ⟨free, known, rfl⟩ := add_eq_ok ha
  refine ⟨?_, ?_⟩
  · intro i p hp
    simp only [parents, Array.getElem?_push] at hp
    split_ifs at hp with last
    · exact last ▸ known p hp
    · exact hg.parents_lt hp
  · intro id i
    rw [find?_push, Array.getElem?_push]
    by_cases same : id = v.id
    · -- The name was free, so no version has it but the new one.
      have other : g.versions[i]?.map Version.id ≠ some id := by
        intro taken
        rw [← hg.find?_iff, same, free] at taken
        cases taken
      rw [if_pos same]
      split_ifs with last
      · simp [same, last, size]
      · exact iff_of_false (fun found => last (Option.some.inj found).symm) other
    · rw [if_neg same, hg.find?_iff]
      split_ifs with last
      · simp [last, Ne.symm same]
      · rfl

theorem WellFormed.offer (hg : g.WellFormed) : (g.offer v).WellFormed := by
  unfold VersionGraph.offer
  split
  · next ha => exact hg.add ha
  · exact hg

theorem wellFormed_ofVersions (vs : List Version) : (ofVersions vs).WellFormed := by
  suffices ∀ g : VersionGraph, g.WellFormed → (vs.foldl VersionGraph.offer g).WellFormed from
    this empty wellFormed_empty
  induction vs with
  | nil => exact fun _ hg => hg
  | cons v vs ih => exact fun g hg => ih _ hg.offer

/-- No two versions have one name. -/
theorem WellFormed.index_unique (hg : g.WellFormed) {v w : Version} (hi : g.versions[i]? = some v)
    (hj : g.versions[j]? = some w) (same : v.id = w.id) : i = j := by
  have found : g.find? v.id = some i := hg.find?_iff.2 (congrArg _ hi)
  have found' : g.find? w.id = some j := hg.find?_iff.2 (congrArg _ hj)
  rw [same, found'] at found
  exact (Option.some.inj found).symm

end WellFormed

/-- The versions that are met on the way along parents, each with the number of edges. -/
inductive Path (g : VersionGraph) (i : Nat) : Nat → Nat → Prop where
  | here : Path g i i 0
  | up {j n p : Nat} : Path g i j n → p ∈ g.parents j → Path g i p (n + 1)

/-- Whether a version is an ancestor of another one. Each is an ancestor of itself. -/
def IsAncestor (g : VersionGraph) (i j : Nat) : Prop := ∃ n, g.Path i j n

/-- The distance of an ancestor is the length of the shortest path to it. -/
def IsDistance (g : VersionGraph) (i j d : Nat) : Prop := IsLeast {n | g.Path i j n} d

variable {g : VersionGraph} {i j k m n d : Nat}

theorem Path.trans (h : g.Path i j m) (h' : g.Path j k n) : g.Path i k (m + n) := by
  induction h' with
  | here => exact h
  | up _ hp ih => exact ih.up hp

theorem IsAncestor.trans (h : g.IsAncestor i j) (h' : g.IsAncestor j k) : g.IsAncestor i k := by
  obtain ⟨m, hm⟩ := h
  obtain ⟨n, hn⟩ := h'
  exact ⟨m + n, hm.trans hn⟩

/-- Every edge leads to a smaller index. -/
theorem WellFormed.add_le (hg : g.WellFormed) (h : g.Path i j n) : j + n ≤ i := by
  induction h with
  | here => exact Nat.le_refl i
  | up _ hp ih =>
    have := hg.parents_lt hp
    omega

theorem WellFormed.le (hg : g.WellFormed) (h : g.IsAncestor i j) : j ≤ i := by
  obtain ⟨n, hn⟩ := h
  have := hg.add_le hn
  omega

theorem isAncestor_self (g : VersionGraph) (i : Nat) : g.IsAncestor i i := ⟨0, .here⟩

theorem isDistance_self (g : VersionGraph) (i : Nat) : g.IsDistance i i 0 := ⟨.here, fun _ _ => Nat.zero_le _⟩

theorem IsDistance.isAncestor (h : g.IsDistance i j d) : g.IsAncestor i j := ⟨d, h.1⟩

theorem IsAncestor.exists_isDistance (h : g.IsAncestor i j) : ∃ d, g.IsDistance i j d := by
  classical
  exact ⟨Nat.find h, Nat.find_spec h, fun _ hn => Nat.find_min' h hn⟩

end SqlDialects.VersionGraph
