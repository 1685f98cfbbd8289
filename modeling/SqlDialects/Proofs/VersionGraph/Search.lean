import Mathlib
import SqlDialects.Proofs.VersionGraph.Paths

/-!
# The search for ancestors

A search follows paths in an order in which a version may be met on a detour first, and so may all that is found from
there. What every step keeps is that distances and pending versions are lengths of paths, and that nothing is
forgotten: the start, and each parent of a version with a distance, has a distance that is short enough or is pending
with one (`AncestorSearch.Tracks`). When nothing is pending the distances are therefore the shortest ones, whatever
the order was.
-/

set_option autoImplicit false

namespace SqlDialects

namespace AncestorSearch

variable {g : VersionGraph} {i j k d n : Nat} {s t : AncestorSearch g}

/-- One step of a search. -/
def Moves (s t : AncestorSearch g) : Prop := s.step? = some t

/-- Whether a version has a distance or is pending with one, of a given length at most. -/
def Meets (s : AncestorSearch g) (j n : Nat) : Prop :=
  (∃ d ≤ n, s.distance? j = some d) ∨ ∃ d ≤ n, (j, d) ∈ s.pending

/-- What holds of a search at any time. -/
structure Tracks (i : Nat) (s : AncestorSearch g) : Prop where
  pending_path : ∀ {j d : Nat}, (j, d) ∈ s.pending → g.Path i j d
  distance_path : ∀ {j d : Nat}, s.distance? j = some d → g.Path i j d
  meets_start : s.Meets i 0
  meets_parents : ∀ {j d p : Nat}, s.distance? j = some d → p ∈ g.parents j → s.Meets p (d + 1)

theorem isKnown_iff : s.isKnown j n = true ↔ ∃ d ≤ n, s.distance? j = some d := by
  simp [isKnown, Option.any_eq_true, and_comm]

theorem mem_foldl_met {ps : List Nat} {met : List (Nat × Nat)} {e : Nat × Nat} :
    e ∈ ps.foldl (fun met p => (p, d + 1) :: met) met ↔ (e.1 ∈ ps ∧ e.2 = d + 1) ∨ e ∈ met := by
  induction ps generalizing met with
  | nil => simp
  | cons p ps ih =>
    rw [List.foldl_cons, ih, List.mem_cons, List.mem_cons, Prod.ext_iff]
    tauto

theorem mem_pending_expand {rest : List (Nat × Nat)} {e : Nat × Nat} :
    e ∈ (s.expand j d rest).pending ↔ (e.1 ∈ g.parents j ∧ e.2 = d + 1) ∨ e ∈ rest := mem_foldl_met

theorem distance?_expand {rest : List (Nat × Nat)} (hj : j < g.size) :
    (s.expand j d rest).distance? k = if j = k then some d else s.distance? k := by
  simp only [distance?, expand, Vector.getElem?_setIfInBounds, if_pos hj]
  split_ifs <;> rfl

theorem step?_eq_none_iff : s.step? = none ↔ s.pending = [] := by
  unfold step?
  split
  · next done => exact iff_of_true rfl done
  · next pending =>
    rw [pending]
    split <;> simp

/-- All that a step can do. -/
theorem Moves.cases (h : s.Moves t) : ∃ j d rest, s.pending = (j, d) :: rest ∧
    (s.isKnown j d = true ∧ t = { s with pending := rest } ∨ s.isKnown j d = false ∧ t = s.expand j d rest) := by
  unfold Moves step? at h
  split at h
  · cases h
  · next j d rest hp =>
    refine ⟨j, d, rest, hp, ?_⟩
    split at h
    · next known => exact .inl ⟨known, (Option.some.inj h).symm⟩
    · next far => exact .inr ⟨Bool.eq_false_iff.2 far, (Option.some.inj h).symm⟩

/-- What was met once stays so. -/
theorem Moves.meets (h : s.Moves t) (bound : ∀ e ∈ s.pending, e.1 < g.size) (hk : s.Meets k n) : t.Meets k n := by
  obtain ⟨j, d, rest, hp, ⟨known, rfl⟩ | ⟨far, rfl⟩⟩ := h.cases
  · rcases hk with found | ⟨m, hm, mem⟩
    · exact .inl found
    · rw [hp, List.mem_cons] at mem
      rcases mem with same | mem
      · cases same
        obtain ⟨m', hm', found⟩ := isKnown_iff.1 known
        exact .inl ⟨m', hm'.trans hm, found⟩
      · exact .inr ⟨m, hm, mem⟩
  · have hj : j < g.size := bound (j, d) (by simp [hp])
    rcases hk with ⟨m, hm, found⟩ | ⟨m, hm, mem⟩
    · refine .inl ?_
      by_cases same : j = k
      · -- The distance that was there is longer than the one that replaces it.
        have longer : d < m := by
          by_contra short
          rw [isKnown_iff.2 ⟨m, by omega, same ▸ found⟩] at far
          cases far
        exact ⟨d, by omega, by rw [distance?_expand hj, if_pos same]⟩
      · exact ⟨m, hm, by rw [distance?_expand hj, if_neg same, found]⟩
    · rw [hp, List.mem_cons] at mem
      rcases mem with same | mem
      · cases same
        exact .inl ⟨d, hm, by rw [distance?_expand hj, if_pos rfl]⟩
      · exact .inr ⟨m, hm, mem_pending_expand.2 (.inr mem)⟩

theorem Tracks.bound (h : s.Tracks i) (hg : g.WellFormed) (hi : i < g.size) : ∀ e ∈ s.pending, e.1 < g.size :=
  fun _ he => (hg.le ⟨_, h.pending_path he⟩).trans_lt hi

theorem distance?_start (g : VersionGraph) (i j : Nat) : (start g i).distance? j = none := by
  rw [distance?, start, Vector.getElem?_replicate]
  split_ifs <;> rfl

theorem tracks_start (g : VersionGraph) (i : Nat) : (start g i).Tracks i where
  pending_path h := by
    cases List.mem_singleton.1 h
    exact .here
  distance_path h := by simp [distance?_start] at h
  meets_start := .inr ⟨0, Nat.le_refl 0, List.mem_singleton.2 rfl⟩
  meets_parents h := by simp [distance?_start] at h

theorem Tracks.move (h : s.Tracks i) (hg : g.WellFormed) (hi : i < g.size) (hm : s.Moves t) : t.Tracks i := by
  have bound := h.bound hg hi
  have meets : ∀ {k n}, s.Meets k n → t.Meets k n := hm.meets bound
  obtain ⟨j, d, rest, hp, ⟨known, rfl⟩ | ⟨far, rfl⟩⟩ := hm.cases
  · refine ⟨?_, h.distance_path, meets h.meets_start, fun found hp => meets (h.meets_parents found hp)⟩
    exact fun mem => h.pending_path (by simp [hp, mem])
  · have hj : j < g.size := bound (j, d) (by simp [hp])
    have path : g.Path i j d := h.pending_path (by simp [hp])
    refine ⟨?_, ?_, meets h.meets_start, ?_⟩
    · intro k n mem
      rcases mem_pending_expand.1 mem with ⟨parent, rfl⟩ | mem
      · exact path.up parent
      · exact h.pending_path (by simp [hp, mem])
    · intro k n found
      rw [distance?_expand hj] at found
      split_ifs at found with same
      · cases found
        exact same ▸ path
      · exact h.distance_path found
    · intro k n p found parent
      rw [distance?_expand hj] at found
      split_ifs at found with same
      · cases found
        exact .inr ⟨d + 1, Nat.le_refl _, mem_pending_expand.2 (.inl ⟨same ▸ parent, rfl⟩)⟩
      · exact meets (h.meets_parents found parent)

/-- A search comes to an end, where nothing is pending. -/
theorem moves_finish (s : AncestorSearch g) : Relation.ReflTransGen Moves s s.finish ∧ s.finish.pending = [] := by
  induction s using finish.induct with
  | case1 s stuck =>
    rw [finish, stuck]
    exact ⟨.refl, step?_eq_none_iff.1 stuck⟩
  | case2 s t taken ih =>
    rw [finish, taken]
    exact ⟨ih.1.head taken, ih.2⟩

theorem Tracks.moves (h : s.Tracks i) (hg : g.WellFormed) (hi : i < g.size) (hm : Relation.ReflTransGen Moves s t) :
    t.Tracks i := by
  induction hm with
  | refl => exact h
  | tail _ move ih => exact ih.move hg hi move

/-- When nothing is pending, no path to a version is shorter than its distance. -/
theorem Tracks.le_of_path (h : s.Tracks i) (done : s.pending = []) (path : g.Path i j n) :
    ∃ d ≤ n, s.distance? j = some d := by
  have found : ∀ {k m}, s.Meets k m → ∃ d ≤ m, s.distance? k = some d := by
    rintro k m (found | ⟨d, -, mem⟩)
    · exact found
    · simp [done] at mem
  induction path with
  | here => exact found h.meets_start
  | up _ parent ih =>
    obtain ⟨d, hd, hj⟩ := ih
    obtain ⟨d', hd', hp⟩ := found (h.meets_parents hj parent)
    exact ⟨d', by omega, hp⟩

theorem Tracks.distance?_eq_some_iff (h : s.Tracks i) (done : s.pending = []) :
    s.distance? j = some d ↔ g.IsDistance i j d := by
  have least : ∀ {d}, s.distance? j = some d → g.IsDistance i j d := by
    intro d hd
    refine ⟨h.distance_path hd, fun n path => ?_⟩
    obtain ⟨d', hd', found⟩ := h.le_of_path done path
    rw [hd] at found
    exact Option.some.inj found ▸ hd'
  refine ⟨least, fun hd => ?_⟩
  obtain ⟨d', -, found⟩ := h.le_of_path done hd.1
  rw [found, (least found).unique hd]

/-! ## What is found -/

theorem mem_entries : (j, d) ∈ s.entries ↔ s.distance? j = some d := by
  rw [entries, List.mem_filterMap, distance?, Option.join_eq_some_iff]
  constructor
  · rintro ⟨⟨o, k⟩, mem, found⟩
    rw [List.mem_zipIdx_iff_getElem?] at mem
    obtain ⟨d', rfl, same⟩ := Option.map_eq_some_iff.1 found
    cases same
    simpa using mem
  · intro found
    exact ⟨(some d, j), List.mem_zipIdx_iff_getElem?.2 (by simpa using found), rfl⟩

/-- What is found is listed by index. -/
theorem sorted_entries (s : AncestorSearch g) : (s.entries.map Prod.fst).Pairwise (· < ·) := by
  have indices : (s.distances.toList.zipIdx.map Prod.snd).Pairwise (· < ·) := by
    rw [List.zipIdx_map_snd]
    exact List.pairwise_lt_range' 1
  rw [List.pairwise_map, entries, List.pairwise_filterMap]
  refine (List.pairwise_map.1 indices).imp ?_
  intro e e' h p hp p' hp'
  obtain ⟨d, -, rfl⟩ := Option.map_eq_some_iff.1 hp
  obtain ⟨d', -, rfl⟩ := Option.map_eq_some_iff.1 hp'
  exact h

end AncestorSearch

namespace VersionGraph

open Relation (ReflTransGen)

variable {g : VersionGraph} {i j : Nat} {es es' : List (Nat × Nat)}

/-- A list of all ancestors of a version, each once and with its distance. -/
structure ListsAncestors (g : VersionGraph) (i : Nat) (es : List (Nat × Nat)) : Prop where
  nodup : (es.map Prod.fst).Nodup
  mem_iff : ∀ {j d : Nat}, (j, d) ∈ es ↔ g.IsDistance i j d

theorem ListsAncestors.perm (h : g.ListsAncestors i es) (hp : es'.Perm es) : g.ListsAncestors i es' :=
  ⟨(hp.map Prod.fst).nodup_iff.2 h.nodup, hp.mem_iff.trans h.mem_iff⟩

theorem ListsAncestors.mem_map_fst_iff (h : g.ListsAncestors i es) : j ∈ es.map Prod.fst ↔ g.IsAncestor i j := by
  constructor
  · intro mem
    obtain ⟨⟨j, d⟩, he, rfl⟩ := List.mem_map.1 mem
    exact (h.mem_iff.1 he).isAncestor
  · intro ancestor
    obtain ⟨d, hd⟩ := ancestor.exists_isDistance
    exact List.mem_map.2 ⟨(j, d), h.mem_iff.2 hd, rfl⟩

theorem version_eq_ok (hi : i < g.size) : g.version i = .ok g.versions[i] := by
  rw [version, Array.getElem?_eq_getElem hi]

theorem ancestors_eq_ok (hi : i < g.size) : g.ancestors i = .ok (AncestorSearch.start g i).finish.entries := by
  rw [ancestors, version_eq_ok hi]
  rfl

theorem WellFormed.listsAncestors (hg : g.WellFormed) (hi : i < g.size) :
    g.ListsAncestors i (AncestorSearch.start g i).finish.entries := by
  obtain ⟨moves, done⟩ := AncestorSearch.moves_finish (.start g i)
  have tracks := (AncestorSearch.tracks_start g i).moves hg hi moves
  exact ⟨(AncestorSearch.sorted_entries _).imp Nat.ne_of_lt,
    AncestorSearch.mem_entries.trans (tracks.distance?_eq_some_iff done)⟩

/-- From every version of a graph that is made by adding versions the search comes to an end, and on its way it looks
at versions of the graph only. What it has found then are the ancestors of the version, each once, with the length
of the shortest path to it. -/
theorem ancestors_shortest (vs : List Version) {i : Nat} (hi : i < (ofVersions vs).size) :
    let g := ofVersions vs
    ∃ s : AncestorSearch g, ReflTransGen AncestorSearch.Moves (.start g i) s ∧ s.step? = none ∧
      (∀ t : AncestorSearch g, ReflTransGen AncestorSearch.Moves (.start g i) t → ∀ e ∈ t.pending, e.1 < g.size) ∧
      g.ancestors i = .ok s.entries ∧ (s.entries.map Prod.fst).Nodup ∧
      (∀ j, j ∈ s.entries.map Prod.fst ↔ g.IsAncestor i j) ∧ ∀ j d, (j, d) ∈ s.entries ↔ g.IsDistance i j d := by
  intro g
  have hg : g.WellFormed := wellFormed_ofVersions vs
  obtain ⟨moves, done⟩ := AncestorSearch.moves_finish (.start g i)
  have lists := hg.listsAncestors hi
  refine ⟨_, moves, AncestorSearch.step?_eq_none_iff.2 done, fun t ht => ?_, ancestors_eq_ok hi, lists.nodup,
    fun _ => lists.mem_map_fst_iff, fun _ _ => lists.mem_iff⟩
  exact ((AncestorSearch.tracks_start g i).moves hg hi ht).bound hg hi

end VersionGraph

/-! ## A detour -/

namespace Detour

open VersionGraph

/-- The last version is merged from the second one and from a branch that began there. -/
def versions : List Version :=
  [⟨"base", "", []⟩, ⟨"first", "", [0]⟩, ⟨"branch", "", [1]⟩, ⟨"tip", "", [2]⟩, ⟨"merge", "", [1, 3]⟩]

/-- The branch is followed first, and the two versions before it are met at its end before they are met directly. -/
theorem ancestors_merge : 4 < (ofVersions versions).size ∧
    (ofVersions versions).ancestors 4 = .ok [(0, 2), (1, 1), (2, 2), (3, 1), (4, 0)] ∧
    (ofVersions versions).IsDistance 4 1 1 ∧ (ofVersions versions).IsDistance 4 0 2 := by
  have last : 4 < (ofVersions versions).size := by decide
  have found : (ofVersions versions).ancestors 4 = .ok [(0, 2), (1, 1), (2, 2), (3, 1), (4, 0)] := by cbv
  obtain ⟨s, -, -, -, answer, -, -, distances⟩ := ancestors_shortest versions last
  rw [found] at answer
  refine ⟨last, found, (distances 1 1).1 ?_, (distances 0 2).1 ?_⟩ <;> simp [← Except.ok.inj answer]

end Detour

end SqlDialects
