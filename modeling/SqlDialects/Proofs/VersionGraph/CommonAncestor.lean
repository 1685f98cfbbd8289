import SqlDialects.Proofs.Scope.Tidy
import SqlDialects.Proofs.VersionGraph.Search

/-!
# Common ancestors

Two versions of a history have the common ancestor whose distances from them have the least sum, the oldest of those
that tie, and they have none exactly if they share no ancestor (`VersionGraph.commonAncestor_nearest`). The lists of
ancestors that are compared may come in any order, and a version that is compared with itself needs no list.

The nearest shared ancestor need not be a lowest one: a merge may lead past a shared version to one of its ancestors,
and where that is nearer from both sides together it is chosen. `VersionGraph.commonAncestor_lowest` says where nothing
is passed by.
-/

set_option autoImplicit false

namespace SqlDialects

namespace VersionGraph

variable {g : VersionGraph} {a b c d m n : Nat} {e e' : Nat × Nat} {es es' left right : List (Nat × Nat)}

/-- A version that is an ancestor of two others. -/
def IsShared (g : VersionGraph) (a b c : Nat) : Prop := g.IsAncestor a c ∧ g.IsAncestor b c

/-- The shared ancestor at the least sum of distances, the one with the least index of those that tie. -/
def IsNearest (g : VersionGraph) (a b c : Nat) : Prop :=
  ∃ m n, g.IsDistance a c m ∧ g.IsDistance b c n ∧
    ∀ c' m' n', g.IsDistance a c' m' → g.IsDistance b c' n' → m + n < m' + n' ∨ m + n = m' + n' ∧ c ≤ c'

theorem IsNearest.isShared (h : g.IsNearest a b c) : g.IsShared a b c := by
  obtain ⟨m, n, hm, hn, -⟩ := h
  exact ⟨hm.isAncestor, hn.isAncestor⟩

theorem IsNearest.symm (h : g.IsNearest a b c) : g.IsNearest b a c := by
  obtain ⟨m, n, hm, hn, least⟩ := h
  refine ⟨n, m, hn, hm, fun c' m' n' hm' hn' => ?_⟩
  have := least c' n' m' hn' hm'
  omega

theorem IsNearest.unique {c' : Nat} (h : g.IsNearest a b c) (h' : g.IsNearest a b c') : c = c' := by
  obtain ⟨m, n, hm, hn, least⟩ := h
  obtain ⟨m', n', hm', hn', least'⟩ := h'
  have := least c' m' n' hm' hn'
  have := least' c m n hm hn
  omega

theorem isNearest_self (g : VersionGraph) (a : Nat) : g.IsNearest a a a := by
  refine ⟨0, 0, isDistance_self g a, isDistance_self g a, fun c m n hm _ => ?_⟩
  cases m with
  | zero =>
    cases hm.1
    omega
  | succ m => omega

/-! ## The nearest of a list -/

theorem precedes_iff : precedes e e' = true ↔ e.2 < e'.2 ∨ e.2 = e'.2 ∧ e.1 < e'.1 := by
  simp [precedes]

theorem nearest_eq_none_iff : nearest es = none ↔ es = [] := by
  cases es with
  | nil => simp [nearest]
  | cons e es =>
    rw [nearest]
    split
    · simp
    · split <;> simp

theorem nearest_eq_some (h : nearest es = some e) : e ∈ es ∧ ∀ e' ∈ es, ¬ precedes e' e := by
  induction es generalizing e with
  | nil => cases h
  | cons f fs ih =>
    rw [nearest] at h
    split at h
    · next empty =>
      cases h
      simp [nearest_eq_none_iff.1 empty, precedes_iff]
    · next e' found =>
      obtain ⟨mem, least⟩ := ih found
      simp only [precedes_iff] at h least ⊢
      split at h
      · next closer =>
        cases h
        exact ⟨.tail f mem, List.forall_mem_cons.2 ⟨by omega, least⟩⟩
      · next farther =>
        cases h
        refine ⟨.head fs, List.forall_mem_cons.2 ⟨by omega, fun x hx => ?_⟩⟩
        have := least x hx
        omega

theorem mem_shared (hl : g.ListsAncestors a left) (hr : g.ListsAncestors b right) :
    (c, d) ∈ shared left right ↔ ∃ m n, g.IsDistance a c m ∧ g.IsDistance b c n ∧ d = m + n := by
  have looked : ∀ {c n}, right.lookup c = some n ↔ g.IsDistance b c n :=
    (ScopeStack.lookup_eq_some_iff_mem hr.nodup _ _).trans hr.mem_iff
  rw [shared, List.mem_filterMap]
  constructor
  · rintro ⟨⟨c, m⟩, mem, found⟩
    obtain ⟨n, hn, same⟩ := Option.map_eq_some_iff.1 found
    cases same
    exact ⟨m, n, hl.mem_iff.1 mem, looked.1 hn, rfl⟩
  · rintro ⟨m, n, hm, hn, rfl⟩
    exact ⟨(c, m), hl.mem_iff.2 hm, by rw [looked.2 hn, Option.map_some]⟩

theorem nearest_shared_eq_none_iff (hl : g.ListsAncestors a left) (hr : g.ListsAncestors b right) :
    (nearest (shared left right)).map Prod.fst = none ↔ ¬ ∃ c, g.IsShared a b c := by
  rw [Option.map_eq_none_iff, nearest_eq_none_iff, List.eq_nil_iff_forall_not_mem]
  constructor
  · rintro empty ⟨c, ⟨m, hm⟩, ⟨n, hn⟩⟩
    obtain ⟨m, hm⟩ := IsAncestor.exists_isDistance ⟨m, hm⟩
    obtain ⟨n, hn⟩ := IsAncestor.exists_isDistance ⟨n, hn⟩
    exact empty _ ((mem_shared hl hr).2 ⟨m, n, hm, hn, rfl⟩)
  · rintro unrelated ⟨c, d⟩ mem
    obtain ⟨m, n, hm, hn, -⟩ := (mem_shared hl hr).1 mem
    exact unrelated ⟨c, hm.isAncestor, hn.isAncestor⟩

/-- The nearest of all that two lists of ancestors share, in whatever order they list them. -/
theorem nearest_shared (hl : g.ListsAncestors a left) (hr : g.ListsAncestors b right) :
    (nearest (shared left right)).map Prod.fst = some c ↔ g.IsNearest a b c := by
  have sound : ∀ {c}, (nearest (shared left right)).map Prod.fst = some c → g.IsNearest a b c := by
    intro c h
    obtain ⟨⟨c, d⟩, found, rfl⟩ := Option.map_eq_some_iff.1 h
    obtain ⟨mem, least⟩ := nearest_eq_some found
    obtain ⟨m, n, hm, hn, rfl⟩ := (mem_shared hl hr).1 mem
    refine ⟨m, n, hm, hn, fun c' m' n' hm' hn' => ?_⟩
    have := least _ ((mem_shared hl hr).2 ⟨m', n', hm', hn', rfl⟩)
    rw [precedes_iff] at this
    omega
  refine ⟨sound, fun h => ?_⟩
  cases found : (nearest (shared left right)).map Prod.fst with
  | none => exact absurd ⟨c, h.isShared⟩ ((nearest_shared_eq_none_iff hl hr).1 found)
  | some c' => rw [(sound found).unique h]

theorem nearest_shared_congr {left' right' : List (Nat × Nat)} (hl : g.ListsAncestors a left)
    (hr : g.ListsAncestors b right) (hl' : g.ListsAncestors a left') (hr' : g.ListsAncestors b right') :
    (nearest (shared left right)).map Prod.fst = (nearest (shared left' right')).map Prod.fst :=
  Option.ext fun _ => (nearest_shared hl hr).trans (nearest_shared hl' hr').symm

/-! ## The common ancestor -/

/-- The answer for two versions that are not compared by name, and for one version as well: no shared ancestor is
nearer to a version than itself. -/
theorem commonAncestor_eq (hg : g.WellFormed) (ha : a < g.size) (hb : b < g.size) (hl : g.ListsAncestors a left)
    (hr : g.ListsAncestors b right) :
    g.commonAncestor a b = ((nearest (shared left right)).map Prod.fst).elim
      (.error (.unrelated g.versions[a].id g.versions[b].id)) .ok := by
  have answer : g.commonAncestor a b = if a = b ∨ g.versions[a].id = g.versions[b].id then .ok a
      else ((nearest (shared (AncestorSearch.start g a).finish.entries (AncestorSearch.start g b).finish.entries)).map
        Prod.fst).elim (.error (.unrelated g.versions[a].id g.versions[b].id)) .ok := by
    rw [commonAncestor, version_eq_ok ha, version_eq_ok hb, ancestors_eq_ok ha, ancestors_eq_ok hb]
    dsimp only [bind, Except.bind]
    cases nearest (shared _ _) <;> rfl
  rw [answer]
  split
  · next same =>
    have same : a = b := by
      rcases same with same | same
      · exact same
      · exact hg.index_unique (Array.getElem?_eq_getElem ha) (Array.getElem?_eq_getElem hb) same
    subst same
    rw [(nearest_shared hl hr).2 (isNearest_self g a)]
    rfl
  · rw [nearest_shared_congr hl hr (hg.listsAncestors ha) (hg.listsAncestors hb)]

theorem WellFormed.commonAncestor_eq_ok_iff (hg : g.WellFormed) (ha : a < g.size) (hb : b < g.size) :
    g.commonAncestor a b = .ok c ↔ g.IsNearest a b c := by
  have hl := hg.listsAncestors ha
  have hr := hg.listsAncestors hb
  rw [commonAncestor_eq hg ha hb hl hr, ← nearest_shared hl hr]
  cases (nearest (shared _ _)).map Prod.fst <;> simp

theorem WellFormed.commonAncestor_eq_error_iff (hg : g.WellFormed) (ha : a < g.size) (hb : b < g.size)
    {e : GraphError} :
    g.commonAncestor a b = .error e
      ↔ e = .unrelated g.versions[a].id g.versions[b].id ∧ ¬ ∃ c, g.IsShared a b c := by
  have hl := hg.listsAncestors ha
  have hr := hg.listsAncestors hb
  rw [commonAncestor_eq hg ha hb hl hr, ← nearest_shared_eq_none_iff hl hr]
  cases (nearest (shared _ _)).map Prod.fst <;> simp [eq_comm]

theorem WellFormed.exists_commonAncestor (hg : g.WellFormed) (ha : a < g.size) (hb : b < g.size)
    (related : ∃ c, g.IsShared a b c) : ∃ c, g.commonAncestor a b = .ok c ∧ g.IsNearest a b c := by
  cases answer : g.commonAncestor a b with
  | ok c => exact ⟨c, rfl, (hg.commonAncestor_eq_ok_iff ha hb).1 answer⟩
  | error e => exact absurd related ((hg.commonAncestor_eq_error_iff ha hb).1 answer).2

/-- Two versions of a graph that is made by adding versions are unrelated, and named so, exactly if no version is an
ancestor of both. Otherwise they have the nearest shared ancestor, the oldest of those that tie. So a version is its
own common ancestor, the order of the two makes no difference, and neither does the order in which their ancestors are
listed. -/
theorem commonAncestor_nearest (vs : List Version) {a b : Nat} (ha : a < (ofVersions vs).size)
    (hb : b < (ofVersions vs).size) :
    let g := ofVersions vs
    (∀ e, g.commonAncestor a b = .error e
      ↔ e = .unrelated g.versions[a].id g.versions[b].id ∧ ¬ ∃ c, g.IsAncestor a c ∧ g.IsAncestor b c) ∧
    (∀ c, g.commonAncestor a b = .ok c ↔ g.IsNearest a b c) ∧
    (a = b → g.commonAncestor a b = .ok a) ∧
    (∀ c, g.commonAncestor b a = .ok c ↔ g.commonAncestor a b = .ok c) ∧
    ∀ left right left' right', g.ancestors a = .ok left → g.ancestors b = .ok right → left'.Perm left →
      right'.Perm right → (nearest (shared left' right')).map Prod.fst = (g.commonAncestor a b).toOption := by
  intro g
  have hg : g.WellFormed := wellFormed_ofVersions vs
  refine ⟨fun e => hg.commonAncestor_eq_error_iff ha hb, fun c => hg.commonAncestor_eq_ok_iff ha hb, ?_, fun c => ?_, ?_⟩
  · rintro rfl
    exact (hg.commonAncestor_eq_ok_iff ha ha).2 (isNearest_self g a)
  · rw [hg.commonAncestor_eq_ok_iff ha hb, hg.commonAncestor_eq_ok_iff hb ha]
    exact ⟨IsNearest.symm, IsNearest.symm⟩
  · intro left right left' right' hl hr permL permR
    rw [ancestors_eq_ok ha] at hl
    rw [ancestors_eq_ok hb] at hr
    cases hl
    cases hr
    rw [commonAncestor_eq hg ha hb ((hg.listsAncestors ha).perm permL) ((hg.listsAncestors hb).perm permR)]
    cases (nearest (shared left' right')).map Prod.fst <;> rfl

/-! ## Lowest common ancestors -/

/-- A shared ancestor that is not an ancestor of another one. -/
def IsLowest (g : VersionGraph) (a b c : Nat) : Prop :=
  g.IsShared a b c ∧ ∀ x, g.IsShared a b x → g.IsAncestor x c → x = c

/-- Whether a version lies on a shortest path from another one to one of its ancestors. -/
def IsBetween (g : VersionGraph) (i x c : Nat) : Prop :=
  ∀ d m n, g.IsDistance i c d → g.IsDistance i x m → g.IsDistance x c n → d = m + n

/-- A shared ancestor that lies on shortest paths from both sides is nearer than what lies behind it. -/
theorem IsNearest.eq_of_isBetween {x : Nat} (h : g.IsNearest a b c) (hx : g.IsShared a b x) (hxc : g.IsAncestor x c)
    (betweenA : g.IsBetween a x c) (betweenB : g.IsBetween b x c) : x = c := by
  obtain ⟨m, n, hm, hn, least⟩ := h
  obtain ⟨m', hm'⟩ := hx.1.exists_isDistance
  obtain ⟨n', hn'⟩ := hx.2.exists_isDistance
  obtain ⟨k, hk⟩ := hxc.exists_isDistance
  have fromA : m = m' + k := betweenA m m' k hm hm' hk
  have fromB : n = n' + k := betweenB n n' k hn hn' hk
  have := least x m' n' hm' hn'
  obtain rfl : k = 0 := by omega
  cases hk.1
  rfl

theorem IsLowest.eq_of_isAncestor (h : g.IsLowest a b c) (hba : g.IsAncestor b a) : c = a :=
  (h.2 a ⟨isAncestor_self g a, hba⟩ h.1.1).symm

theorem isBetween_of_uniform (uniform : ∀ i j m n, g.Path i j m → g.Path i j n → m = n) (i x c : Nat) :
    g.IsBetween i x c :=
  fun _ _ _ hd hm hn => uniform i c _ _ hd.1 (hm.1.trans hn.1)

/-- Where one version is an ancestor of the other, it is the nearest one exactly if no ancestor of it is as near to both
together as it is to the other. -/
theorem IsNearest.eq_left_iff (h : g.IsNearest a b c) (hg : g.WellFormed) (hba : g.IsAncestor b a) :
    c = a ↔ ∀ x, g.IsAncestor a x → x ≠ a →
      ∀ d m n, g.IsDistance b a d → g.IsDistance a x m → g.IsDistance b x n → d < m + n := by
  obtain ⟨m, n, hm, hn, least⟩ := h
  constructor
  · rintro rfl x hax other d m' n' hd hm' hn'
    obtain rfl : m = 0 := hm.unique (isDistance_self g c)
    obtain rfl : n = d := hn.unique hd
    have older := hg.le hax
    have := least x m' n' hm' hn'
    omega
  · intro farther
    by_contra other
    obtain ⟨d, hd⟩ := hba.exists_isDistance
    have := farther c hm.isAncestor other d m n hd hm hn
    have := least a 0 d (isDistance_self g a) hd
    omega

/-- Related versions have a common ancestor from which no other shared ancestor descends that lies on shortest paths to
it from both. So it is a lowest one in a history in which all paths between two versions are of one length, and there a
version and an ancestor of it have that ancestor in common. Elsewhere they do exactly if nothing above the ancestor is
as near to both together as the ancestor is to the version. -/
theorem commonAncestor_lowest (vs : List Version) {a b : Nat} (ha : a < (ofVersions vs).size)
    (hb : b < (ofVersions vs).size)
    (related : ∃ c, (ofVersions vs).IsAncestor a c ∧ (ofVersions vs).IsAncestor b c) :
    let g := ofVersions vs
    ∃ c, g.commonAncestor a b = .ok c ∧ g.IsShared a b c ∧
      (∀ x, g.IsShared a b x → g.IsAncestor x c → g.IsBetween a x c → g.IsBetween b x c → x = c) ∧
      ((∀ i j m n, g.Path i j m → g.Path i j n → m = n) → g.IsLowest a b c ∧ (g.IsAncestor b a → c = a)) ∧
      (g.IsAncestor b a → (c = a ↔ ∀ x, g.IsAncestor a x → x ≠ a →
        ∀ d m n, g.IsDistance b a d → g.IsDistance a x m → g.IsDistance b x n → d < m + n)) := by
  intro g
  have hg : g.WellFormed := wellFormed_ofVersions vs
  obtain ⟨c, answer, nearest⟩ := hg.exists_commonAncestor ha hb related
  refine ⟨c, answer, nearest.isShared, fun _ hx hxc => nearest.eq_of_isBetween hx hxc, ?_, nearest.eq_left_iff hg⟩
  intro uniform
  have between : ∀ i x, g.IsBetween i x c := fun i x => isBetween_of_uniform uniform i x c
  have lowest : g.IsLowest a b c :=
    ⟨nearest.isShared, fun x hx hxc => nearest.eq_of_isBetween hx hxc (between a x) (between b x)⟩
  exact ⟨lowest, lowest.eq_of_isAncestor⟩

end VersionGraph

/-! ## A history of two merges -/

namespace TwoMerges

open VersionGraph

/-- Two branches, of which the second is merged into the first one, and goes on and is merged again. -/
def versions : List Version :=
  [⟨"init", "", []⟩, ⟨"a1", "", [0]⟩, ⟨"a2", "", [1]⟩, ⟨"b1", "", [0]⟩, ⟨"b2", "", [3]⟩, ⟨"b3", "", [4]⟩,
    ⟨"m1", "", [2, 5]⟩, ⟨"c1", "", [5]⟩, ⟨"m2", "", [6, 7]⟩]

def history : VersionGraph := ofVersions versions

theorem commonAncestor_merged : history.commonAncestor 6 7 = .ok 5 := by cbv

/-- The first merge and the version that is merged next have the last version before them in common. -/
theorem commonAncestor_nearest_merged : 6 < history.size ∧ 7 < history.size ∧ history.IsNearest 6 7 5 ∧
    history.commonAncestor 7 6 = .ok 5 := by
  have first : 6 < history.size := by decide
  have second : 7 < history.size := by decide
  obtain ⟨-, nearest, -, symmetric, -⟩ := commonAncestor_nearest versions first second
  exact ⟨first, second, (nearest 5).1 commonAncestor_merged, (symmetric 5).2 commonAncestor_merged⟩

/-- The last merge and a version of its first branch have that version in common: what is above it is farther away. -/
theorem commonAncestor_lowest_merged : 1 < history.size ∧ 8 < history.size ∧ history.IsAncestor 8 1 ∧
    history.commonAncestor 1 8 = .ok 1 ∧ ∀ x, history.IsAncestor 1 x → x ≠ 1 →
      ∀ d m n, history.IsDistance 8 1 d → history.IsDistance 1 x m → history.IsDistance 8 x n → d < m + n := by
  have early : 1 < history.size := by decide
  have last : 8 < history.size := by decide
  have above : history.IsAncestor 8 1 :=
    ⟨3, .up (.up (.up .here (show 6 ∈ history.parents 8 by decide)) (show 2 ∈ history.parents 6 by decide)) (by decide)⟩
  have answer : history.commonAncestor 1 8 = .ok 1 := by cbv
  obtain ⟨c, found, -, -, -, farther⟩ :=
    commonAncestor_lowest versions early last ⟨1, isAncestor_self history 1, above⟩
  cases answer.symm.trans found
  exact ⟨early, last, above, answer, (farther above).1 rfl⟩

end TwoMerges

/-! ## A merge that passes a version by -/

namespace Shortcut

open VersionGraph

/-- The last version is merged from a branch that began at the second one, and from the first one. -/
def versions : List Version :=
  [⟨"base", "", []⟩, ⟨"a", "", [0]⟩, ⟨"x", "", [1]⟩, ⟨"y", "", [2]⟩, ⟨"b", "", [3, 0]⟩]

/-- The second version is an ancestor of the last one, and the two have the first one in common. -/
theorem commonAncestor_passes_by : (ofVersions versions).IsAncestor 4 1 ∧
    (ofVersions versions).commonAncestor 1 4 = .ok 0 ∧ ¬ (ofVersions versions).IsLowest 1 4 0 := by
  have above : (ofVersions versions).IsAncestor 4 1 :=
    ⟨3, .up (.up (.up .here (show 3 ∈ (ofVersions versions).parents 4 by decide))
      (show 2 ∈ (ofVersions versions).parents 3 by decide)) (by decide)⟩
  refine ⟨above, by cbv, fun lowest => ?_⟩
  cases lowest.eq_of_isAncestor above

end Shortcut

end SqlDialects
