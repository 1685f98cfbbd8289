import SqlDialects.Decimal.Binary64

/-!
# Version graphs

Versions refer to their parents by index, and a version can be added only after its parents, so every
edge leads to a smaller index and the graph has no cycles.

The ancestors of a version are found by following parents, always from the version that was met last.
A version may so be met on a detour first. It is followed up again when it is met on a shorter path, and
only then, so that a history of many merges is not walked along each of its paths.

The common ancestor of two versions is the shared one with the least sum of distances, the oldest of
those that tie.
-/

set_option autoImplicit false

namespace SqlDialects

structure Version where
  id : String
  message : String
  /-- The indices of the versions it was made from. -/
  parents : List Nat
  deriving DecidableEq, Inhabited

/-- Versions in the order in which they were added, and where each name is found. -/
structure VersionGraph where
  versions : Array Version
  /-- The index of the version of each name. -/
  indices : List (String × Nat)

/-- Why an operation on a version graph fails. -/
inductive GraphError where
  /-- Two versions have no ancestor in common. -/
  | unrelated (left right : String)
  /-- There is no version at an index. -/
  | unknownNode (index : Nat)
  /-- There already is a version of that name. -/
  | duplicateId (id : String)
  deriving DecidableEq

def GraphError.message : GraphError → String
  | unrelated left right =>
    "versions " ++ left ++ " and " ++ right ++ " do not have a common ancestor"
  | unknownNode index => "node index " ++ Decimal.digits index ++ " does not exist in this graph"
  | duplicateId id => "a version with id '" ++ id ++ "' already exists"

namespace VersionGraph

def empty : VersionGraph := ⟨#[], []⟩

instance : Inhabited VersionGraph := ⟨empty⟩

def size (g : VersionGraph) : Nat := g.versions.size

/-- The index of the version of a name. -/
def find? (g : VersionGraph) (id : String) : Option Nat := g.indices.lookup id

def version (g : VersionGraph) (i : Nat) : Except GraphError Version :=
  match g.versions[i]? with
  | some v => .ok v
  | none => .error (.unknownNode i)

/-- Adds a version. A taken name is refused before an unknown parent is. -/
def add (g : VersionGraph) (v : Version) : Except GraphError VersionGraph :=
  if (g.find? v.id).isSome then .error (.duplicateId v.id)
  else
    match v.parents.find? (fun p => g.size ≤ p) with
    | some p => .error (.unknownNode p)
    | none => .ok ⟨g.versions.push v, (v.id, g.size) :: g.indices⟩

/-- Adds a version to the graph that a program holds, and yields its index. Nothing is entered before the version is
accepted, and its name is entered before the version. -/
def insert (v : Version) : StateM VersionGraph (Except GraphError Nat) := do
  let g ← get
  if (g.find? v.id).isSome then return .error (.duplicateId v.id)
  else
    match v.parents.find? (fun p => g.size ≤ p) with
    | some p => return .error (.unknownNode p)
    | none =>
      modify fun g => { g with indices := (v.id, g.size) :: g.indices }
      modify fun g => { g with versions := g.versions.push v }
      return .ok g.size

/-- The parents of a version, none where there is no version. -/
def parents (g : VersionGraph) (i : Nat) : List Nat :=
  match g.versions[i]? with
  | some v => v.parents
  | none => []

end VersionGraph

/-- A search for the ancestors of a version of a graph, under way. -/
structure AncestorSearch (g : VersionGraph) where
  /-- Versions to look at, each with the length of the path on which it was met. The last one met is first. -/
  pending : List (Nat × Nat)
  /-- The shortest path that each version was met on so far, by index. -/
  distances : Vector (Option Nat) g.size

namespace AncestorSearch

variable {g : VersionGraph}

/-- The search that begins at a version. -/
def start (g : VersionGraph) (i : Nat) : AncestorSearch g := ⟨[(i, 0)], .replicate g.size none⟩

def distance? (s : AncestorSearch g) (i : Nat) : Option Nat := s.distances[i]?.join

/-- Whether a version was met on a path that is no longer than a given one. -/
def isKnown (s : AncestorSearch g) (i d : Nat) : Bool := (s.distance? i).any (· ≤ d)

/-- The search after a version was met on a path that is shorter than all before: its parents are met one
edge further on, the last of them first. -/
def expand (s : AncestorSearch g) (i d : Nat) (rest : List (Nat × Nat)) : AncestorSearch g where
  pending := (g.parents i).foldl (fun met p => (p, d + 1) :: met) rest
  distances := s.distances.setIfInBounds i (some d)

/-- Takes up the version that was met last. Where it is known there is nothing left to do. -/
def step? (s : AncestorSearch g) : Option (AncestorSearch g) :=
  match s.pending with
  | [] => none
  | (i, d) :: rest => if s.isKnown i d then some { s with pending := rest } else some (s.expand i d rest)

/-- How many versions have not been met. -/
def unmet (s : AncestorSearch g) : Nat := s.distances.toList.countP Option.isNone

/-- The sum of all distances found. -/
def total (s : AncestorSearch g) : Nat := s.distances.toList.foldr (fun d n => d.getD 0 + n) 0

/-- A first distance leaves fewer to find, and a shorter one makes the sum smaller. -/
theorem lower_set {ds : List (Option Nat)} {i d : Nat} (hi : i < ds.length)
    (h : ds[i].any (· ≤ d) = false) :
    (ds.set i (some d)).countP Option.isNone < ds.countP Option.isNone
      ∨ (ds.set i (some d)).countP Option.isNone = ds.countP Option.isNone
        ∧ (ds.set i (some d)).foldr (fun d n => d.getD 0 + n) 0 < ds.foldr (fun d n => d.getD 0 + n) 0 := by
  induction ds generalizing i with
  | nil => cases hi
  | cons o ds ih =>
    cases i with
    | zero =>
      cases o with
      | none => exact .inl (by simp)
      | some k => exact .inr (by simpa using h)
    | succ i =>
      have rest := ih (Nat.lt_of_succ_lt_succ hi) h
      simp only [List.set_cons_succ, List.countP_cons, List.foldr_cons]
      omega

/-- A step finds a version, or a shorter path to one, or leaves less to look at. -/
theorem step?_lower {s t : AncestorSearch g} (h : s.step? = some t) :
    Prod.Lex (· < ·) (Prod.Lex (· < ·) (· < ·)) (t.unmet, t.total, t.pending.length)
      (s.unmet, s.total, s.pending.length) := by
  obtain ⟨pending, distances⟩ := s
  cases pending with
  | nil => cases h
  | cons e rest =>
    obtain ⟨i, d⟩ := e
    simp only [step?] at h
    split at h
    · cases h
      exact .right _ (.right _ (Nat.lt_succ_self _))
    · next far =>
      cases h
      by_cases hi : i < g.size
      · have lower := @lower_set distances.toList i d (by simpa using hi)
          (by simpa [isKnown, distance?, hi] using far)
        rw [← Vector.toList_setIfInBounds] at lower
        rcases lower with fewer | ⟨same, less⟩
        · exact .left _ _ fewer
        · simp only [unmet, expand, same]
          exact .right _ (.left _ _ less)
      · -- There is no such version, and nothing is met from there.
        have parentless : g.parents i = [] := by
          rw [VersionGraph.parents, Array.getElem?_eq_none (Nat.le_of_not_lt hi)]
        simp only [expand, parentless, List.foldl_nil, Vector.setIfInBounds_eq_of_size_le (Nat.le_of_not_lt hi)]
        exact .right _ (.right _ (Nat.lt_succ_self _))

/-- The search when there is nothing left to look at. -/
def finish (s : AncestorSearch g) : AncestorSearch g :=
  match _taken : s.step? with
  | none => s
  | some t => t.finish
termination_by (s.unmet, s.total, s.pending.length)
decreasing_by exact step?_lower _taken

/-- The versions that were met, by index, each with its distance. -/
def entries (s : AncestorSearch g) : List (Nat × Nat) :=
  s.distances.toList.zipIdx.filterMap fun e => e.1.map fun d => (e.2, d)

end AncestorSearch

namespace VersionGraph

/-- The ancestors of a version, itself among them, each with the length of the shortest path to it. -/
def ancestors (g : VersionGraph) (i : Nat) : Except GraphError (List (Nat × Nat)) := do
  let _ ← g.version i
  return (AncestorSearch.start g i).finish.entries

/-- The versions that two lists of ancestors share, each with the sum of its distances. -/
def shared (left right : List (Nat × Nat)) : List (Nat × Nat) :=
  left.filterMap fun e => (right.lookup e.1).map fun d => (e.1, e.2 + d)

/-- Whether the first of two entries is the nearer one, or as near and the older one. -/
def precedes (e e' : Nat × Nat) : Bool := e.2 < e'.2 || (e.2 == e'.2 && e.1 < e'.1)

/-- The nearest of a list of versions, the oldest of those that tie. -/
def nearest : List (Nat × Nat) → Option (Nat × Nat)
  | [] => none
  | e :: es =>
    match nearest es with
    | none => some e
    | some e' => if precedes e' e then some e' else some e

/-- The ancestor that two versions share at the least combined distance. -/
def commonAncestor (g : VersionGraph) (a b : Nat) : Except GraphError Nat := do
  let left ← g.version a
  let right ← g.version b
  if a = b ∨ left.id = right.id then return a
  else
    let fromA ← g.ancestors a
    let fromB ← g.ancestors b
    match nearest (shared fromA fromB) with
    | some e => return e.1
    | none => throw (.unrelated left.id right.id)

end VersionGraph

end SqlDialects
