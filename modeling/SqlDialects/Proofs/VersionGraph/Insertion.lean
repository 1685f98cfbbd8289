import SqlDialects.Proofs.VersionGraph.Paths

/-!
# Graphs that are filled in place

A program holds one graph and adds versions to it, one after the other; some of them are refused. What becomes of one
version is `Inserted`: a taken name is refused before an unknown parent is, both leave the graph as it was, and what is
accepted comes behind all others. Versions that were added stay where they are (`Inserted.keeps`), so that the graph is
well formed at each moment of such a run and every earlier one is a beginning of it
(`VersionGraph.insertAll_wellFormed`).
-/

set_option autoImplicit false

namespace SqlDialects.VersionGraph

/-- Adds versions one after the other and yields what was answered to each. -/
def insertAll (vs : List Version) : StateM VersionGraph (List (Except GraphError Nat)) := vs.mapM insert

/-- The answers to versions that are added to the empty graph. -/
def answers (vs : List Version) : List (Except GraphError Nat) := ((insertAll vs).run empty).1

/-- The empty graph after versions were added to it. -/
def filled (vs : List Version) : VersionGraph := ((insertAll vs).run empty).2

/-- What becomes of a version that is added: the answer, and the graph after it. -/
inductive Inserted (g : VersionGraph) (v : Version) : Except GraphError Nat → VersionGraph → Prop where
  /-- Another version has the name. -/
  | taken {w : Version} (found : w ∈ g.versions) (same : w.id = v.id) : Inserted g v (.error (.duplicateId v.id)) g
  /-- The name is free, and the first parent that is not in the graph is named. -/
  | unknown {known others : List Nat} {p : Nat} (free : ∀ w ∈ g.versions, w.id ≠ v.id)
    (split : v.parents = known ++ p :: others) (before : ∀ q ∈ known, q < g.size) (missing : g.size ≤ p) :
    Inserted g v (.error (.unknownNode p)) g
  /-- The version comes behind all others. -/
  | added {h : VersionGraph} (free : ∀ w ∈ g.versions, w.id ≠ v.id) (known : ∀ p ∈ v.parents, p < g.size)
    (behind : h.versions = g.versions.push v) : Inserted g v (.ok g.size) h

variable {g h : VersionGraph} {v w : Version} {vs ws : List Version} {i : Nat} {answer : Except GraphError Nat}

/-! ## One version -/

/-- Entering a version piece by piece comes to adding it at once. -/
theorem run_insert (g : VersionGraph) (v : Version) :
    (insert v).run g = ((g.add v).map fun _ => g.size, g.offer v) := by
  have looked : (get : StateM VersionGraph VersionGraph).run g = (g, g) := rfl
  rw [insert, StateT.run_bind, looked, offer, add]
  show StateT.run (ite _ _ _) g = _
  split
  · rfl
  · cases v.parents.find? (fun p => g.size ≤ p) with
    | some p => rfl
    | none => rfl

/-- In a well-formed graph a name is found exactly if a version has it. -/
theorem WellFormed.find?_isSome_iff (hg : g.WellFormed) (id : String) :
    (g.find? id).isSome ↔ ∃ w ∈ g.versions, w.id = id := by
  rw [Option.isSome_iff_exists]
  constructor
  · rintro ⟨i, found⟩
    obtain ⟨w, at_i, same⟩ := Option.map_eq_some_iff.1 (hg.find?_iff.1 found)
    exact ⟨w, Array.mem_of_getElem? at_i, same⟩
  · rintro ⟨w, member, same⟩
    obtain ⟨i, at_i⟩ := Array.getElem?_of_mem member
    exact ⟨i, hg.find?_iff.2 (by rw [at_i, Option.map_some, same])⟩

theorem WellFormed.inserted (hg : g.WellFormed) (v : Version) :
    Inserted g v ((insert v).run g).1 ((insert v).run g).2 := by
  rw [run_insert, VersionGraph.offer, VersionGraph.add]
  by_cases taken : (g.find? v.id).isSome
  · rw [if_pos taken]
    obtain ⟨w, found, same⟩ := (hg.find?_isSome_iff v.id).1 taken
    exact .taken found same
  · rw [if_neg taken]
    have free : ∀ w ∈ g.versions, w.id ≠ v.id := fun w found same =>
      taken ((hg.find?_isSome_iff v.id).2 ⟨w, found, same⟩)
    cases refused : v.parents.find? (fun p => g.size ≤ p) with
    | some p =>
      obtain ⟨missing, known, others, split, before⟩ := List.find?_eq_some_iff_append.1 refused
      exact .unknown free split (fun q hq => by simpa using before q hq) (by simpa using missing)
    | none => exact .added free (fun p hp => by simpa using List.find?_eq_none.1 refused p hp) rfl

/-- A version stays where it is. -/
theorem Inserted.keeps (inserted : Inserted g v answer h) (at_i : g.versions[i]? = some w) :
    h.versions[i]? = some w := by
  cases inserted with
  | taken => exact at_i
  | unknown => exact at_i
  | added _ _ behind =>
    obtain ⟨inside, -⟩ := Array.getElem?_eq_some_iff.1 at_i
    rw [behind, Array.getElem?_push, if_neg (Nat.ne_of_lt inside), at_i]

/-! ## Versions one after the other -/

theorem run_insertAll_append (vs ws : List Version) (g : VersionGraph) :
    (insertAll (vs ++ ws)).run g =
      (((insertAll vs).run g).1 ++ ((insertAll ws).run ((insertAll vs).run g).2).1,
        ((insertAll ws).run ((insertAll vs).run g).2).2) := by
  rw [insertAll, List.mapM_append]
  rfl

theorem run_insertAll_cons (v : Version) (vs : List Version) (g : VersionGraph) :
    (insertAll (v :: vs)).run g =
      (((insert v).run g).1 :: ((insertAll vs).run ((insert v).run g).2).1,
        ((insertAll vs).run ((insert v).run g).2).2) := by
  rw [insertAll, List.mapM_cons]
  rfl

theorem length_insertAll (vs : List Version) (g : VersionGraph) : ((insertAll vs).run g).1.length = vs.length := by
  induction vs generalizing g with
  | nil => rfl
  | cons v vs ih => rw [run_insertAll_cons, List.length_cons, ih, List.length_cons]

theorem run_insertAll_snd (vs : List Version) (g : VersionGraph) : ((insertAll vs).run g).2 = vs.foldl offer g := by
  induction vs generalizing g with
  | nil => rfl
  | cons v vs ih => rw [run_insertAll_cons, ih, run_insert, List.foldl_cons]

theorem filled_eq (vs : List Version) : filled vs = ofVersions vs := run_insertAll_snd vs empty

theorem wellFormed_filled (vs : List Version) : (filled vs).WellFormed := filled_eq vs ▸ wellFormed_ofVersions vs

theorem filled_concat (vs : List Version) (v : Version) : filled (vs ++ [v]) = ((insert v).run (filled vs)).2 := by
  rw [filled, run_insertAll_append, run_insertAll_cons]
  rfl

/-- What was added to a graph is still there when more versions have been. -/
theorem keeps_filled (vs ws : List Version) (at_i : (filled vs).versions[i]? = some w) :
    (filled (vs ++ ws)).versions[i]? = some w := by
  induction ws generalizing vs with
  | nil => rwa [List.append_nil]
  | cons v ws ih =>
    rw [← List.singleton_append, ← List.append_assoc]
    refine ih (vs ++ [v]) ?_
    rw [filled_concat]
    exact ((wellFormed_filled vs).inserted v).keeps at_i

theorem answers_getElem? (done todo : List Version) (v : Version) :
    (answers (done ++ v :: todo))[done.length]? = some ((insert v).run (filled done)).1 := by
  rw [answers, run_insertAll_append, run_insertAll_cons]
  change (((insertAll done).run empty).1 ++ _ :: _)[done.length]? = _
  rw [List.getElem?_append_right (Nat.le_of_eq (length_insertAll done empty)), length_insertAll, Nat.sub_self]
  rfl

/-- However many versions are added to a graph, and whichever of them are refused: names and indices belong to each
other one to one, parents come before their children and no way along them leads back, each call does what `Inserted`
says, and what was added stays where it is. -/
theorem insertAll_wellFormed (vs : List Version) :
    (∀ id i, (filled vs).find? id = some i ↔ (filled vs).versions[i]?.map Version.id = some id)
      ∧ (∀ i < (filled vs).size, ∃! id, (filled vs).find? id = some i)
      ∧ (∀ i p, p ∈ (filled vs).parents i → p < i)
      ∧ (∀ i n, (filled vs).Path i i n → n = 0)
      ∧ ∀ done v todo, vs = done ++ v :: todo →
          ∃ answer, (answers vs)[done.length]? = some answer
            ∧ Inserted (filled done) v answer (filled (done ++ [v]))
            ∧ ∀ i w, (filled (done ++ [v])).versions[i]? = some w →
                (filled vs).versions[i]? = some w ∧ (filled vs).find? w.id = some i := by
  have hg := wellFormed_filled vs
  refine ⟨fun id i => hg.find?_iff, fun i inside => ?_, fun i p => hg.parents_lt, fun i n path => ?_, ?_⟩
  · refine ⟨(filled vs).versions[i].id, ?_, fun id found => ?_⟩
    · exact hg.find?_iff.2 (by simp [Array.getElem?_eq_getElem inside])
    · have named := hg.find?_iff.1 found
      rw [Array.getElem?_eq_getElem inside] at named
      exact (Option.some.inj named).symm
  · have := hg.add_le path
    omega
  · rintro done v todo rfl
    refine ⟨_, answers_getElem? done todo v, ?_, fun i w at_i => ?_⟩
    · rw [filled_concat]
      exact (wellFormed_filled done).inserted v
    · have kept := keeps_filled (done ++ [v]) todo at_i
      rw [List.append_assoc, List.singleton_append] at kept
      exact ⟨kept, hg.find?_iff.2 (by rw [kept, Option.map_some])⟩

end SqlDialects.VersionGraph
