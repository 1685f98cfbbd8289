import SqlDialects.Proofs.Query.Equality
import SqlDialects.Render.Hoisting
import Mathlib.Data.List.Induction
import Mathlib.Data.List.Pairwise

/-!
# Emitting common tables

Hoisting emits common tables one after the other. Of every name it keeps the first (`Hoisting.firsts`), and
it refuses a table that differs from the one kept under its name. So a list can be emitted exactly if any two
tables of one name in it are equal (`Hoisting.acceptsAll_nil_iff`). That structural equality is symmetric and
transitive is all that this needs.
-/

set_option autoImplicit false

namespace SqlDialects

/-- Two common tables that can stand in one `WITH` clause: if they have one name, they are equal. -/
def CommonTable.Agrees (t u : CommonTable) : Prop := t.name = u.name → (t == u) = true

instance : Std.Symm CommonTable.Agrees := ⟨fun _ _ h hn => BEq.symm (h hn.symm)⟩

/-- A common table that stands for another: the same one or one equal to it. They are not the same notion
where a table holds a NaN, which makes it differ from itself. -/
def CommonTable.Matches (e t : CommonTable) : Prop := e = t ∨ (e == t) = true

namespace Hoisting

/-! ## The tables to write -/

/-- A common table behind others, unless its name is among them. -/
def add (ts : List CommonTable) (t : CommonTable) : List CommonTable :=
  if ts.any (fun t' => t'.name == t.name) then ts else ts ++ [t]

/-- The first common table of every name. -/
def firsts (ts : List CommonTable) : List CommonTable := ts.foldl add []

/-- Whether a common table can be emitted behind others. -/
def Accepts (ts : List CommonTable) (t : CommonTable) : Prop :=
  ∀ t', ts.find? (fun t' => t'.name == t.name) = some t' → (t' == t) = true

/-- Whether common tables can be emitted one after the other. -/
def AcceptsAll : List CommonTable → List CommonTable → Prop
  | _, [] => True
  | ts, t :: us => Accepts ts t ∧ AcceptsAll (add ts t) us

theorem find?_add (ts : List CommonTable) (t : CommonTable) (name : String) :
    (add ts t).find? (fun t' => t'.name == name)
      = (ts.find? fun t' => t'.name == name).or (if t.name == name then some t else none) := by
  unfold add
  split
  · next h =>
    by_cases hn : t.name = name
    · subst hn
      -- A table of this name stands before, and it is the one that is found.
      cases hf : ts.find? fun t' => t'.name == t.name with
      | some t' => rfl
      | none =>
        obtain ⟨t', ht', hname⟩ := List.any_eq_true.1 h
        exact absurd hname (List.find?_eq_none.1 hf t' ht')
    · simp [beq_false_of_ne hn]
  · rw [List.find?_append, List.find?_singleton]

theorem emit_eq_ok {d : Dialect} {h h' : Hoisting} {t : CommonTable} :
    h.emit d t = .ok h' ↔ Accepts h.tables t ∧ h' = { h with tables := add h.tables t } := by
  unfold emit Accepts add
  cases hf : h.tables.find? fun t' => t'.name == t.name with
  | none =>
    have ha : h.tables.any (fun t' => t'.name == t.name) = false := by
      rw [List.any_eq_false]
      exact List.find?_eq_none.1 hf
    simp only [ha, Bool.false_eq_true, if_false, Except.ok.injEq, reduceCtorEq, false_implies,
      implies_true, true_and]
    exact eq_comm
  | some t' =>
    have hn := List.find?_some hf
    have ha : h.tables.any (fun t' => t'.name == t.name) = true :=
      List.any_eq_true.2 ⟨t', List.mem_of_find?_eq_some hf, hn⟩
    by_cases he : (t' == t) = true
    · simp only [ha, he, if_true, Except.ok.injEq, Option.some.injEq, forall_eq', true_and]
      exact eq_comm
    · simp [he]

theorem acceptsAll_append (ts us vs : List CommonTable) :
    AcceptsAll ts (us ++ vs) ↔ AcceptsAll ts us ∧ AcceptsAll (us.foldl add ts) vs := by
  induction us generalizing ts with
  | nil => simp [AcceptsAll]
  | cons u us ih =>
    simp only [List.cons_append, AcceptsAll, List.foldl_cons, ih, and_assoc]

/-- What is accepted behind a table is what is accepted without it and agrees with it. -/
theorem accepts_add {ts : List CommonTable} {u : CommonTable} (hu : Accepts ts u) (v : CommonTable) :
    Accepts (add ts u) v ↔ Accepts ts v ∧ u.Agrees v := by
  unfold Accepts
  rw [find?_add]
  cases hf : ts.find? fun t' => t'.name == v.name with
  | some t' =>
    rw [Option.some_or]
    refine ⟨?_, fun h => h.1⟩
    intro h
    refine ⟨h, ?_⟩
    intro hn
    -- The table kept under the name equals both, so they equal each other.
    have hut : (t' == u) = true := hu t' (by rw [hn]; exact hf)
    exact BEq.trans (BEq.symm hut) (h t' rfl)
  | none =>
    rw [Option.none_or]
    by_cases hn : u.name = v.name
    · simp [CommonTable.Agrees, hn]
    · simp [CommonTable.Agrees, hn]

/-- Common tables can be emitted exactly if they agree with those before and with each other. -/
theorem acceptsAll_iff (ts us : List CommonTable) :
    AcceptsAll ts us ↔ (∀ u ∈ us, Accepts ts u) ∧ us.Pairwise CommonTable.Agrees := by
  induction us generalizing ts with
  | nil => simp [AcceptsAll]
  | cons u us ih =>
    rw [AcceptsAll, ih, List.pairwise_cons]
    refine ⟨?_, ?_⟩
    · rintro ⟨hu, hus, hp⟩
      refine ⟨?_, ?_, hp⟩
      · intro v hv
        rcases List.mem_cons.1 hv with rfl | hv
        · exact hu
        · exact ((accepts_add hu v).1 (hus v hv)).1
      · intro v hv
        exact ((accepts_add hu v).1 (hus v hv)).2
    · rintro ⟨hus, hu, hp⟩
      have hu' : Accepts ts u := hus u (by simp)
      refine ⟨hu', ?_, hp⟩
      intro v hv
      exact (accepts_add hu' v).2 ⟨hus v (by simp [hv]), hu v hv⟩

theorem acceptsAll_nil_iff (us : List CommonTable) :
    AcceptsAll [] us ↔ us.Pairwise CommonTable.Agrees := by
  rw [acceptsAll_iff]
  refine ⟨fun h => h.2, fun h => ⟨?_, h⟩⟩
  intro u _ t' hf
  simp at hf

/-! ## First tables -/

theorem firsts_snoc (ts : List CommonTable) (t : CommonTable) :
    firsts (ts ++ [t]) = add (firsts ts) t := by
  rw [firsts, List.foldl_append]
  rfl

theorem find?_firsts (ts : List CommonTable) (name : String) :
    (firsts ts).find? (fun t => t.name == name) = ts.find? fun t => t.name == name := by
  induction ts using List.reverseRecOn with
  | nil => rfl
  | append_singleton ts t ih =>
    rw [firsts_snoc, find?_add, ih, List.find?_append, List.find?_singleton]

theorem nodup_firsts (ts : List CommonTable) : ((firsts ts).map CommonTable.name).Nodup := by
  induction ts using List.reverseRecOn with
  | nil => exact List.nodup_nil
  | append_singleton ts t ih =>
    rw [firsts_snoc, add]
    split
    · exact ih
    · next h =>
      rw [List.map_append, List.nodup_append]
      refine ⟨ih, by simp, ?_⟩
      intro a ha b hb hab
      obtain ⟨t', ht', rfl⟩ := List.mem_map.1 ha
      have hb' : b = t.name := by simpa using hb
      refine h (List.any_eq_true.2 ⟨t', ht', ?_⟩)
      rw [hab, hb']
      exact beq_self_eq_true _

/-- A first table is first among the tables up to some point, and those before it are the first ones of the
tables before it. -/
theorem firsts_split {ts before after : List CommonTable} {t : CommonTable}
    (h : firsts ts = before ++ t :: after) :
    ∃ pre post, ts = pre ++ t :: post ∧ firsts pre = before := by
  induction ts using List.reverseRecOn generalizing after with
  | nil => simp [firsts] at h
  | append_singleton ts u ih =>
    rw [firsts_snoc, add] at h
    split at h
    · -- The last table is dropped, so the split is among the others.
      obtain ⟨pre, post, hs, hb⟩ := ih h
      exact ⟨pre, post ++ [u], by simp [hs], hb⟩
    · have here : firsts ts = before → u = t → ∃ pre post, ts ++ [u] = pre ++ t :: post ∧ firsts pre = before :=
        fun hf hu => ⟨ts, [], by rw [hu], hf⟩
      -- It is kept, so the split is at it or among the others.
      rcases List.append_eq_append_iff.1 h with ⟨ms, hm, hu⟩ | ⟨ms, hm, hu⟩
      · cases ms with
        | nil =>
          injection hu with hu _
          exact here (by simpa using hm.symm) hu
        | cons x ms => simp at hu
      · cases ms with
        | nil =>
          injection hu with hu _
          exact here (by simpa using hm) hu.symm
        | cons x ms =>
          injection hu with hx hu
          subst hx
          obtain ⟨pre, post, hs, hb⟩ := ih hm
          exact ⟨pre, post ++ [u], by simp [hs], hb⟩

theorem mem_of_mem_firsts {ts : List CommonTable} {t : CommonTable} (h : t ∈ firsts ts) : t ∈ ts := by
  obtain ⟨before, after, hs⟩ := List.append_of_mem h
  obtain ⟨pre, post, rfl, _⟩ := firsts_split hs
  simp

/-- Every table has one that stands for it among the first ones. -/
theorem exists_mem_firsts {ts : List CommonTable} (hp : ts.Pairwise CommonTable.Agrees) {t : CommonTable}
    (ht : t ∈ ts) : ∃ e ∈ firsts ts, e.name = t.name ∧ e.Matches t := by
  have hsome : (ts.find? fun t' => t'.name == t.name).isSome := by
    rw [List.find?_isSome]
    exact ⟨t, ht, beq_self_eq_true _⟩
  obtain ⟨e, he⟩ := Option.isSome_iff_exists.1 hsome
  have hn : e.name = t.name := by simpa using List.find?_some he
  have hm : e ∈ ts := List.mem_of_find?_eq_some he
  refine ⟨e, List.mem_of_find?_eq_some (by rw [find?_firsts]; exact he), hn, ?_⟩
  -- That any two agree says nothing about a table and itself.
  by_cases het : e = t
  · exact .inl het
  · exact .inr (hp.forall hm ht het hn)

end Hoisting

end SqlDialects
