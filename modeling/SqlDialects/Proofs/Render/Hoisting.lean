import SqlDialects.Proofs.Query.CommonTables
import SqlDialects.Proofs.Render.Emission
import SqlDialects.Proofs.Scope

/-!
# What hoisting collects

The walk that collects common tables emits them in the order of `Node.emitted`. It fails if a `WITH` clause
declares a name twice or if two common tables of one name differ, and in no other case.

The proof follows the walk with the levels that its scopes stand for. What a part of the tree needs in order
not to fail is `Hoisting.Conditions`, and what it does to the state of the walk is `Hoisting.Outcome`; both are
put together from those of the children. A table that is visible when another of its name is declared is
emitted too, later if not before, so the check against the visible tables refuses nothing that emitting would
accept.
-/

set_option autoImplicit false

namespace SqlDialects

theorem Except.bind_eq_ok {ε α β : Type} {x : Except ε α} {f : α → Except ε β} {b : β} :
    (x >>= f) = .ok b ↔ ∃ a, x = .ok a ∧ f a = .ok b := by
  cases x <;> simp [bind, Except.bind]

theorem Except.bind_eq_error {ε α β : Type} {x : Except ε α} {f : α → Except ε β} {e : ε} :
    (x >>= f) = .error e ↔ x = .error e ∨ ∃ a, x = .ok a ∧ f a = .error e := by
  cases x <;> simp [bind, Except.bind]

namespace Hoisting

/-- The levels of a walk. -/
abbrev Levels := List (List (String × CommonTable))

/-- Levels with common tables declared at the innermost one. -/
def declareAll : Levels → List CommonTable → Levels
  | [], _ => []
  | level :: rest, ts => (ts.reverse.map (fun t => (t.name, t)) ++ level) :: rest

/-- Whether common tables can be declared at the innermost level: their names are distinct and new there. -/
def Fresh : Levels → List CommonTable → Prop
  | [], _ => True
  | level :: _, ts => (ts.map CommonTable.name).Nodup ∧ ∀ t ∈ ts, level.lookup t.name = none

theorem declareAll_nil (levels : Levels) : declareAll levels [] = levels := by
  cases levels <;> rfl

theorem declareAll_append (levels : Levels) (ts us : List CommonTable) :
    declareAll levels (ts ++ us) = declareAll (declareAll levels ts) us := by
  cases levels with
  | nil => rfl
  | cons level rest => simp [declareAll]

theorem fresh_nil (levels : Levels) : Fresh levels [] := by
  cases levels <;> simp [Fresh]

theorem lookup_declared (ts : List CommonTable) (level : List (String × CommonTable)) (name : String) :
    (ts.reverse.map (fun t => (t.name, t)) ++ level).lookup name = none
      ↔ name ∉ ts.map CommonTable.name ∧ level.lookup name = none := by
  rw [List.lookup_append, Option.or_eq_none_iff, List.lookup_eq_none_iff]
  refine and_congr_left fun _ => ⟨?_, ?_⟩
  · intro h hm
    -- A table of the name would be in the reversed list as well.
    obtain ⟨t, ht, hn⟩ := List.mem_map.1 hm
    have hne := h (t.name, t) (List.mem_map.2 ⟨t, List.mem_reverse.2 ht, rfl⟩)
    exact bne_iff_ne.1 hne hn.symm
  · intro h p hp
    obtain ⟨t, ht, rfl⟩ := List.mem_map.1 hp
    have hm : t.name ∈ ts.map CommonTable.name := List.mem_map_of_mem (List.mem_reverse.1 ht)
    exact bne_iff_ne.2 fun hn => h (hn ▸ hm)

theorem fresh_append (levels : Levels) (ts us : List CommonTable) :
    Fresh levels (ts ++ us) ↔ Fresh levels ts ∧ Fresh (declareAll levels ts) us := by
  cases levels with
  | nil => simp [Fresh, declareAll]
  | cons level rest =>
    simp only [Fresh, declareAll, List.map_append, List.nodup_append, List.mem_append, lookup_declared]
    -- The names of `us` have to be new at the level and to differ from those of `ts`, which is the same as
    -- being new at the level on which `ts` are declared.
    refine ⟨?_, ?_⟩
    · rintro ⟨⟨ht, hu, hne⟩, hl⟩
      refine ⟨⟨ht, fun t h => hl t (.inl h)⟩, hu, fun u h => ⟨?_, hl u (.inr h)⟩⟩
      intro hm
      exact hne _ hm _ (List.mem_map_of_mem h) rfl
    · rintro ⟨⟨ht, hlt⟩, hu, hlu⟩
      refine ⟨⟨ht, hu, ?_⟩, ?_⟩
      · intro a ha b hb hab
        obtain ⟨u, hu', rfl⟩ := List.mem_map.1 hb
        exact (hlu u hu').1 (hab ▸ ha)
      · rintro t (h | h)
        · exact hlt t h
        · exact (hlu t h).2

/-- What the parts of a tree need in order not to fail: the `WITH` clauses in them, the common tables that
they are themselves and those that they emit. -/
structure Conditions (levels : Levels) (tables : List CommonTable) (ws : List With)
    (own emitted : List CommonTable) : Prop where
  distinct : ∀ w ∈ ws, (w.tables.map CommonTable.name).Nodup
  accepted : AcceptsAll tables emitted
  fresh : Fresh levels own

/-- What they do to the state of a walk. -/
structure Outcome (levels : Levels) (h h' : Hoisting) (ws : List With) (own emitted : List CommonTable) :
    Prop where
  scopes : h'.scopes.Represents (declareAll levels own)
  tables : h'.tables = emitted.foldl add h.tables
  recursive : h'.recursive = (h.recursive || ws.any With.recursive)

theorem conditions_append (levels : Levels) (tables : List CommonTable) (ws ws' : List With)
    (own own' emitted emitted' : List CommonTable) :
    Conditions levels tables (ws ++ ws') (own ++ own') (emitted ++ emitted')
      ↔ Conditions levels tables ws own emitted
        ∧ Conditions (declareAll levels own) (emitted.foldl add tables) ws' own' emitted' := by
  refine ⟨?_, ?_⟩
  · rintro ⟨hd, ha, hf⟩
    obtain ⟨ha, ha'⟩ := (acceptsAll_append _ _ _).1 ha
    obtain ⟨hf, hf'⟩ := (fresh_append _ _ _).1 hf
    exact ⟨⟨fun w hw => hd w (by simp [hw]), ha, hf⟩, ⟨fun w hw => hd w (by simp [hw]), ha', hf'⟩⟩
  · rintro ⟨⟨hd, ha, hf⟩, ⟨hd', ha', hf'⟩⟩
    refine ⟨?_, (acceptsAll_append _ _ _).2 ⟨ha, ha'⟩, (fresh_append _ _ _).2 ⟨hf, hf'⟩⟩
    intro w hw
    rcases List.mem_append.1 hw with hw | hw
    · exact hd w hw
    · exact hd' w hw

theorem Outcome.append {levels : Levels} {h h₁ h₂ : Hoisting} {ws ws' : List With}
    {own own' emitted emitted' : List CommonTable} (ho : Outcome levels h h₁ ws own emitted)
    (ho' : Outcome (declareAll levels own) h₁ h₂ ws' own' emitted') :
    Outcome levels h h₂ (ws ++ ws') (own ++ own') (emitted ++ emitted') := by
  refine ⟨?_, ?_, ?_⟩
  · rw [declareAll_append]
    exact ho'.scopes
  · rw [ho'.tables, ho.tables, List.foldl_append]
  · rw [ho'.recursive, ho.recursive, List.any_append, Bool.or_assoc]

/-! ## The walk -/

/-- The walk over nodes one after the other. -/
def collectAll (d : Dialect) (cs : List Node) (h : Hoisting) : Except RenderError Hoisting :=
  cs.foldlM (fun h c => c.collect d h) h

theorem collect_eq (d : Dialect) (n : Node) (h : Hoisting) :
    n.collect d h = h.enter d n >>= collectAll d n.children >>= fun h => h.leave d n := by
  rw [Node.collect, bind_assoc]
  congr
  funext h
  congr 1
  rw [List.foldlM_subtype (g := fun h c => c.collect d h) fun _ _ _ => rfl, List.unattach_attach]
  rfl

theorem collect_eq_ok {d : Dialect} {n : Node} {h h' : Hoisting} :
    n.collect d h = .ok h' ↔ ∃ h₁ h₂, h.enter d n = .ok h₁ ∧ collectAll d n.children h₁ = .ok h₂ ∧
      h₂.leave d n = .ok h' := by
  rw [collect_eq, Except.bind_eq_ok]
  refine ⟨?_, ?_⟩
  · rintro ⟨h₂, hc, hl⟩
    obtain ⟨h₁, he, hc⟩ := Except.bind_eq_ok.1 hc
    exact ⟨h₁, h₂, he, hc, hl⟩
  · rintro ⟨h₁, h₂, he, hc, hl⟩
    exact ⟨h₂, Except.bind_eq_ok.2 ⟨h₁, he, hc⟩, hl⟩

theorem collectAll_cons {d : Dialect} {c : Node} {cs : List Node} {h h' : Hoisting} :
    collectAll d (c :: cs) h = .ok h' ↔
      ∃ h₁, c.collect d h = .ok h₁ ∧ collectAll d cs h₁ = .ok h' := by
  rw [collectAll, List.foldlM_cons, Except.bind_eq_ok]
  rfl

/-- A declaration is refused if the name is taken at the level or stands for a different table outside. -/
theorem declare_eq_ok {d : Dialect} {h h' : Hoisting} {t : CommonTable} {levels : Levels}
    (hr : h.scopes.Represents levels) :
    h.declare d t = .ok h' ↔ Fresh levels [t]
      ∧ (∀ t', levels.findSome? (List.lookup t.name) = some t' → (t' == t) = true)
      ∧ h' = { h with scopes := h.scopes.set t.name t } := by
  have hc : (h.scopes.getCurrent? t.name).isSome = false ↔ Fresh levels [t] := by
    cases levels with
    | nil => simp [hr.getCurrent?_nil, Fresh]
    | cons level rest => simp [hr.getCurrent?, Fresh]
  unfold declare
  rw [hr.get?, ← hc]
  cases (h.scopes.getCurrent? t.name).isSome with
  | true => simp
  | false =>
    cases levels.findSome? (List.lookup t.name) with
    | none =>
      simp only [Bool.false_eq_true, if_false, Option.any_none, Except.ok.injEq, reduceCtorEq,
        false_implies, implies_true, true_and]
      exact eq_comm
    | some t' =>
      by_cases he : (t' == t) = true
      · have hne : (t' != t) = false := by simp [bne, he]
        simp only [Bool.false_eq_true, if_false, Option.any_some, hne, Except.ok.injEq, Option.some.injEq,
          forall_eq', he, true_and]
        exact eq_comm
      · have hne : (t' != t) = true := by simp [bne, he]
        simp [hne, he]

/-- Declaring a common table declares it at the innermost level, if there is one. -/
theorem represents_declare {s : ScopeStack String CommonTable} {levels : Levels} (h : s.Represents levels)
    (t : CommonTable) : (s.set t.name t).Represents (declareAll levels [t]) := by
  cases levels with
  | nil =>
    have hd : s.depth = 0 := h.depth_eq
    have hs : s.set t.name t = s := by
      rw [ScopeStack.set, ScopeStack.level?, hd]
    rw [hs]
    exact h
  | cons level rest => exact h.set t.name t

/-! ## A walk that succeeds -/

/-- What a walk from one state to another says about the parts that it went over. -/
def Walked (levels : Levels) (h h' : Hoisting) (ws : List With) (own emitted : List CommonTable) : Prop :=
  Conditions levels h.tables ws own emitted ∧ Outcome levels h h' ws own emitted

theorem Walked.append {levels : Levels} {h h₁ h₂ : Hoisting} {ws ws' : List With}
    {own own' emitted emitted' : List CommonTable} (hw : Walked levels h h₁ ws own emitted)
    (hw' : Walked (declareAll levels own) h₁ h₂ ws' own' emitted') :
    Walked levels h h₂ (ws ++ ws') (own ++ own') (emitted ++ emitted') := by
  obtain ⟨hc', ho'⟩ := hw'
  rw [hw.2.tables] at hc'
  exact ⟨(conditions_append _ _ _ _ _ _ _ _).2 ⟨hw.1, hc'⟩, hw.2.append ho'⟩

/-- A walk over a node says what `Walked` says about the node. -/
def Sound (d : Dialect) (n : Node) : Prop :=
  ∀ ⦃h h' levels⦄, h.scopes.Represents levels → n.collect d h = .ok h' →
    Walked levels h h' n.withClauses n.ownTable n.emitted

theorem walked_all {d : Dialect} {cs : List Node} (sound : ∀ c ∈ cs, Sound d c) {h h' : Hoisting}
    {levels : Levels} (hr : h.scopes.Represents levels) (hk : collectAll d cs h = .ok h') :
    Walked levels h h' (cs.flatMap Node.withClauses) (cs.flatMap Node.ownTable)
      (cs.flatMap Node.emitted) := by
  induction cs generalizing h levels with
  | nil =>
    cases hk
    refine ⟨⟨by simp, trivial, fresh_nil levels⟩, ⟨?_, rfl, by simp⟩⟩
    rw [List.flatMap_nil, declareAll_nil]
    exact hr
  | cons c cs ih =>
    obtain ⟨h₁, hc, hk⟩ := collectAll_cons.1 hk
    have hw := sound c (by simp) hr hc
    have hws := ih (fun c' hc' => sound c' (by simp [hc'])) hw.2.scopes hk
    simp only [List.flatMap_cons]
    exact hw.append hws

theorem Sound.select {d : Dialect} {s : Select} (sound : ∀ c ∈ (Node.select s).children, Sound d c) :
    Sound d (.select s) := by
  intro h h' levels hr hk
  obtain ⟨h₁, h₂, he, hc, hl⟩ := collect_eq_ok.1 hk
  cases he
  cases hl
  obtain ⟨⟨hd, ha, hf⟩, hs, ht, hrec⟩ := walked_all sound hr.start hc
  rw [Node.flatMap_ownTable_children] at hf
  have hown : (Node.select s).ownTable = [] := rfl
  rw [Node.withClauses_eq, Node.emitted_eq, hown, List.append_nil]
  refine ⟨⟨?_, ha, fresh_nil levels⟩, ?_, ht, ?_⟩
  · intro w hw
    rcases List.mem_append.1 hw with hw | hw
    · -- The names of the select's own clause are those of the level it opens.
      have hws : s.withClause = some w := by simpa [Node.ownWith] using hw
      have hn := hf.1
      simp only [Node.ownWith, hws, Option.toList_some, List.flatMap_singleton] at hn
      exact hn
    · exact hd w hw
  · rw [declareAll_nil]
    exact hs.finish
  · rw [List.any_append, ← Bool.or_assoc]
    refine hrec.trans ?_
    show ((h.recursive || s.withClause.any With.recursive) || _)
      = ((h.recursive || s.withClause.toList.any With.recursive) || _)
    cases s.withClause <;> simp

theorem Sound.commonTable {d : Dialect} {t : CommonTable} (sound : Sound d (.select t.select)) :
    Sound d (.commonTable t) := by
  intro h h' levels hr hk
  obtain ⟨h₁, h₂, he, hc, hl⟩ := collect_eq_ok.1 hk
  -- On the way in the table is declared, on the way out it is emitted, and its body is between.
  obtain ⟨hf, _, rfl⟩ := (declare_eq_ok hr).1 he
  obtain ⟨hacc, rfl⟩ := emit_eq_ok.1 hl
  have hc' : (Node.select t.select).collect d { h with scopes := h.scopes.set t.name t } = .ok h₂ := by
    obtain ⟨h₃, hc, hn⟩ := collectAll_cons.1 hc
    cases hn
    exact hc
  obtain ⟨⟨hd, ha, _⟩, hs, ht, hrec⟩ := sound (represents_declare hr t) hc'
  rw [Node.emitted_commonTable]
  refine ⟨⟨hd, ?_, hf⟩, ?_, ?_, hrec⟩
  · rw [acceptsAll_append]
    rw [ht] at hacc
    exact ⟨ha, hacc, trivial⟩
  · have hown : (Node.select t.select).ownTable = [] := rfl
    rw [hown, declareAll_nil] at hs
    exact hs
  · show add h₂.tables t = _
    rw [ht, List.foldl_append]
    rfl

/-- A node that is neither a select nor a common table is walked over as its children are. -/
theorem Sound.plain {d : Dialect} {n : Node} (sound : ∀ c ∈ n.children, Sound d c)
    (hw : n.ownWith = []) (ho : n.ownTable = []) (he : ∀ h : Hoisting, h.enter d n = .ok h)
    (hl : ∀ h : Hoisting, h.leave d n = .ok h) : Sound d n := by
  intro h h' levels hr hk
  obtain ⟨h₁, h₂, hk₁, hc, hk₂⟩ := collect_eq_ok.1 hk
  rw [he] at hk₁
  rw [hl] at hk₂
  cases hk₁
  cases hk₂
  have hall := walked_all sound hr hc
  rw [Node.flatMap_ownTable_children, hw] at hall
  rw [Node.withClauses_eq, Node.emitted_eq, hw, ho, List.nil_append, List.append_nil]
  exact hall

theorem sound (d : Dialect) (n : Node) : Sound d n := by
  induction n using Node.induction with
  | step n ih =>
    cases n with
    | select s => exact .select ih
    | commonTable t => exact .commonTable (ih _ (by simp [Node.children]))
    | _ => exact .plain ih rfl rfl (fun _ => rfl) fun _ => rfl

/-! ## A walk that does not fail -/

/-- Common tables that agree with those visible under their names. -/
def Compatible (levels : Levels) (ts : List CommonTable) : Prop :=
  ∀ t ∈ ts, ∀ t', levels.findSome? (List.lookup t.name) = some t' → (t' == t) = true

theorem Compatible.declareAll {levels : Levels} {own ts : List CommonTable} (h : Compatible levels ts)
    (hown : ∀ u ∈ own, ∀ t ∈ ts, u.Agrees t) : Compatible (declareAll levels own) ts := by
  cases levels with
  | nil => exact h
  | cons level rest =>
    intro t ht t' hf
    have hl := h t ht t'
    rw [List.findSome?_cons] at hl
    rw [Hoisting.declareAll, List.findSome?_cons, List.lookup_append] at hf
    -- A table declared at this level hides those of its name outside.
    cases hm : (own.reverse.map fun u => (u.name, u)).lookup t.name with
    | none =>
      rw [hm, Option.none_or] at hf
      exact hl hf
    | some u =>
      rw [hm, Option.some_or] at hf
      obtain ⟨l₁, l₂, hs, _⟩ := List.lookup_eq_some_iff.1 hm
      have hu : (t.name, u) ∈ own.reverse.map fun u => (u.name, u) := by simp [hs]
      obtain ⟨v, hv, he⟩ := List.mem_map.1 hu
      injection he with hn hvu
      subst hvu
      injection hf with hvt
      subst hvt
      exact hown v (List.mem_reverse.1 hv) t ht hn

/-- A walk over a node succeeds where the conditions hold. -/
def Complete (d : Dialect) (n : Node) : Prop :=
  ∀ ⦃h levels⦄, h.scopes.Represents levels →
    Conditions levels h.tables n.withClauses n.ownTable n.emitted → Compatible levels n.emitted →
    ∃ h', n.collect d h = .ok h'

theorem Conditions.agree {levels : Levels} {tables : List CommonTable} {ws : List With}
    {own ts us : List CommonTable} (h : Conditions levels tables ws own (ts ++ us)) :
    ∀ t ∈ ts, ∀ u ∈ us, t.Agrees u := by
  have hp := ((acceptsAll_iff _ _).1 h.accepted).2
  exact (List.pairwise_append.1 hp).2.2

theorem walk_all {d : Dialect} {cs : List Node} (complete : ∀ c ∈ cs, Complete d c) {h : Hoisting}
    {levels : Levels} (hr : h.scopes.Represents levels)
    (hc : Conditions levels h.tables (cs.flatMap Node.withClauses) (cs.flatMap Node.ownTable)
      (cs.flatMap Node.emitted)) (hv : Compatible levels (cs.flatMap Node.emitted)) :
    ∃ h', collectAll d cs h = .ok h' := by
  induction cs generalizing h levels with
  | nil => exact ⟨h, rfl⟩
  | cons c cs ih =>
    simp only [List.flatMap_cons] at hc hv
    obtain ⟨hc₁, hcs⟩ := (conditions_append _ _ _ _ _ _ _ _).1 hc
    obtain ⟨h₁, hk⟩ := complete c (by simp) hr hc₁ fun t ht => hv t (by simp [ht])
    have ho := (sound d c hr hk).2
    rw [← ho.tables] at hcs
    have hown : ∀ u ∈ c.ownTable, ∀ t ∈ cs.flatMap Node.emitted, u.Agrees t := by
      -- What the first node declares it emits too, so it agrees with all that is emitted behind it.
      intro u hu t ht
      refine hc.agree u ?_ t ht
      rw [Node.emitted_eq]
      exact List.mem_append_right _ hu
    have hv₁ : Compatible levels (cs.flatMap Node.emitted) := fun t ht => hv t (by simp [ht])
    obtain ⟨h', hk'⟩ := ih (fun c' hc' => complete c' (by simp [hc'])) ho.scopes hcs (hv₁.declareAll hown)
    exact ⟨h', collectAll_cons.2 ⟨h₁, hk, hk'⟩⟩

theorem Complete.select {d : Dialect} {s : Select}
    (complete : ∀ c ∈ (Node.select s).children, Complete d c) : Complete d (.select s) := by
  intro h levels hr hc hv
  obtain ⟨hd, ha, _⟩ := hc
  have hown : (Node.select s).ownTable = [] := rfl
  rw [Node.withClauses_eq] at hd
  rw [Node.emitted_eq, hown, List.append_nil] at ha hv
  have hf : Fresh ([] :: levels) ((Node.select s).children.flatMap Node.ownTable) := by
    rw [Node.flatMap_ownTable_children]
    -- The level is new, so the names of the clause only have to differ from each other.
    refine ⟨?_, fun _ _ => rfl⟩
    cases hw : s.withClause with
    | none => simp [Node.ownWith, hw]
    | some w =>
      have hn := hd w (List.mem_append_left _ (by simp [Node.ownWith, hw]))
      simpa [Node.ownWith, hw] using hn
  have hc : Conditions ([] :: levels) (h.enterSelect s).tables
      ((Node.select s).children.flatMap Node.withClauses) _ _ :=
    ⟨fun w hw => hd w (List.mem_append_right _ hw), ha, hf⟩
  obtain ⟨h₂, hk⟩ := walk_all complete hr.start hc hv
  exact ⟨_, collect_eq_ok.2 ⟨_, h₂, rfl, hk, rfl⟩⟩

theorem Complete.commonTable {d : Dialect} {t : CommonTable} (complete : Complete d (.select t.select)) :
    Complete d (.commonTable t) := by
  intro h levels hr hc hv
  rw [Node.emitted_commonTable] at hc hv
  obtain ⟨ha, ha', _⟩ := (acceptsAll_append _ _ _).1 hc.accepted
  let h₁ : Hoisting := { h with scopes := h.scopes.set t.name t }
  have he : h.declare d t = .ok h₁ := (declare_eq_ok hr).2 ⟨hc.fresh, hv t (by simp), rfl⟩
  have hr' : h₁.scopes.Represents (declareAll levels [t]) := represents_declare hr t
  have hown : ∀ u ∈ [t], ∀ v ∈ (Node.select t.select).emitted, u.Agrees v := by
    -- The table is visible in its own body, and it is emitted behind all that is declared there.
    intro u hu v hvm
    rw [List.mem_singleton.1 hu]
    exact Std.Symm.symm _ _ (hc.agree v hvm t (by simp))
  have hv' : Compatible levels (Node.select t.select).emitted := fun v hvm => hv v (by simp [hvm])
  obtain ⟨h₂, hk⟩ := complete hr' ⟨hc.distinct, ha, fresh_nil _⟩ (hv'.declareAll hown)
  have ho := (sound d _ hr' hk).2
  have hl : h₂.emit d t = .ok { h₂ with tables := add h₂.tables t } := by
    refine emit_eq_ok.2 ⟨?_, rfl⟩
    rw [ho.tables]
    exact ha'
  exact ⟨_, collect_eq_ok.2 ⟨_, h₂, he, collectAll_cons.2 ⟨h₂, hk, rfl⟩, hl⟩⟩

theorem Complete.plain {d : Dialect} {n : Node} (complete : ∀ c ∈ n.children, Complete d c)
    (hw : n.ownWith = []) (ho : n.ownTable = []) (he : ∀ h : Hoisting, h.enter d n = .ok h)
    (hl : ∀ h : Hoisting, h.leave d n = .ok h) : Complete d n := by
  intro h levels hr hc hv
  rw [Node.withClauses_eq, Node.emitted_eq, hw, ho, List.nil_append, List.append_nil] at hc
  rw [Node.emitted_eq, ho, List.append_nil] at hv
  have hown : n.children.flatMap Node.ownTable = [] := by
    rw [Node.flatMap_ownTable_children, hw]
    rfl
  rw [← hown] at hc
  obtain ⟨h', hk⟩ := walk_all complete hr hc hv
  exact ⟨h', collect_eq_ok.2 ⟨h, h', he h, hk, hl h'⟩⟩

theorem complete (d : Dialect) (n : Node) : Complete d n := by
  induction n using Node.induction with
  | step n ih =>
    cases n with
    | select s => exact .select ih
    | commonTable t => exact .commonTable (ih _ (by simp [Node.children]))
    | _ => exact .plain ih rfl rfl (fun _ => rfl) fun _ => rfl

/-! ## A walk that fails -/

/-- The errors that hoisting in a dialect may end in. -/
def Refusal (d : Dialect) (e : RenderError) : Prop :=
  ∃ name, e = .duplicateCommonTable name ∨ e = .shadowing name d

theorem refusal_enter {d : Dialect} {n : Node} {h : Hoisting} {e : RenderError}
    (he : h.enter d n = .error e) : Refusal d e := by
  cases n with
  | commonTable t =>
    simp only [enter, declare] at he
    split at he
    · exact ⟨t.name, .inl (by injection he with he; exact he.symm)⟩
    · split at he
      · exact ⟨t.name, .inr (by injection he with he; exact he.symm)⟩
      · cases he
  | _ => cases he

theorem refusal_leave {d : Dialect} {n : Node} {h : Hoisting} {e : RenderError}
    (he : h.leave d n = .error e) : Refusal d e := by
  cases n with
  | commonTable t =>
    simp only [leave, emit] at he
    split at he
    · split at he
      · cases he
      · exact ⟨t.name, .inr (by injection he with he; exact he.symm)⟩
    · cases he
  | _ => cases he

theorem refusal_collect {d : Dialect} {n : Node} {h : Hoisting} {e : RenderError}
    (he : n.collect d h = .error e) : Refusal d e := by
  induction n using Node.induction generalizing h with
  | step n ih =>
    have all : ∀ cs : List Node, (∀ c ∈ cs, c ∈ n.children) → ∀ h : Hoisting,
        collectAll d cs h = .error e → Refusal d e := by
      -- A walk over several nodes fails at one of them.
      intro cs
      induction cs with
      | nil => exact fun _ _ he => nomatch he
      | cons c cs ihcs =>
        intro hcs h he
        rw [collectAll, List.foldlM_cons] at he
        rcases Except.bind_eq_error.1 he with he | ⟨h₁, _, he⟩
        · exact ih c (hcs c (by simp)) he
        · exact ihcs (fun c' hc' => hcs c' (by simp [hc'])) h₁ he
    rw [collect_eq] at he
    rcases Except.bind_eq_error.1 he with he | ⟨h₂, _, he⟩
    · rcases Except.bind_eq_error.1 he with he | ⟨h₁, _, he⟩
      · exact refusal_enter he
      · exact all _ (fun _ hc => hc) h₁ he
    · exact refusal_leave he

end Hoisting

/-! ## The hoisted clause -/

namespace Select

open Hoisting

theorem hoisted_eq_ok {s : Select} {d : Dialect} {w : With} :
    s.hoisted d = .ok w ↔ ∃ h, (Node.select s).collect d .empty = .ok h ∧ w = ⟨h.recursive, h.tables⟩ := by
  unfold hoisted
  rw [Except.bind_eq_ok]
  refine exists_congr fun h => and_congr_right fun _ => ?_
  refine ⟨?_, ?_⟩
  · intro hw
    injection hw with hw
    exact hw.symm
  · rintro rfl
    rfl

/-- What is hoisted: the first common table of every name, in the order of the walk. -/
theorem tables_of_hoisted {s : Select} {d : Dialect} {w : With} (hw : s.hoisted d = .ok w) :
    w.tables = firsts (Node.select s).emitted := by
  obtain ⟨h, hk, rfl⟩ := hoisted_eq_ok.1 hw
  exact (sound d _ ScopeStack.Represents.empty hk).2.tables

theorem recursive_of_hoisted {s : Select} {d : Dialect} {w : With} (hw : s.hoisted d = .ok w) :
    w.recursive = s.withClauses.any With.recursive := by
  obtain ⟨h, hk, rfl⟩ := hoisted_eq_ok.1 hw
  exact (sound d _ ScopeStack.Represents.empty hk).2.recursive

theorem agree_of_hoisted {s : Select} {d : Dialect} {w : With} (hw : s.hoisted d = .ok w) :
    (Node.select s).emitted.Pairwise CommonTable.Agrees := by
  obtain ⟨h, hk, rfl⟩ := hoisted_eq_ok.1 hw
  exact (acceptsAll_nil_iff _).1 (sound d _ ScopeStack.Represents.empty hk).1.accepted

/-- Common tables agree in the order of a walk exactly if they agree in the order of the text. -/
theorem pairwise_agrees_iff (s : Select) :
    (Node.select s).emitted.Pairwise CommonTable.Agrees ↔ s.declared.Pairwise CommonTable.Agrees :=
  (Node.emitted_select_perm s).pairwise_iff fun h => Std.Symm.symm _ _ h

theorem exists_hoisted_iff (s : Select) (d : Dialect) :
    (∃ w, s.hoisted d = .ok w) ↔
      (∀ w ∈ s.withClauses, (w.tables.map CommonTable.name).Nodup)
        ∧ s.declared.Pairwise CommonTable.Agrees := by
  rw [← pairwise_agrees_iff]
  refine ⟨?_, ?_⟩
  · rintro ⟨w, hw⟩
    refine ⟨?_, agree_of_hoisted hw⟩
    obtain ⟨h, hk, _⟩ := hoisted_eq_ok.1 hw
    exact (sound d _ ScopeStack.Represents.empty hk).1.distinct
  · rintro ⟨hd, hp⟩
    have hc : Conditions [] Hoisting.empty.tables (Node.select s).withClauses [] (Node.select s).emitted :=
      ⟨hd, (acceptsAll_nil_iff _).2 hp, trivial⟩
    have hv : Compatible [] (Node.select s).emitted := fun _ _ _ hf => nomatch hf
    obtain ⟨h, hk⟩ := complete d _ ScopeStack.Represents.empty hc hv
    exact ⟨_, hoisted_eq_ok.2 ⟨h, hk, rfl⟩⟩

/-- The common table kept under the name of a declared one stands for it. -/
theorem exists_hoisted_matches {s : Select} {d : Dialect} {w : With} (hw : s.hoisted d = .ok w)
    {t : CommonTable} (ht : t ∈ (Node.select s).emitted) : ∃ e ∈ w.tables, e.name = t.name ∧ e.Matches t := by
  rw [tables_of_hoisted hw]
  exact exists_mem_firsts (agree_of_hoisted hw) ht

/-- A common table in the body of a hoisted one stands before it. -/
theorem exists_before_hoisted {s : Select} {d : Dialect} {w : With} (hw : s.hoisted d = .ok w)
    {before after : List CommonTable} {e : CommonTable} (hs : w.tables = before ++ e :: after)
    {t : CommonTable} (ht : t ∈ (Node.select e.select).emitted) : ∃ e' ∈ before, e'.Matches t := by
  rw [tables_of_hoisted hw] at hs
  obtain ⟨pre, post, hse, hb⟩ := firsts_split hs
  have hp := agree_of_hoisted hw
  rw [hse] at hp
  have htp : t ∈ pre := Node.bodiesFirst_emitted _ pre e post hse t ht
  obtain ⟨e', he', _, hm⟩ := exists_mem_firsts (List.pairwise_append.1 hp).1 htp
  rw [hb] at he'
  exact ⟨e', he', hm⟩

/-- Hoisting succeeds exactly if no `WITH` clause of the query declares a name twice and any two common
tables of one name are equal. Otherwise it says which of the two is the case for some name. Where it succeeds,
it yields each name once, a table for every declared one, no others and each behind those in its body, and the
clause is recursive exactly if one in the query is. -/
theorem hoisted_characterization (s : Select) (d : Dialect) :
    ((∃ w, s.hoisted d = .ok w) ↔
      (∀ w ∈ s.withClauses, (w.tables.map CommonTable.name).Nodup)
        ∧ s.declared.Pairwise fun t u => t.name = u.name → (t == u) = true)
    ∧ (∀ e, s.hoisted d = .error e → ∃ name, e = .duplicateCommonTable name ∨ e = .shadowing name d)
    ∧ ∀ w, s.hoisted d = .ok w →
      (w.tables.map CommonTable.name).Nodup
      ∧ (∀ t ∈ s.declared, ∃ e ∈ w.tables, e.Matches t)
      ∧ (∀ e ∈ w.tables, e ∈ s.declared)
      ∧ (∀ before e after, w.tables = before ++ e :: after →
          ∀ t ∈ e.select.declared, ∃ e' ∈ before, e'.Matches t)
      ∧ (w.recursive = true ↔ ∃ w' ∈ s.withClauses, w'.recursive = true) := by
  refine ⟨exists_hoisted_iff s d, ?_, ?_⟩
  · intro e he
    unfold hoisted at he
    rcases Except.bind_eq_error.1 he with he | ⟨h, _, he⟩
    · exact refusal_collect he
    · cases he
  · intro w hw
    have hmem : ∀ {s : Select} {t : CommonTable}, t ∈ s.declared ↔ t ∈ (Node.select s).emitted :=
      fun {s t} => (Node.emitted_select_perm s).mem_iff.symm
    refine ⟨?_, ?_, ?_, ?_, ?_⟩
    · rw [tables_of_hoisted hw]
      exact nodup_firsts _
    · intro t ht
      obtain ⟨e, he, _, hm⟩ := exists_hoisted_matches hw (hmem.1 ht)
      exact ⟨e, he, hm⟩
    · intro e he
      rw [tables_of_hoisted hw] at he
      exact hmem.2 (mem_of_mem_firsts he)
    · intro before e after hs t ht
      exact exists_before_hoisted hw hs (hmem.1 ht)
    · rw [recursive_of_hoisted hw, List.any_eq_true]

end Select

end SqlDialects
