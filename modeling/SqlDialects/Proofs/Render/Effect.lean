import SqlDialects.Proofs.Render.Aliases
import SqlDialects.Proofs.Render.Frame
import SqlDialects.Proofs.Render.Levels

/-!
# What rendering does to a context

A node is written between brackets: the flags, the levels of indentation and the query levels that it changes on
its way are put back before it ends, so all that it does to a context is to write behind what is there and, at
most, to add generated aliases to the current query level (`Node.write_framed`). A node that fails leaves levels
of indentation open and text written, but it does put back flags and query levels.

A pass is followed from the context that it started from. On a query level that it opened itself it may declare
what it likes, since closing the level gives back the very scopes from before
(`ScopeStack.Tidy.finish_start`, `ScopeStack.finish_set`). Outside of such a level only aliases are declared, and
none of them hides a name.
-/

set_option autoImplicit false

namespace SqlDialects

/-! ## Scopes with more aliases -/

/-- Scopes and the same with generated aliases, each declared where it was not visible. -/
inductive ScopeStack.Gains (s : ScopeStack String Declaration) : ScopeStack String Declaration → Prop where
  | nothing : Gains s s
  | generated {t : ScopeStack String Declaration} {n : String} (h : Gains s t) (hn : t.get? n = none) :
    Gains s (t.set n .generated)

namespace ScopeStack.Gains

variable {s t : ScopeStack String Declaration}

theorem depth (h : s.Gains t) : t.depth = s.depth := by
  induction h with
  | nothing => rfl
  | generated _ _ ih => rw [depth_set, ih]

/-- Without an open level nothing is declared. -/
theorem eq_of_depth (h : s.Gains t) (hd : s.depth = 0) : t = s := by
  induction h with
  | nothing => rfl
  | generated _ _ ih => rw [ih, set_of_depth hd]

/-- The aliases are on the current level, before all that was declared there, and none was visible. -/
theorem represents {level : List (String × Declaration)} {outer : List (List (String × Declaration))}
    (h : s.Gains t) (hs : s.Represents (level :: outer)) :
    ∃ names : List String, (∀ n ∈ names, s.get? n = none) ∧
      t.Represents ((names.map (fun n => (n, .generated)) ++ level) :: outer) := by
  induction h with
  | nothing => exact ⟨[], by simp, hs⟩
  | @generated t n _ hn ih =>
    obtain ⟨names, hnames, ht⟩ := ih
    refine ⟨n :: names, ?_, ht.set n .generated⟩
    intro m hm
    rcases List.mem_cons.1 hm with rfl | hm
    · rw [ht.get?, List.findSome?_cons, List.lookup_append] at hn
      rw [hs.get?, List.findSome?_cons]
      cases hg : (names.map fun n => (n, Declaration.generated)).lookup m with
      | none =>
        rw [hg] at hn
        exact hn
      | some d => simp [hg] at hn
    · exact hnames m hm

theorem lookup_generated (names : List String) (k : String) :
    (names.map fun n => (n, Declaration.generated)).lookup k = none ∨
      k ∈ names ∧ (names.map fun n => (n, Declaration.generated)).lookup k = some .generated := by
  induction names with
  | nil => exact .inl rfl
  | cons n names ih =>
    rw [List.map_cons, List.lookup_cons]
    by_cases hk : k = n
    · exact .inr ⟨by simp [hk], by simp [hk]⟩
    · rw [beq_false_of_ne hk]
      exact ih.imp_right fun h => ⟨List.mem_cons_of_mem _ h.1, h.2⟩

/-- Where no level is open nothing is gained, and otherwise the current level gains. -/
theorem cases (h : s.Gains t) (hs : s.Tidy) :
    t = s ∨ ∃ (names : List String) (level : List (String × Declaration)) (outer : List (List (String × Declaration))),
      (∀ n ∈ names, s.get? n = none) ∧ s.Represents (level :: outer) ∧
        t.Represents ((names.map (fun n => (n, .generated)) ++ level) :: outer) := by
  have hr := hs.represents_entries
  cases he : s.entries with
  | nil =>
    rw [he] at hr
    exact .inl (h.eq_of_depth hr.depth_eq)
  | cons level outer =>
    rw [he] at hr
    obtain ⟨names, hnames, ht⟩ := h.represents hr
    exact .inr ⟨names, level, outer, hnames, hr, ht⟩

/-- What is declared on outer levels is the same. -/
theorem outer (h : s.Gains t) (hs : s.Tidy) {level : Nat} (hl : level + 1 < s.depth) (k : String) :
    t.valueAt level k = s.valueAt level k := by
  rcases h.cases hs with rfl | ⟨names, current, outer, -, hr, ht⟩
  · rfl
  · have hd : s.depth = outer.length + 1 := hr.depth_eq
    have hne : level ≠ outer.length := by omega
    rw [ht.valueAt_eq, hr.valueAt_eq, bind_getElem?_reverse_cons, bind_getElem?_reverse_cons, if_neg hne, if_neg hne]

/-- A name on the current level is the same, unless it is an alias that was not visible. -/
theorem current (h : s.Gains t) (hs : s.Tidy) (k : String) :
    t.getCurrent? k = s.getCurrent? k ∨ s.get? k = none ∧ t.getCurrent? k = some .generated := by
  rcases h.cases hs with rfl | ⟨names, level, outer, hnames, hr, ht⟩
  · exact .inl rfl
  · rw [ht.getCurrent?, hr.getCurrent?, List.lookup_append]
    rcases lookup_generated names k with hk | ⟨hm, hk⟩
    · exact .inl (by rw [hk]; rfl)
    · exact .inr ⟨hnames k hm, by rw [hk]; rfl⟩

end ScopeStack.Gains

/-! ## Brackets -/

/-- Where a pass is: what it started from, and whether it has opened a query level since. -/
structure Bracket where
  start : Context
  opened : Bool

namespace Bracket

/-- How the scopes of a pass lead back to those that it started from. -/
def Scoped (i : Bracket) (s : ScopeStack String Declaration) : Prop :=
  match i.opened with
  | true => s.finish = i.start.scopes ∧ s.depth = i.start.scopes.depth + 1
  | false => i.start.scopes.Gains s

/-- What holds of a context wherever the pass stops. -/
structure Closes (i : Bracket) (c : Context) : Prop where
  flags : c.flags = i.start.flags
  scopes : i.Scoped c.scopes
  tidy : c.scopes.Tidy

/-- What holds of a context as long as the pass goes on. -/
structure Holds (i : Bracket) (c : Context) : Prop extends Closes i c where
  output : ∃ o, c.output = i.start.output.absorb o
  dialect : c.dialect = i.start.dialect
  settings : c.settings = i.start.settings
  data : c.data = i.start.data
  indent : c.indent = i.start.indent

/-- The bracket with other parts of the context at its start. -/
def atIndent (i : Bracket) (indent : Nat) : Bracket := { i with start := { i.start with indent := indent } }

def underFlags (i : Bracket) (flags : RenderFlags) : Bracket := { i with start := { i.start with flags := flags } }

def opening (i : Bracket) (s : ScopeStack String Declaration) : Bracket :=
  { start := { i.start with scopes := s }, opened := true }

variable {i : Bracket} {c : Context}

namespace Scoped

variable {s t : ScopeStack String Declaration}

theorem declare (hl : i.opened = true) (h : i.Scoped s) (n : String) (d : Declaration) : i.Scoped (s.set n d) := by
  unfold Scoped at h ⊢
  rw [hl] at h ⊢
  exact ⟨(s.finish_set n d).trans h.1, (s.depth_set n d).trans h.2⟩

theorem generate (h : i.Scoped s) {n : String} (hn : s.get? n = none) : i.Scoped (s.set n .generated) := by
  cases hl : i.opened with
  | true => exact h.declare hl n .generated
  | false =>
    unfold Scoped at h ⊢
    rw [hl] at h ⊢
    exact h.generated hn

theorem start (i : Bracket) (ht : s.Tidy) : (i.opening s).Scoped s.start := ⟨ht.finish_start, rfl⟩

/-- Closing the level gives back the very scopes on which it was opened. -/
theorem finish (h : (i.opening s).Scoped t) : t.finish = s := h.1

end Scoped

theorem Closes.finish {s : ScopeStack String Declaration} (h : (i.opening s).Closes c) (hs : i.Scoped s) :
    i.Closes { c with scopes := c.scopes.finish } := by
  refine ⟨h.flags, ?_, h.tidy.finish⟩
  rw [h.scopes.finish]
  exact hs

namespace Holds

theorem refl (h : c.scopes.Tidy) : Holds ⟨c, false⟩ c :=
  ⟨⟨rfl, .nothing, h⟩, ⟨.empty, (Output.absorb_empty _).symm⟩, rfl, rfl, rfl, rfl⟩

theorem write (h : i.Holds c) (p : Piece) : i.Holds (c.write p) := by
  refine ⟨⟨h.flags, h.scopes, h.tidy⟩, ?_, h.dialect, h.settings, h.data, h.indent⟩
  obtain ⟨o, ho⟩ := h.output
  refine ⟨o.write c.dialect c.settings p, ?_⟩
  rw [Output.absorb_write, ← ho]
  rfl

theorem absorb (h : i.Holds c) (k : Context) : i.Holds (c.absorb k) := by
  refine ⟨⟨h.flags, h.scopes, h.tidy⟩, ?_, h.dialect, h.settings, h.data, h.indent⟩
  obtain ⟨o, ho⟩ := h.output
  refine ⟨o.absorb k.output, ?_⟩
  rw [← Output.absorb_assoc, ← ho]
  rfl

theorem declare (hl : i.opened = true) (h : i.Holds c) (n : String) (d : Declaration) : i.Holds (c.declare n d) :=
  ⟨⟨h.flags, h.scopes.declare hl n d, h.tidy.set n d⟩, h.output, h.dialect, h.settings, h.data, h.indent⟩

theorem generate (h : i.Holds c) (stem : String) : i.Holds (c.declare (c.freshAlias stem) .generated) :=
  ⟨⟨h.flags, h.scopes.generate (Context.get?_freshAlias h.tidy stem), h.tidy.set _ _⟩, h.output, h.dialect,
    h.settings, h.data, h.indent⟩

theorem indented (h : i.Holds c) (n : Nat) : (i.atIndent n).Holds { c with indent := n } :=
  ⟨⟨h.flags, h.scopes, h.tidy⟩, h.output, h.dialect, h.settings, h.data, rfl⟩

theorem enterSubquery (h : i.Holds c) : (i.atIndent (c.indent + 1)).Holds c.enterSubquery :=
  ((h.write (.text "(")).indented (c.indent + 1)).write (.edge (c.indent + 1))

theorem leaveSubquery {n : Nat} (hi : i.start.indent = n) (h : (i.atIndent (n + 1)).Holds c) :
    i.Holds c.leaveSubquery := by
  have hn : c.indent - 1 = i.start.indent := by rw [h.indent, hi]; rfl
  have back : i.Holds { c with indent := c.indent - 1 } :=
    ⟨⟨h.flags, h.scopes, h.tidy⟩, h.output, h.dialect, h.settings, h.data, hn⟩
  exact (back.write (.edge (c.indent - 1))).write (.text ")")

theorem underFlags (h : i.Holds c) (flags : RenderFlags) : (i.underFlags flags).Holds { c with flags := flags } :=
  ⟨⟨rfl, h.scopes, h.tidy⟩, h.output, h.dialect, h.settings, h.data, h.indent⟩

theorem restoreFlags {flags flags' : RenderFlags} (h : (i.underFlags flags).Holds c) (hf : flags' = i.start.flags) :
    i.Holds { c with flags := flags' } :=
  ⟨⟨hf, h.scopes, h.tidy⟩, h.output, h.dialect, h.settings, h.data, h.indent⟩

theorem start (h : i.Holds c) : (i.opening c.scopes).Holds { c with scopes := c.scopes.start } :=
  ⟨⟨h.flags, .start i h.tidy, h.tidy.start⟩, h.output, h.dialect, h.settings, h.data, h.indent⟩

theorem finish {s : ScopeStack String Declaration} (h : (i.opening s).Holds c) (hs : i.Scoped s) :
    i.Holds { c with scopes := c.scopes.finish } :=
  ⟨h.toCloses.finish hs, h.output, h.dialect, h.settings, h.data, h.indent⟩

end Holds

end Bracket

/-- A pass, followed from what it started from. -/
def Simulation.framed : Simulation Bracket where
  rel i c c' := c = c' ∧ i.Holds c
  failed i c c' := c = c' ∧ i.Closes c
  onLevel i := i.opened = true
  fail h := ⟨h.1, h.2.toCloses⟩
  agree := by
    intro i c c' h
    rw [h.1]
    exact ⟨rfl, rfl, rfl, rfl, fun _ => rfl⟩
  current := by
    intro i c c' _ h n
    rw [h.1]
  write := by
    intro i c c' p _ h
    exact ⟨by rw [h.1], h.2.write p⟩
  gap := by
    intro i c c' h
    exact ⟨by rw [h.1], h.2.write _⟩
  declare := by
    intro i c c' n d hl h
    exact ⟨by rw [h.1], h.2.declare hl n d⟩
  generate := by
    intro i c c' stem h
    exact ⟨by rw [h.1], h.2.generate stem⟩
  subquery := by
    intro i c c' h
    refine ⟨i.atIndent (c.indent + 1), ⟨by rw [h.1], h.2.enterSubquery⟩, ?_, ?_⟩
    · intro k k' hk
      exact ⟨by rw [hk.1], hk.2.leaveSubquery h.2.indent.symm⟩
    · intro k k' hk
      exact ⟨hk.1, hk.2.flags, hk.2.scopes, hk.2.tidy⟩
  underFlags := by
    intro i c c' flags _ h
    refine ⟨i.underFlags flags, id, ⟨by rw [h.1], h.2.underFlags flags⟩, ?_, ?_⟩
    · intro k k' hk
      exact ⟨by rw [h.1, hk.1], hk.2.restoreFlags h.2.flags⟩
    · intro k k' hk
      exact ⟨by rw [h.1, hk.1], h.2.flags, hk.2.scopes, hk.2.tidy⟩
  level := by
    intro i c c' h
    refine ⟨i.opening c.scopes, rfl, ⟨by rw [h.1], h.2.start⟩, ?_, ?_⟩
    · intro k k' hk
      exact ⟨by rw [hk.1], hk.2.finish h.2.scopes⟩
    · intro k k' hk
      exact ⟨by rw [hk.1], hk.2.finish h.2.scopes⟩
  detach := by
    intro i c c' h
    refine ⟨⟨c.detached true, false⟩, ⟨by rw [h.1], .refl (ScopeStack.tidy_flatten c.scopes)⟩, ?_⟩
    intro k k' hk
    exact ⟨by rw [h.1, hk.1], h.2.absorb k⟩

/-- A node keeps the bracket that it is written in. -/
theorem Bracket.Holds.node {i : Bracket} {c : Context} (h : i.Holds c) (n : Node) :
    match n.write c with
    | .ok _ c' => i.Holds c'
    | .error _ c' => i.Closes c' := by
  have step := Simulation.Step.node (S := Simulation.framed) (i := i) n.reach n ⟨rfl, h⟩
  rw [Node.write]
  rcases step.cases with ⟨_, k, k', hr, -, hk⟩ | ⟨e, k, k', hr, -, hk⟩
  · rw [hr]
    exact hk.2
  · rw [hr]
    exact hk.2

/-- A select is written on a level of its own, so it leaves the very scopes that it was met with. -/
theorem Select.scopes_of_write {s : Select} {c c' : Context} (h : c.scopes.Tidy)
    (hw : (Node.select s).write c = .ok () c') : c'.scopes = c.scopes := by
  have hs : (Node.select s).write c
      = Render.onQueryLevel (Visitor.selectOnLevel Node.write s (!c.scopes.isOpen)) c := by
    rw [Node.write_eq_parts]
    rfl
  rw [hs, Render.onQueryLevel] at hw
  have start := (Bracket.Holds.refl h).start
  have visited : ∀ m, Simulation.framed.Same Node.write Node.write m := fun m _ => .node m.reach m
  have step : Simulation.framed.Step (Bracket.opening ⟨c, false⟩ c.scopes)
      (Visitor.selectOnLevel Node.write s (!c.scopes.isOpen)) (Visitor.selectOnLevel Node.write s (!c.scopes.isOpen)) :=
    .selectOnLevel _ rfl (fun _ _ => visited _) (fun _ _ _ _ _ => visited _) (fun m _ => visited m) fun _ _ => visited _
  rcases (step ⟨rfl, start⟩).cases with ⟨_, k, k', hr, -, hk⟩ | ⟨e, k, k', hr, -, -⟩
  · rw [hr] at hw
    cases hw
    exact hk.2.scopes.finish
  · rw [hr] at hw
    cases hw

/-! ## Contexts in use -/

/-- The contexts that the operations on contexts lead to, in whatever order they are used. -/
inductive Context.Arises : Context → Prop where
  | new (d : Dialect) (s : Settings) : Arises (Context.new d s)
  | write {c : Context} (p : Piece) (h : Arises c) : Arises (c.write p)
  | indent {c : Context} (n : Nat) (h : Arises c) : Arises { c with indent := n }
  | flags {c : Context} (flags : RenderFlags) (h : Arises c) : Arises { c with flags := flags }
  | data {c : Context} (data : List (String × DataValue)) (h : Arises c) : Arises { c with data := data }
  | start {c : Context} (h : Arises c) : Arises { c with scopes := c.scopes.start }
  | finish {c : Context} (h : Arises c) : Arises { c with scopes := c.scopes.finish }
  | declare {c : Context} (n : String) (d : Declaration) (h : Arises c) : Arises (c.declare n d)
  | detached {c : Context} (inheritData : Bool) (h : Arises c) : Arises (c.detached inheritData)
  | absorb {c child : Context} (h : Arises c) (hc : Arises child) : Arises (c.absorb child)
  | node {c c' : Context} (n : Node) (h : Arises c) (hw : n.write c = .ok () c') : Arises c'
  | failed {c c' : Context} {e : RenderError} (n : Node) (h : Arises c) (hw : n.write c = .error e c') : Arises c'

theorem Context.Arises.tidy {c : Context} (h : c.Arises) : c.scopes.Tidy := by
  induction h with
  | new d s => exact .empty
  | write p _ ih => exact ih
  | indent n _ ih => exact ih
  | flags f _ ih => exact ih
  | data d _ ih => exact ih
  | start _ ih => exact ih.start
  | finish _ ih => exact ih.finish
  | declare n d _ ih => exact ih.set n d
  | detached b _ _ => exact ScopeStack.tidy_flatten _
  | absorb _ _ ih _ => exact ih
  | node n _ hw ih =>
    have hn := (Bracket.Holds.refl ih).node n
    rw [hw] at hn
    exact hn.tidy
  | failed n _ hw ih =>
    have hn := (Bracket.Holds.refl ih).node n
    rw [hw] at hn
    exact hn.tidy

/-! ## The effect of a node -/

/-- What a step has put back wherever it stopped. -/
structure Context.Restored (c c' : Context) : Prop where
  flags : c'.flags = c.flags
  depth : c'.scopes.depth = c.scopes.depth
  outer : ∀ level, level + 1 < c.scopes.depth → ∀ k, c'.scopes.valueAt level k = c.scopes.valueAt level k

/-- What a step has done that only writes, and makes up names on the current level. -/
structure Context.Extended (c c' : Context) : Prop extends Restored c c' where
  text : ∃ written, c'.output.text = c.output.text ++ written
  binds : c.output.binds <+: c'.output.binds
  placeholders : c.output.placeholders <+: c'.output.placeholders
  dialect : c'.dialect = c.dialect
  settings : c'.settings = c.settings
  data : c'.data = c.data
  indent : c'.indent = c.indent
  current : ∀ k, c'.scopes.getCurrent? k = c.scopes.getCurrent? k ∨
    c.scopes.get? k = none ∧ c'.scopes.getCurrent? k = some .generated

theorem Bracket.Closes.restored {c c' : Context} (h : Closes ⟨c, false⟩ c') (ht : c.scopes.Tidy) : c.Restored c' := by
  have gains : c.scopes.Gains c'.scopes := h.scopes
  exact ⟨h.flags, gains.depth, fun _ hl k => gains.outer ht hl k⟩

theorem Bracket.Holds.extended {c c' : Context} (h : Holds ⟨c, false⟩ c') (ht : c.scopes.Tidy) : c.Extended c' := by
  have gains : c.scopes.Gains c'.scopes := h.scopes
  obtain ⟨o, ho⟩ := h.output
  refine ⟨h.toCloses.restored ht, ⟨o.text, ?_⟩, ?_, ?_, h.dialect, h.settings, h.data, h.indent, gains.current ht⟩
  · rw [ho]
    rfl
  · rw [ho]
    exact List.prefix_append _ _
  · rw [ho]
    exact List.prefix_append _ _

/-- A node that is written leaves a context as it was, but for what is written behind the output that there was and
for generated aliases on the current query level, none of which was visible. After a select the scopes are the very
same. A node that fails still leaves the flags, the number of query levels and all outer ones as they were. -/
theorem Node.write_framed (n : Node) {c : Context} (h : c.Arises) :
    match n.write c with
    | .ok _ c' => c.Extended c' ∧ ((∃ s, n = .select s) → c'.scopes = c.scopes)
    | .error _ c' => c.Restored c' := by
  have framed := (Bracket.Holds.refl h.tidy).node n
  cases hw : n.write c with
  | error e c' =>
    rw [hw] at framed
    exact framed.restored h.tidy
  | ok u c' =>
    rw [hw] at framed
    refine ⟨framed.extended h.tidy, ?_⟩
    intro hs
    obtain ⟨s, rfl⟩ := hs
    exact Select.scopes_of_write h.tidy hw

namespace RowTest

/-- A query level with a table `t`. -/
def level : Context := Context.declare { Context.new .sqlite .default with scopes := ScopeStack.empty.start } "t" .table

/-- A null test of rows, which is written as a count of rows that goes by an alias. -/
def test : Node :=
  .condition (.selectIsNull { Select.ofFields [.col "x", .col "y"] with tables := [.named none "t" none] } false)

theorem reach_test : test.reach ≤ 12 := by
  simp [Node.reach_eq, Node.weight, Node.children, Node.clauseChildren, Node.fieldChildren, Node.conditionChildren,
    Node.tableChildren, Select.commonTables, test, Select.ofFields, Field.col]

/-- The alias is not `t`, which is visible, and it stays behind on the level. -/
theorem write_framed_test :
    ∃ c, test.write level = .ok () c ∧ level.Extended c ∧ c.scopes.getCurrent? "t1" = some .generated := by
  have arises : level.Arises := .declare "t" .table (.start (.new .sqlite .default))
  have framed := test.write_framed arises
  have declared : (match test.write level with
      | .ok _ c => c.scopes.getCurrent? "t1"
      | .error _ _ => none) = some .generated := by
    rw [← Render.node_eq_write reach_test]
    decide +kernel
  cases hw : test.write level with
  | error e c =>
    rw [hw] at declared
    cases declared
  | ok u c =>
    rw [hw] at framed declared
    exact ⟨c, rfl, framed.1, declared⟩

end RowTest

end SqlDialects
