import SqlDialects.Proofs.Render.Weave

/-!
# Placeholders and literals

A query rendered with placeholders and the same query rendered inlined are two readings of one weave, and
either both renderings succeed or both fail with the same error. The two passes are compared step by step: a
simulation between them (`Simulation.ofOutputs`) only has to say how their outputs are related.

The offsets kept for numbered placeholders stay in order and at character boundaries of the text, so slicing
the text there at the end of a pass is safe. That holds of every output, also of one that is put together
from the outputs of detached contexts (`Output.WellFormed`).
-/

set_option autoImplicit false

namespace SqlDialects

namespace Output

/-- The output of pieces one after the other. -/
def writeAll (d : Dialect) (s : Settings) (o : Output) (ps : List Piece) : Output :=
  ps.foldl (Output.write d s) o

theorem writeAll_append (d : Dialect) (s : Settings) (o : Output) (ps qs : List Piece) :
    o.writeAll d s (ps ++ qs) = (o.writeAll d s ps).writeAll d s qs := List.foldl_append

theorem absorb_empty (o : Output) : o.absorb .empty = o := by
  simp [absorb, empty]

/-- Appending an output that ends in a piece is appending the rest and writing the piece. -/
theorem absorb_write (d : Dialect) (s : Settings) (o child : Output) (p : Piece) :
    o.absorb (child.write d s p) = (o.absorb child).write d s p := by
  have text : ∀ t, o.absorb (child.append t) = (o.absorb child).append t := by
    intro t
    simp [absorb, append, String.append_assoc]
  unfold write
  split
  · unfold addBind
    cases d.placeholderStyle with
    | question => simp [absorb, String.append_assoc]
    | dollar => simp [absorb, String.utf8ByteSize_append]
  · exact text _

theorem absorb_writeAll (d : Dialect) (s : Settings) (o child : Output) (ps : List Piece) :
    o.absorb (child.writeAll d s ps) = (o.absorb child).writeAll d s ps := by
  induction ps generalizing child with
  | nil => rfl
  | cons p ps ih =>
    show o.absorb ((child.write d s p).writeAll d s ps) = ((o.absorb child).write d s p).writeAll d s ps
    rw [ih, absorb_write]

/-! ## Offsets -/

/-- The offsets of placeholders are in order, and each is a character boundary of the text. -/
structure WellFormed (o : Output) : Prop where
  sorted : o.placeholders.Pairwise (· ≤ ·)
  inside : ∀ p ∈ o.placeholders, (⟨p⟩ : String.Pos.Raw).IsValid o.text

theorem wellFormed_empty : empty.WellFormed :=
  ⟨List.Pairwise.nil, by simp [empty]⟩

theorem WellFormed.le_size {o : Output} (h : o.WellFormed) {p : Nat} (hp : p ∈ o.placeholders) :
    p ≤ o.text.utf8ByteSize := by
  have hv := (h.inside p hp).le_rawEndPos
  simpa [String.Pos.Raw.le_iff] using hv

/-- Offsets of the child move by the length of the text before it, behind all offsets there are. -/
theorem WellFormed.absorb {o child : Output} (h : o.WellFormed) (hc : child.WellFormed) :
    (o.absorb child).WellFormed := by
  refine ⟨?_, ?_⟩
  · show (o.placeholders ++ child.placeholders.map (o.text.utf8ByteSize + ·)).Pairwise (· ≤ ·)
    rw [List.pairwise_append]
    refine ⟨h.sorted, ?_, ?_⟩
    · rw [List.pairwise_map]
      exact hc.sorted.imp fun hab => Nat.add_le_add_left hab _
    · -- The offsets of the child move behind the text of the parent, which all the others are in.
      intro p hp q hq
      obtain ⟨r, _, rfl⟩ := List.mem_map.1 hq
      exact Nat.le_trans (h.le_size hp) (Nat.le_add_right _ _)
  · intro p hp
    rcases List.mem_append.1 hp with hp | hp
    · exact (h.inside p hp).append_right child.text
    · obtain ⟨r, hr, rfl⟩ := List.mem_map.1 hp
      exact (hc.inside r hr).append_left o.text

/-- A piece is an output of its own. -/
theorem write_eq_absorb (d : Dialect) (s : Settings) (o : Output) (p : Piece) :
    o.write d s p = o.absorb (empty.write d s p) := by
  rw [absorb_write, absorb_empty]

theorem wellFormed_write_empty (d : Dialect) (s : Settings) (p : Piece) :
    (empty.write d s p).WellFormed := by
  unfold write
  split
  · unfold addBind
    cases d.placeholderStyle with
    | question => exact ⟨List.Pairwise.nil, by simp [empty]⟩
    | dollar => exact ⟨by simp [empty], by simp [empty]⟩
  · exact ⟨List.Pairwise.nil, by simp [empty, append]⟩

theorem WellFormed.write {o : Output} (h : o.WellFormed) (d : Dialect) (s : Settings) (p : Piece) :
    (o.write d s p).WellFormed := by
  rw [write_eq_absorb]
  exact h.absorb (wellFormed_write_empty d s p)

end Output

/-! ## Passes that differ in their outputs -/

/-- A relation between outputs that writing and appending keep. It makes a simulation of two passes in one
dialect. -/
def Simulation.ofOutputs (d : Dialect) (s s' : Settings) (R : Output → Output → Prop)
    (empty : R .empty .empty)
    (write : ∀ {o o'} (p : Piece), R o o' → R (o.write d s p) (o'.write d s' p))
    (absorb : ∀ {o o' k k'}, R o o' → R k k' → R (o.absorb k) (o'.absorb k')) : Simulation Unit := Lockstep.simulation {
  rel _ c c' := c.Alike c' ∧ c.dialect = d ∧ c.settings = s ∧ c'.settings = s' ∧ R c.output c'.output
  failed _ c c' := c.Alike c' ∧ c.dialect = d ∧ c.settings = s ∧ c'.settings = s' ∧ R c.output c'.output
  fail h := h
  alike h := h.1
  write := by
    rintro _ c c' p ⟨ha, rfl, rfl, rfl, hr⟩
    refine ⟨⟨ha.dialect, ha.indent, ha.flags, ha.scopes⟩, rfl, rfl, rfl, ?_⟩
    show R (c.output.write c.dialect c.settings p) (c'.output.write c'.dialect c'.settings p)
    rw [← ha.dialect]
    exact write p hr
  declare := by
    rintro _ c c' n e ⟨ha, hr⟩
    exact ⟨⟨ha.dialect, ha.indent, ha.flags, by simp [Context.declare, ha.scopes]⟩, hr⟩
  deeper := by
    rintro _ c c' ⟨ha, hr⟩
    refine ⟨(), ⟨⟨ha.dialect, by simp [ha.indent], ha.flags, ha.scopes⟩, hr⟩, ?_, fun _ _ h => h⟩
    rintro k k' ⟨hk, hr'⟩
    exact ⟨⟨hk.dialect, by simp [hk.indent], hk.flags, hk.scopes⟩, hr'⟩
  underFlags := by
    rintro _ c c' flags ⟨ha, hr⟩
    refine ⟨(), ⟨⟨ha.dialect, ha.indent, rfl, ha.scopes⟩, hr⟩, ?_, ?_⟩
    all_goals
      rintro k k' ⟨hk, hr'⟩
      exact ⟨⟨hk.dialect, hk.indent, ha.flags, hk.scopes⟩, hr'⟩
  level := by
    rintro _ c c' ⟨ha, hr⟩
    refine ⟨(), ⟨⟨ha.dialect, ha.indent, ha.flags, by simp [ha.scopes]⟩, hr⟩, ?_, ?_⟩
    all_goals
      rintro k k' ⟨hk, hr'⟩
      exact ⟨⟨hk.dialect, hk.indent, hk.flags, by simp [hk.scopes]⟩, hr'⟩
  detach := by
    rintro _ c c' ⟨ha, hd, hs, hs', hr⟩
    refine ⟨(), ⟨⟨ha.dialect, ha.indent, ha.flags, by simp [Context.detached, ha.scopes]⟩, hd, hs, hs', empty⟩, ?_⟩
    rintro k k' ⟨_, _, _, _, hk⟩
    exact ⟨⟨ha.dialect, ha.indent, ha.flags, ha.scopes⟩, hd, hs, hs', absorb hr hk⟩ }

/-! ## With placeholders and inlined -/

/-- Two outputs of the same pieces, with placeholders and inlined. -/
def Output.Paired (d : Dialect) (s : Settings) (o o' : Output) : Prop :=
  ∃ ps, o = Output.empty.writeAll d s.indexed ps ∧ o' = Output.empty.writeAll d s.inlined ps

theorem Output.Paired.write {d : Dialect} {s : Settings} {o o' : Output} (h : o.Paired d s o')
    (p : Piece) : (o.write d s.indexed p).Paired d s (o'.write d s.inlined p) := by
  obtain ⟨ps, rfl, rfl⟩ := h
  exact ⟨ps ++ [p], by simp [Output.writeAll], by simp [Output.writeAll]⟩

theorem Output.Paired.absorb {d : Dialect} {s : Settings} {o o' k k' : Output} (h : o.Paired d s o')
    (hk : k.Paired d s k') : (o.absorb k).Paired d s (o'.absorb k') := by
  obtain ⟨ps, rfl, rfl⟩ := h
  obtain ⟨qs, rfl, rfl⟩ := hk
  refine ⟨ps ++ qs, ?_, ?_⟩
  · rw [Output.absorb_writeAll, Output.absorb_empty]
    simp [Output.writeAll]
  · rw [Output.absorb_writeAll, Output.absorb_empty]
    simp [Output.writeAll]

/-- The weave of pieces has both outputs as its readings. -/
theorem Output.Paired.exists_weave {d : Dialect} {s : Settings} {o o' : Output} (h : o.Paired d s o') :
    ∃ w : Weave, o = w.output d ∧ o' = w.inlined d := by
  obtain ⟨ps, rfl, rfl⟩ := h
  -- Writing a piece keeps both readings, so all pieces may be written to the weave instead.
  have both : ∀ w : Weave, (w.output d).writeAll d s.indexed ps = (ps.foldl (Weave.write d s) w).output d ∧
      (w.inlined d).writeAll d s.inlined ps = (ps.foldl (Weave.write d s) w).inlined d := by
    induction ps with
    | nil => exact fun w => ⟨rfl, rfl⟩
    | cons p ps ih =>
      intro w
      obtain ⟨hi, hl⟩ := ih (w.write d s p)
      rw [Weave.output_write] at hi
      rw [Weave.inlined_write] at hl
      exact ⟨hi, hl⟩
  obtain ⟨hi, hl⟩ := both .empty
  have he : Weave.empty.output d = Output.empty := by
    unfold Weave.output
    cases d.placeholderStyle <;> rfl
  rw [he] at hi
  exact ⟨_, hi, hl⟩

/-- A pass with placeholders beside a pass with literals. -/
def Simulation.placeholders (d : Dialect) (s : Settings) : Simulation Unit :=
  .ofOutputs d s.indexed s.inlined (Output.Paired d s) ⟨[], rfl, rfl⟩ (fun p h => h.write p)
    fun h hk => h.absorb hk

/-! ## Contexts in use -/

/-- The contexts that come about by rendering: new ones, ones that a node or a piece was written to, also
when the node failed half way, detached ones, and ones that the output of another was appended to, any number
of times. Whatever else is done to a context leaves its output as it is. -/
inductive Context.Reachable : Context → Prop where
  | new (d : Dialect) (s : Settings) : Reachable (Context.new d s)
  | piece {c : Context} (p : Piece) (h : Reachable c) : Reachable (c.write p)
  | node {c c' : Context} (n : Node) (h : Reachable c) (hw : n.write c = .ok () c') : Reachable c'
  | failed {c c' : Context} {e : RenderError} (n : Node) (h : Reachable c)
      (hw : n.write c = .error e c') : Reachable c'
  | detached {c : Context} (inheritData : Bool) (h : Reachable c) : Reachable (c.detached inheritData)
  | absorb {c child : Context} (h : Reachable c) (hc : Reachable child) : Reachable (c.absorb child)
  | other {c c' : Context} (h : Reachable c) (ho : c'.output = c.output) : Reachable c'

/-- One pass beside itself, with a well-formed output. -/
def Simulation.wellFormed (d : Dialect) (s : Settings) : Simulation Unit :=
  .ofOutputs d s s (fun o o' => o = o' ∧ o.WellFormed) ⟨rfl, Output.wellFormed_empty⟩
    (fun p h => ⟨by rw [h.1], h.2.write d s p⟩) fun h hk => ⟨by rw [h.1, hk.1], h.2.absorb hk.2⟩

/-- A node leaves a well-formed output well-formed, wherever it stops. -/
theorem Output.WellFormed.node {c : Context} (h : c.output.WellFormed) (n : Node) :
    (∀ u c', n.write c = .ok u c' → c'.output.WellFormed) ∧
      ∀ e c', n.write c = .error e c' → c'.output.WellFormed := by
  let S := Simulation.wellFormed c.dialect c.settings
  have start : S.rel () c c := ⟨⟨rfl, rfl, rfl, rfl⟩, rfl, rfl, rfl, rfl, h⟩
  have ho := Simulation.Step.node n.reach n start
  change S.Outcome () (n.write c) (n.write c) at ho
  refine ⟨?_, ?_⟩
  · intro u c' hw
    rw [hw] at ho
    exact ho.2.2.2.2.2.2
  · intro e c' hw
    rw [hw] at ho
    exact ho.2.2.2.2.2.2

theorem Context.Reachable.wellFormed {c : Context} (h : c.Reachable) : c.output.WellFormed := by
  induction h with
  | new d s => exact Output.wellFormed_empty
  | piece p _ ih => exact ih.write _ _ p
  | node n _ hw ih => exact (ih.node n).1 _ _ hw
  | failed n _ hw ih => exact (ih.node n).2 _ _ hw
  | detached _ _ _ => exact Output.wellFormed_empty
  | absorb _ _ ih ihc => exact ih.absorb ihc
  | other _ ho ih =>
    rw [ho]
    exact ih

/-- Rendering with placeholders and rendering inlined fail alike, and where they succeed there is one weave
whose values are the binds: the one rendering is the weave with a placeholder in place of each value, the other
the weave with its literal. The offsets that placeholders are put at are in order and within the text
whatever contexts were appended. -/
theorem Node.render_indexed_inlined (n : Node) (d : Dialect) (s : Settings) :
    (match n.render d s.indexed, n.render d s.inlined with
      | .ok r, .ok r' => ∃ w : Weave,
        r = ⟨w.spell fun i _ => d.placeholder i, w.values⟩ ∧ r' = ⟨w.spell fun _ v => v.literal d, []⟩
      | .error e, .error e' => e = e'
      | _, _ => False) ∧
    ∀ c : Context, c.Reachable → c.output.WellFormed := by
  refine ⟨?_, fun c hc => hc.wellFormed⟩
  let S := Simulation.placeholders d s
  -- Both passes start without output, which is the reading of the empty weave in either way.
  have start : S.rel () (.new d s.indexed) (.new d s.inlined) :=
    ⟨⟨rfl, rfl, rfl, rfl⟩, rfl, rfl, rfl, [], rfl, rfl⟩
  have ho := Simulation.Step.node n.reach n start
  change S.Outcome () (n.write (.new d s.indexed)) (n.write (.new d s.inlined)) at ho
  unfold Node.render
  rcases ho.cases with ⟨_, c, c', hr, hr', hc⟩ | ⟨e, c, c', hr, hr', _⟩
  · obtain ⟨_, _, _, _, hp⟩ := hc
    obtain ⟨w, hi, hl⟩ := hp.exists_weave
    rw [hr, hr']
    refine ⟨w, ?_, ?_⟩
    · rw [Context.finish, hi, Weave.finish_output]
    · rw [Context.finish, hl, Weave.finish_inlined]
  · rw [hr, hr']

end SqlDialects
