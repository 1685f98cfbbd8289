import SqlDialects.Proofs.Grammar.Spelling

/-!
# One layout, two spellings

Formatting decides how a mark for a line break is spelled and nothing else. What a pass writes is a `Layout`:
text with placeholders, marks between clauses, and subqueries, each a layout of its own inside parentheses. How
deep a mark is nested need not be recorded, since it is where the mark stands that says so. The query on one line
and the formatted query are two spellings of one layout (`Node.render_formatted`).
-/

set_option autoImplicit false

namespace SqlDialects

/-- Text with marks where lines may break. Each part is followed by the rest of the layout. -/
inductive Layout where
  | done
  | text (text : String) (rest : Layout)
  /-- A placeholder and the value it stands for. -/
  | bind (value : Value) (rest : Layout)
  /-- The mark between two clauses. -/
  | gap (rest : Layout)
  /-- A subquery in parentheses, with a mark behind the opening one and one before the closing one. -/
  | subquery (inside rest : Layout)

namespace Layout

/-- The values of the placeholders, in order. -/
def values : Layout → List Value
  | done => []
  | text _ rest | gap rest => rest.values
  | bind v rest => v :: rest.values
  | subquery inside rest => inside.values ++ rest.values

/-- The text of a layout that stands in a number of subqueries, its placeholders counted from a number on. How
marks are spelled depends on the subqueries that are open around them. -/
def spell (d : Dialect) (atGap atEdge : Nat → String) (number depth : Nat) : Layout → String
  | done => ""
  | text t rest => t ++ spell d atGap atEdge number depth rest
  | bind _ rest => d.placeholder number ++ spell d atGap atEdge (number + 1) depth rest
  | gap rest => atGap depth ++ spell d atGap atEdge number depth rest
  | subquery inside rest =>
    "(" ++ atEdge (depth + 1) ++ spell d atGap atEdge number (depth + 1) inside ++ atEdge depth ++ ")"
      ++ spell d atGap atEdge (number + inside.values.length) depth rest

/-- A layout with another one behind it. -/
def append : Layout → Layout → Layout
  | done, l => l
  | text t rest, l => text t (rest.append l)
  | bind v rest, l => bind v (rest.append l)
  | gap rest, l => gap (rest.append l)
  | subquery inside rest, l => subquery inside (rest.append l)

/-- The pieces that a layout is written as. -/
def pieces (depth : Nat) : Layout → List Piece
  | done => []
  | text t rest => .text t :: rest.pieces depth
  | bind v rest => .bind v :: rest.pieces depth
  | gap rest => .gap depth :: rest.pieces depth
  | subquery inside rest =>
    .text "(" :: .edge (depth + 1) :: (inside.pieces (depth + 1) ++ .edge depth :: .text ")" :: rest.pieces depth)

/-- A piece that is no mark, as a layout. A value that is not bound is text. -/
def ofPiece (d : Dialect) (s : Settings) (p : Piece) : Layout :=
  match p, s.paramType with
  | .bind v, .indexed => bind v done
  | p, _ => text (p.spell d s) done

theorem pieces_append (depth : Nat) (l m : Layout) : (l.append m).pieces depth = l.pieces depth ++ m.pieces depth := by
  induction l with
  | done => rfl
  | text t rest ih => simp [append, pieces, ih]
  | bind v rest ih => simp [append, pieces, ih]
  | gap rest ih => simp [append, pieces, ih]
  | subquery inside rest _ ih => simp [append, pieces, ih]

/-! ## The end of a pass -/

theorem bound_pieces {s : Settings} (hs : s.paramType = .indexed) (depth : Nat) (l : Layout) :
    s.bound (l.pieces depth) = l.values := by
  induction l generalizing depth with
  | done => simp [pieces, values, Settings.bound, hs]
  | text t rest ih => simpa [pieces, values, Settings.bound, hs] using ih depth
  | bind v rest ih => simpa [pieces, values, Settings.bound, hs] using ih depth
  | gap rest ih => simpa [pieces, values, Settings.bound, hs] using ih depth
  | subquery inside rest ih ih' =>
    have hi := ih (depth + 1)
    have hr := ih' depth
    simp only [Settings.bound, hs] at hi hr
    simp [pieces, values, Settings.bound, hs, hi, hr]

/-- Pieces are spelled as their layout, marks as they are under the settings. -/
theorem allChars_pieces (d : Dialect) {s : Settings} (hs : s.paramType = .indexed) (number depth : Nat) (l : Layout) :
    String.ofList (Piece.allChars d s number (l.pieces depth))
      = l.spell d (fun n => (Piece.gap n).spell d s) (fun n => (Piece.edge n).spell d s) number depth := by
  have plain : ∀ {p : Piece}, (∀ v, p ≠ .bind v) → ∀ number ps,
      Piece.allChars d s number (p :: ps) = (p.spell d s).toList ++ Piece.allChars d s number ps := by
    intro p hp number ps
    rw [Piece.allChars, p.chars_text d s number hp, s.bound_text hp, List.length_nil, Nat.add_zero]
  induction l generalizing number depth with
  | done => rfl
  | text t rest ih =>
    rw [pieces, plain (by simp), String.ofList_append, ih, String.ofList_toList]
    rfl
  | bind v rest ih =>
    have hb : s.bound [.bind v] = [v] := by simp [Settings.bound, hs]
    have hc : Piece.chars d s number (.bind v) = (d.placeholder number).toList := by simp [Piece.chars, hs]
    rw [pieces, Piece.allChars, hb, hc, String.ofList_append, List.length_singleton, ih, String.ofList_toList]
    rfl
  | gap rest ih =>
    rw [pieces, plain (by simp), String.ofList_append, ih, String.ofList_toList]
    rfl
  | subquery inside rest ih ih' =>
    rw [pieces, plain (by simp), plain (by simp), Piece.allChars_append, plain (by simp), plain (by simp),
      bound_pieces hs]
    simp only [String.ofList_append, String.ofList_toList, ih, ih', spell, String.append_assoc]
    rfl

/-! ## Writing behind a layout -/

theorem write_piece (d : Dialect) (s : Settings) (depth : Nat) (o : Output) {p : Piece} (hp : p.isMark = false) :
    o.write d s p = o.writeAll d s.indexed ((ofPiece d s p).pieces depth) := by
  unfold ofPiece
  cases p with
  | bind v =>
    cases hs : s.paramType with
    | indexed =>
      rw [Settings.indexed_eq hs]
      rfl
    | inlined =>
      unfold Output.write
      rw [hs]
      rfl
  | gap n => cases hp
  | edge n => cases hp
  | _ => rfl

theorem ofPiece_formatted (d : Dialect) (s : Settings) (b : Bool) {p : Piece} (hp : p.isMark = false) :
    ofPiece d { s with formatted := b } p = ofPiece d s p := by
  cases p with
  | bind v =>
    unfold ofPiece
    cases s.paramType <;> rfl
  | gap n => cases hp
  | edge n => cases hp
  | _ => rfl

end Layout

/-- Where a pass is: what each of the two spellings stands behind, and how many subqueries are open. -/
structure Place where
  before : Output
  before' : Output
  depth : Nat

/-- Two outputs that add one layout to what stood before, the first on one line, the second formatted. -/
def Output.LaidOut (d : Dialect) (s : Settings) (i : Place) (o o' : Output) : Prop :=
  ∃ l : Layout, o = i.before.writeAll d { s with formatted := false }.indexed (l.pieces i.depth) ∧
    o' = i.before'.writeAll d { s with formatted := true }.indexed (l.pieces i.depth)

namespace Output

namespace LaidOut

variable {d : Dialect} {s : Settings} {i : Place} {o o' : Output}

theorem refl (d : Dialect) (s : Settings) (i : Place) : LaidOut d s i i.before i.before' := ⟨.done, rfl, rfl⟩

/-- What is added behind one layout in both spellings is added to the layout. -/
theorem append (h : LaidOut d s i o o') {k k' : Output} (hk : LaidOut d s ⟨o, o', i.depth⟩ k k') :
    LaidOut d s i k k' := by
  obtain ⟨l, rfl, rfl⟩ := h
  obtain ⟨m, rfl, rfl⟩ := hk
  refine ⟨l.append m, ?_, ?_⟩
  · rw [Layout.pieces_append, writeAll_append]
  · rw [Layout.pieces_append, writeAll_append]

theorem write (h : LaidOut d s i o o') {p : Piece} (hp : p.isMark = false) :
    LaidOut d s i (o.write d { s with formatted := false } p) (o'.write d { s with formatted := true } p) := by
  refine h.append ⟨Layout.ofPiece d s p, ?_, ?_⟩
  · rw [Layout.write_piece d _ i.depth o hp, Layout.ofPiece_formatted d s false hp]
  · rw [Layout.write_piece d _ i.depth o' hp, Layout.ofPiece_formatted d s true hp]

theorem gap (h : LaidOut d s i o o') :
    LaidOut d s i (o.write d { s with formatted := false } (.gap i.depth))
      (o'.write d { s with formatted := true } (.gap i.depth)) :=
  h.append ⟨.gap .done, rfl, rfl⟩

theorem subquery (h : LaidOut d s i o o') {k k' : Output}
    (hk : LaidOut d s
      ⟨(o.write d { s with formatted := false } (.text "(")).write d { s with formatted := false } (.edge (i.depth + 1)),
        (o'.write d { s with formatted := true } (.text "(")).write d { s with formatted := true }
          (.edge (i.depth + 1)),
        i.depth + 1⟩ k k') :
    LaidOut d s i
      ((k.write d { s with formatted := false } (.edge i.depth)).write d { s with formatted := false } (.text ")"))
      ((k'.write d { s with formatted := true } (.edge i.depth)).write d { s with formatted := true } (.text ")")) := by
  obtain ⟨m, rfl, rfl⟩ := hk
  have piecewise : ∀ (t : Settings) (o : Output),
      o.writeAll d t.indexed ((Layout.subquery m .done).pieces i.depth)
        = ((((o.write d t (.text "(")).write d t (.edge (i.depth + 1))).writeAll d t.indexed
            (m.pieces (i.depth + 1))).write d t (.edge i.depth)).write d t (.text ")") := by
    intro t o
    simp only [Layout.pieces, writeAll, List.foldl_cons, List.foldl_append, List.foldl_nil]
    rfl
  exact h.append ⟨.subquery m .done, (piecewise _ o).symm, (piecewise _ o').symm⟩

theorem absorb (h : LaidOut d s i o o') {k k' : Output} (hk : LaidOut d s ⟨.empty, .empty, i.depth⟩ k k') :
    LaidOut d s i (o.absorb k) (o'.absorb k') := by
  obtain ⟨m, rfl, rfl⟩ := hk
  refine h.append ⟨m, ?_, ?_⟩
  · rw [absorb_writeAll, absorb_empty]
  · rw [absorb_writeAll, absorb_empty]

end LaidOut

end Output

/-! ## The two passes -/

theorem Context.output_enterSubquery {c : Context} {d : Dialect} {s : Settings} {n : Nat} (hd : c.dialect = d)
    (hs : c.settings = s) (hi : c.indent = n) :
    c.enterSubquery.output = (c.output.write d s (.text "(")).write d s (.edge (n + 1)) := by
  subst hd hs hi
  rfl

theorem Context.output_leaveSubquery {c : Context} {d : Dialect} {s : Settings} {n : Nat} (hd : c.dialect = d)
    (hs : c.settings = s) (hi : c.indent = n + 1) :
    c.leaveSubquery.output = (c.output.write d s (.edge n)).write d s (.text ")") := by
  have hn : c.indent - 1 = n := by rw [hi, Nat.add_sub_cancel]
  subst hd hs hn
  rfl

/-- A pass on one line beside the formatted one. -/
def Simulation.layouts (d : Dialect) (s : Settings) : Simulation Place where
  rel i c c' := c.Alike c' ∧ c.dialect = d ∧ c.settings = { s with formatted := false } ∧
    c'.settings = { s with formatted := true } ∧ c.indent = i.depth ∧ c.output.LaidOut d s i c'.output
  failed _ _ _ := True
  onLevel _ := True
  fail _ := trivial
  agree h := h.1.agree
  current _ h n := by rw [h.1.scopes]
  write := by
    intro i c c' p hp h
    obtain ⟨ha, hd, hs, hs', hi, ho⟩ := h
    refine ⟨⟨ha.dialect, ha.indent, ha.flags, ha.scopes⟩, hd, hs, hs', hi, ?_⟩
    show (c.output.write c.dialect c.settings p).LaidOut d s i (c'.output.write c'.dialect c'.settings p)
    rw [← ha.dialect, hd, hs, hs']
    exact ho.write hp
  gap := by
    intro i c c' h
    obtain ⟨ha, hd, hs, hs', hi, ho⟩ := h
    refine ⟨⟨ha.dialect, ha.indent, ha.flags, ha.scopes⟩, hd, hs, hs', hi, ?_⟩
    show (c.output.write c.dialect c.settings (.gap c.indent)).LaidOut d s i
      (c'.output.write c'.dialect c'.settings (.gap c'.indent))
    rw [← ha.dialect, ← ha.indent, hd, hs, hs', hi]
    exact ho.gap
  declare := by
    intro i c c' n e _ h
    exact ⟨⟨h.1.dialect, h.1.indent, h.1.flags, by simp [Context.declare, h.1.scopes]⟩, h.2⟩
  generate := by
    intro i c c' stem h
    have hn := h.1.freshAlias stem
    exact ⟨⟨h.1.dialect, h.1.indent, h.1.flags, by simp [Context.declare, h.1.scopes, hn]⟩, h.2⟩
  subquery := by
    intro i c c' h
    obtain ⟨ha, hd, hs, hs', hi, ho⟩ := h
    refine ⟨⟨c.enterSubquery.output, c'.enterSubquery.output, i.depth + 1⟩, ?_, ?_, fun _ _ _ => trivial⟩
    · refine ⟨⟨ha.dialect, by simp [Context.enterSubquery, Context.write, ha.indent], ha.flags, ha.scopes⟩, hd, hs, hs',
        congrArg (· + 1) hi, .refl d s _⟩
    · intro k k' hk
      obtain ⟨hka, hkd, hks, hks', hki, hko⟩ := hk
      refine ⟨⟨hka.dialect, by simp [Context.leaveSubquery, Context.write, hka.indent], hka.flags, hka.scopes⟩, hkd, hks,
        hks', congrArg (· - 1) hki, ?_⟩
      rw [Context.output_leaveSubquery hkd hks hki,
        Context.output_leaveSubquery (hka.dialect.symm.trans hkd) hks' (hka.indent.symm.trans hki)]
      rw [Context.output_enterSubquery hd hs hi,
        Context.output_enterSubquery (ha.dialect.symm.trans hd) hs' (ha.indent.symm.trans hi)] at hko
      exact ho.subquery hko
  underFlags := by
    intro i c c' flags _ h
    refine ⟨i, id, ⟨⟨h.1.dialect, h.1.indent, rfl, h.1.scopes⟩, h.2⟩, ?_, fun _ _ _ => trivial⟩
    intro k k' hk
    exact ⟨⟨hk.1.dialect, hk.1.indent, h.1.flags, hk.1.scopes⟩, hk.2⟩
  level := by
    intro i c c' h
    refine ⟨i, trivial, ⟨⟨h.1.dialect, h.1.indent, h.1.flags, by simp [h.1.scopes]⟩, h.2⟩, ?_, fun _ _ _ => trivial⟩
    intro k k' hk
    exact ⟨⟨hk.1.dialect, hk.1.indent, hk.1.flags, by simp [hk.1.scopes]⟩, hk.2⟩
  detach := by
    intro i c c' h
    obtain ⟨ha, hd, hs, hs', hi, ho⟩ := h
    refine ⟨⟨.empty, .empty, i.depth⟩, ?_, ?_⟩
    · exact ⟨⟨ha.dialect, ha.indent, ha.flags, by simp [Context.detached, ha.scopes]⟩, hd, hs, hs', hi, .refl d s _⟩
    · intro k k' hk
      exact ⟨⟨ha.dialect, ha.indent, ha.flags, ha.scopes⟩, hd, hs, hs', hi, ho.absorb hk.2.2.2.2.2⟩

/-- Formatting changes the layout of a rendered text only. With and without it rendering fails alike, and where it
succeeds there is one layout whose placeholders stand for the binds of both. On one line a mark between clauses is
a blank and one beside the parenthesis of a subquery nothing. In the formatted text each is a new line, with the
indentation once for every subquery that is open around it. -/
theorem Node.render_formatted (n : Node) (d : Dialect) (s : Settings) :
    match n.render d { s with formatted := false }, n.render d { s with formatted := true } with
    | .ok r, .ok r' => ∃ l : Layout,
      r = ⟨l.spell d (fun _ => " ") (fun _ => "") 1 0, l.values⟩ ∧
        r' = ⟨l.spell d (fun depth => "\n" ++ String.join (List.replicate depth s.indentation))
          (fun depth => "\n" ++ String.join (List.replicate depth s.indentation)) 1 0, l.values⟩
    | .error e, .error e' => e = e'
    | _, _ => False := by
  let S := Simulation.layouts d s
  -- Both passes start outside of subqueries and without output.
  have start : S.rel ⟨.empty, .empty, 0⟩ (.new d { s with formatted := false }) (.new d { s with formatted := true }) :=
    ⟨⟨rfl, rfl, rfl, rfl⟩, rfl, rfl, rfl, rfl, .refl d s _⟩
  have both := Simulation.Step.node n.reach n start
  change S.Outcome _ (n.write (.new d { s with formatted := false })) (n.write (.new d { s with formatted := true }))
    at both
  unfold Node.render
  rcases both.cases with ⟨_, c, c', hr, hr', hc⟩ | ⟨e, c, c', hr, hr', _⟩
  · obtain ⟨_, _, _, _, _, l, ho, ho'⟩ := hc
    rw [hr, hr']
    refine ⟨l, ?_, ?_⟩
    · rw [Context.finish, ho, Output.finish_writeAll, Layout.allChars_pieces d rfl, Layout.bound_pieces rfl]
      rfl
    · rw [Context.finish, ho', Output.finish_writeAll, Layout.allChars_pieces d rfl, Layout.bound_pieces rfl]
      rfl
  · rw [hr, hr']

end SqlDialects
