import SqlDialects.Proofs.Render.Effect
import SqlDialects.Proofs.Render.Splice
import SqlDialects.Proofs.Scope.Above

/-!
# Detached passes and templates

A template renders its substitutes in detached contexts, which have the names of their parent on one level and
start without output. That is only a way to write a substitute several times: a node that is written in a detached
context ends as it does in the parent, and has written the same (`Node.write_detached`). Neither can the flattened
scopes be told from the others, since only the names that are visible and the level of the pass itself are ever
read, nor does it matter where the output begins.

So a template appends its text and, at each reference, what the substitute would append in the context that the
template is met in (`Template.write_eq_appended`).
-/

set_option autoImplicit false

namespace SqlDialects

/-! ## A pass and a detached one -/

/-- Where a detached pass is: the output of its parent when it began, and how many levels it has opened since. -/
structure Detachment where
  before : Output
  levels : Nat

/-- A context beside that of a detached pass, which lacks the output of its parent and may have the outer names on
other levels. -/
structure Detachment.Beside (i : Detachment) (c c' : Context) : Prop where
  output : c.output = i.before.absorb c'.output
  dialect : c.dialect = c'.dialect
  settings : c.settings = c'.settings
  indent : c.indent = c'.indent
  flags : c.flags = c'.flags
  scopes : ScopeStack.AlikeAbove i.levels c.scopes c'.scopes

namespace Detachment.Beside

variable {i : Detachment} {c c' k k' : Context}

theorem freshAlias (h : i.Beside c c') (stem : String) : c.freshAlias stem = c'.freshAlias stem :=
  Context.freshAlias_congr h.scopes.tidy h.scopes.tidy' h.scopes.names stem

theorem write (h : i.Beside c c') (p : Piece) : i.Beside (c.write p) (c'.write p) := by
  refine ⟨?_, h.dialect, h.settings, h.indent, h.flags, h.scopes⟩
  show c.output.write c.dialect c.settings p = _
  rw [h.output, h.dialect, h.settings, ← Output.absorb_write]
  rfl

theorem declare (h : i.Beside c c') (n : String) (d : Declaration) : i.Beside (c.declare n d) (c'.declare n d) :=
  ⟨h.output, h.dialect, h.settings, h.indent, h.flags, h.scopes.set n d⟩

theorem indented (h : i.Beside c c') {n n' : Nat} (hn : n = n') :
    i.Beside { c with indent := n } { c' with indent := n' } :=
  ⟨h.output, h.dialect, h.settings, hn, h.flags, h.scopes⟩

theorem underFlags (h : i.Beside c c') {flags flags' : RenderFlags} (hf : flags = flags') :
    i.Beside { c with flags := flags } { c' with flags := flags' } :=
  ⟨h.output, h.dialect, h.settings, h.indent, hf, h.scopes⟩

theorem edge (h : i.Beside c c') : i.Beside (c.write (.edge c.indent)) (c'.write (.edge c'.indent)) := by
  rw [← h.indent]
  exact h.write _

theorem enterSubquery (h : i.Beside c c') : i.Beside c.enterSubquery c'.enterSubquery :=
  ((h.write (.text "(")).indented (congrArg (· + 1) h.indent)).edge

theorem leaveSubquery (h : i.Beside c c') : i.Beside c.leaveSubquery c'.leaveSubquery :=
  (h.indented (congrArg (· - 1) h.indent)).edge.write (.text ")")

theorem start (h : i.Beside c c') : Beside { i with levels := i.levels + 1 } { c with scopes := c.scopes.start }
    { c' with scopes := c'.scopes.start } :=
  ⟨h.output, h.dialect, h.settings, h.indent, h.flags, h.scopes.start⟩

theorem finish (h : Beside { i with levels := i.levels + 1 } c c') :
    i.Beside { c with scopes := c.scopes.finish } { c' with scopes := c'.scopes.finish } :=
  ⟨h.output, h.dialect, h.settings, h.indent, h.flags, h.scopes.finish⟩

/-- Detached passes within both passes start alike. -/
theorem detached (h : i.Beside c c') : Beside ⟨.empty, 0⟩ (c.detached true) (c'.detached true) :=
  ⟨(Output.empty_absorb _).symm, h.dialect, h.settings, h.indent, h.flags, h.scopes.flatten⟩

theorem absorb (h : i.Beside c c') {levels : Nat} (hk : Beside ⟨.empty, levels⟩ k k') :
    i.Beside (c.absorb k) (c'.absorb k') := by
  refine ⟨?_, h.dialect, h.settings, h.indent, h.flags, h.scopes⟩
  show c.output.absorb k.output = i.before.absorb (c'.output.absorb k'.output)
  rw [hk.output, h.output, Output.empty_absorb, Output.absorb_assoc]

end Detachment.Beside

/-- A pass beside a detached one. -/
def Simulation.detachment : Simulation Detachment where
  rel i c c' := i.Beside c c'
  failed _ _ _ := True
  onLevel i := 0 < i.levels
  fail _ := trivial
  agree h := ⟨h.dialect, h.indent, h.flags, h.scopes.isOpen, h.freshAlias⟩
  current hl h n := h.scopes.current hl n
  write p _ h := h.write p
  gap h := by
    rw [← h.indent]
    exact h.write _
  declare n d _ h := h.declare n d
  generate stem h := by
    rw [← h.freshAlias]
    exact h.declare _ _
  subquery := by
    intro i c c' h
    exact ⟨i, h.enterSubquery, fun k k' hk => hk.leaveSubquery, fun _ _ _ => trivial⟩
  underFlags := by
    intro i c c' flags _ h
    exact ⟨i, id, h.underFlags rfl, fun k k' hk => hk.underFlags h.flags, fun _ _ _ => trivial⟩
  level := by
    intro i c c' h
    exact ⟨{ i with levels := i.levels + 1 }, Nat.succ_pos _, h.start, fun k k' hk => hk.finish, fun _ _ _ => trivial⟩
  detach := by
    intro i c c' h
    exact ⟨⟨.empty, 0⟩, h.detached, fun k k' hk => h.absorb hk⟩

/-- A node ends in a detached context as in its parent, and appends to the parent what it writes there. -/
theorem Node.write_detached (n : Node) {c : Context} (h : c.scopes.Tidy) :
    match n.write c, n.write (c.detached true) with
    | .ok _ k, .ok _ child => k.output = c.output.absorb child.output
    | .error e _, .error e' _ => e = e'
    | _, _ => False := by
  have start : Detachment.Beside ⟨c.output, 0⟩ c (c.detached true) :=
    ⟨(Output.absorb_empty _).symm, rfl, rfl, rfl, rfl, h.alike_flatten⟩
  have both := Simulation.Step.node (S := Simulation.detachment) (i := ⟨c.output, 0⟩) n.reach n start
  rw [Node.write]
  rcases both.cases with ⟨_, k, k', hr, hr', hk⟩ | ⟨e, k, k', hr, hr', -⟩
  · rw [hr, hr']
    exact hk.output
  · rw [hr, hr']

/-! ## Templates -/

/-- What an output has beyond one that it continues. -/
def Output.since (o before : Output) : Output :=
  { text := String.ofList (o.text.toList.drop before.text.length)
    binds := o.binds.drop before.binds.length
    placeholders := (o.placeholders.drop before.placeholders.length).map (· - before.text.utf8ByteSize) }

theorem Output.since_absorb (o k : Output) : (o.absorb k).since o = k := by
  have placeholders : ∀ n : Nat, (k.placeholders.map (n + ·)).map (· - n) = k.placeholders := by
    intro n
    rw [List.map_map]
    conv => rhs; rw [← List.map_id k.placeholders]
    apply List.map_congr_left
    intro p _
    exact Nat.add_sub_cancel_left n p
  simp only [since, absorb, String.toList_append, ← String.length_toList, List.drop_left, String.ofList_toList,
    placeholders]

/-- What a segment of a template appends to a context: its text, or what the substitute that it refers to appends
when it is written there. -/
def Segment.appended (c : Context) (substitutes : List Field) : Segment → Except RenderError Output
  | .text t => .ok ⟨t, [], []⟩
  | .substitute i =>
    match substitutes[i]? with
    | none => .error (.missingSubstitute i substitutes.length)
    | some x =>
      match (Node.field x).write c with
      | .ok _ c' => .ok (c'.output.since c.output)
      | .error e _ => .error e

section Segments

variable {c : Context} (h : c.scopes.Tidy) (substitutes : List Field)

include h

/-- A segment is spliced into a context with more output as it is appended to the context itself. -/
theorem Segment.spliced_eq_appended (s : Segment) (o : Output) :
    Visitor.spliced Node.write substitutes s { c with output := o }
      = match s.appended c substitutes with
        | .ok k => .ok () { c with output := o.absorb k }
        | .error e => .error e { c with output := o } := by
  cases s with
  | text t =>
    show EStateM.Result.ok () ({ c with output := o.append t } : Context) = _
    simp [appended, Output.append, Output.absorb]
  | substitute i =>
    cases hx : substitutes[i]? with
    | none =>
      rw [Visitor.spliced_missing _ hx, appended, hx]
      rfl
    | some x =>
      have both := (Node.field x).write_detached h
      -- A detached context has no output, so what was appended before does not matter to it.
      have hd : Context.detached { c with output := o } true = c.detached true := rfl
      rw [Visitor.spliced_some _ hx, Render.splice_apply, hd, appended, hx]
      dsimp only [Visitor.field]
      revert both
      cases (Node.field x).write c with
      | ok u k =>
        cases (Node.field x).write (c.detached true) with
        | ok v child =>
          intro both
          dsimp only
          rw [show k.output = _ from both, Output.since_absorb]
          rfl
        | error e child => exact False.elim
      | error e k =>
        cases (Node.field x).write (c.detached true) with
        | ok v child => exact False.elim
        | error e' child =>
          intro both
          dsimp only
          rw [show e = e' from both]

/-- So are segments one after the other, up to the first that fails. -/
theorem Segment.forM_spliced_eq_appended (ss : List Segment) (o : Output) :
    match ss.mapM (Segment.appended c substitutes) with
    | .ok outputs => ss.forM (Visitor.spliced Node.write substitutes) { c with output := o }
        = .ok () { c with output := outputs.foldl Output.absorb o }
    | .error e => ∃ c', ss.forM (Visitor.spliced Node.write substitutes) { c with output := o } = .error e c' := by
  induction ss generalizing o with
  | nil => rfl
  | cons s ss ih =>
    rw [List.mapM_cons, Visitor.forM_spliced_cons, Segment.spliced_eq_appended h substitutes]
    cases hs : s.appended c substitutes with
    | error e => exact ⟨_, rfl⟩
    | ok k =>
      have rest := ih (o.absorb k)
      show (match (do
          let outputs ← ss.mapM (Segment.appended c substitutes)
          pure (k :: outputs) : Except RenderError (List Output)) with
        | .ok outputs => _
        | .error e => _)
      cases hm : ss.mapM (Segment.appended c substitutes) with
      | error e =>
        rw [hm] at rest
        exact rest
      | ok outputs =>
        rw [hm] at rest
        exact rest

end Segments

/-- A template that is not taken verbatim appends its segments, as a field and as a condition: the text between the
references, and at each reference what the substitute appends when it is written in the context that the template
is met in. It fails with the error of the first reference that has no substitute or a failing one. -/
theorem Template.write_eq_appended (t : Template) {c : Context} (h : c.Arises) (ht : t.verbatim = false) :
    match (Segment.ofTemplate t.text).mapM (Segment.appended c t.substitutes) with
    | .ok outputs =>
      (Node.field (.raw t)).write c = .ok () { c with output := outputs.foldl Output.absorb c.output } ∧
        (Node.condition (.raw t)).write c = .ok () { c with output := outputs.foldl Output.absorb c.output }
    | .error e =>
      (∃ c', (Node.field (.raw t)).write c = .error e c') ∧ ∃ c', (Node.condition (.raw t)).write c = .error e c' := by
  have template : Visitor.template Node.write t
      = (Segment.ofTemplate t.text).forM (Visitor.spliced Node.write t.substitutes) := by
    rw [Visitor.template_eq_splices, if_neg (by simp [ht])]
  have field : (Node.field (.raw t)).write = Visitor.template Node.write t := Node.write_eq_parts _
  have condition : (Node.condition (.raw t)).write = Visitor.template Node.write t := Node.write_eq_parts _
  rw [field, condition, template]
  have segments := Segment.forM_spliced_eq_appended h.tidy t.substitutes (Segment.ofTemplate t.text) c.output
  cases hm : (Segment.ofTemplate t.text).mapM (Segment.appended c t.substitutes) with
  | ok outputs =>
    rw [hm] at segments
    exact ⟨segments, segments⟩
  | error e =>
    rw [hm] at segments
    exact ⟨segments, segments⟩

namespace Repeated

/-- A query level on which a value was bound already. -/
def level : Context :=
  Context.write { Context.new .postgres16 .default with scopes := ScopeStack.empty.start } (.bind (.int 7))

/-- A template with two references to one value. -/
def template : Template := { text := "{0} + {0}", substitutes := [.value (.int 1)], verbatim := false }

theorem segments_template : Segment.ofTemplate template.text = [.substitute 0, .text " + ", .substitute 0] := by
  decide +kernel

theorem appended_template : [Segment.substitute 0, .text " + ", .substitute 0].mapM
    (Segment.appended level template.substitutes)
      = .ok [⟨"", [.int 1], [0]⟩, ⟨" + ", [], []⟩, ⟨"", [.int 1], [0]⟩] := by
  have value : (Node.field (.value (.int 1))).write = Render.bind (.int 1) := Node.write_eq_parts _
  simp [Segment.appended, template, value]
  rfl

/-- The value is bound twice, and the second placeholder stands behind the text between them. -/
theorem write_template :
    (Node.field (.raw template)).write level
      = .ok () { level with output := ⟨" + ", [.int 7, .int 1, .int 1], [0, 0, 3]⟩ } := by
  have arises : level.Arises := .write _ (.start (.new .postgres16 .default))
  have appended := template.write_eq_appended arises rfl
  rw [segments_template, appended_template] at appended
  exact appended.1

end Repeated

end SqlDialects
