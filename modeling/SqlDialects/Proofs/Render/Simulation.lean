import SqlDialects.Render.Query

/-!
# Two render passes side by side

Most of what can be said about rendering compares two passes: under two settings, with two visitors, from
two contexts that differ in a part that rendering does not look at. Such a comparison is a **simulation**: a
relation between the contexts of the passes that every primitive step keeps. Whatever is put together from
primitive steps then keeps it as well, ends in the same way on both sides and with the same value
(`Simulation.Step`).

A relation may depend on a *world*. A step on a query level or a level of indentation of its own, under other
flags or in a detached context, moves to another world and comes back, so that a relation can say how deep the
pass is. A step that fails does not close what it has opened except for query levels and flags, so of the
relation only a part need survive a failure. Fields are declared by a flag, and a relation may be one of passes that
set it in some worlds only; unless it says so, they set it anywhere.

Two passes that declare the same names and write the same pieces are in **lockstep** (`Lockstep`), which is a
simulation with less to show.
-/

set_option autoImplicit false

namespace SqlDialects

/-- Two contexts from which the same is written next: they differ in what has been written, in the settings
of its spelling and in the data of callers only. -/
structure Context.Alike (c c' : Context) : Prop where
  dialect : c.dialect = c'.dialect
  indent : c.indent = c'.indent
  flags : c.flags = c'.flags
  scopes : c.scopes = c'.scopes

/-- Two contexts of which a pass reads the same wherever it stands. What the current level declares is read only
on a query level that the pass has opened itself. -/
structure Context.Agree (c c' : Context) : Prop where
  dialect : c.dialect = c'.dialect
  indent : c.indent = c'.indent
  flags : c.flags = c'.flags
  isOpen : c.scopes.isOpen = c'.scopes.isOpen
  freshAlias : ∀ stem, c.freshAlias stem = c'.freshAlias stem

/-- Whether a piece is a mark where a line may break. -/
def Piece.isMark : Piece → Bool
  | gap _ | edge _ => true
  | text _ | name _ | literal _ | bind _ => false

/-- The context behind the opening parenthesis of a subquery. -/
def Context.enterSubquery (c : Context) : Context :=
  Context.write { c.write (.text "(") with indent := c.indent + 1 } (.edge (c.indent + 1))

/-- The context behind the closing one. -/
def Context.leaveSubquery (c : Context) : Context :=
  Context.write (Context.write { c with indent := c.indent - 1 } (.edge (c.indent - 1))) (.text ")")

/-- A relation between the contexts of two passes that every primitive step keeps. The flag that declares fields is
set in the given worlds only. -/
structure Simulation (ι : Type) (declaring : ι → Prop := fun _ => True) where
  rel : ι → Context → Context → Prop
  /-- What is left of the relation once a step has failed. -/
  failed : ι → Context → Context → Prop
  /-- The worlds on a query level of the pass. Only there a name is declared that was not made up, and only
  there the names of the current level are read. -/
  onLevel : ι → Prop
  fail : ∀ {i c c'}, rel i c c' → failed i c c'
  agree : ∀ {i c c'}, rel i c c' → c.Agree c'
  current : ∀ {i c c'}, onLevel i → rel i c c' → ∀ n, c.scopes.getCurrent? n = c'.scopes.getCurrent? n
  write : ∀ {i c c'} (p : Piece), p.isMark = false → rel i c c' → rel i (c.write p) (c'.write p)
  gap : ∀ {i c c'}, rel i c c' → rel i (c.write (.gap c.indent)) (c'.write (.gap c'.indent))
  declare : ∀ {i c c'} (n : String) (d : Declaration), onLevel i → rel i c c' →
    rel i (c.declare n d) (c'.declare n d)
  generate : ∀ {i c c'} (stem : String), rel i c c' →
    rel i (c.declare (c.freshAlias stem) .generated) (c'.declare (c'.freshAlias stem) .generated)
  /-- The inside of a subquery is a world of its own, and its parenthesis leads back. A failed step leaves it
  open. -/
  subquery : ∀ {i c c'}, rel i c c' →
    ∃ j, rel j c.enterSubquery c'.enterSubquery ∧
      (∀ k k', rel j k k' → rel i k.leaveSubquery k'.leaveSubquery) ∧
      ∀ k k', failed j k k' → failed i k k'
  declares : ∀ {i c c'}, rel i c c' → c.flags.declareFields = true → declaring i := by intros; trivial
  /-- So are other flags, and those from before lead back. -/
  underFlags : ∀ {i c c'} (flags : RenderFlags), (flags.declareFields = true → declaring i) → rel i c c' →
    ∃ j, (onLevel i → onLevel j) ∧ rel j { c with flags := flags } { c' with flags := flags } ∧
      (∀ k k', rel j k k' → rel i { k with flags := c.flags } { k' with flags := c'.flags }) ∧
      ∀ k k', failed j k k' → failed i { k with flags := c.flags } { k' with flags := c'.flags }
  /-- So is a query level. -/
  level : ∀ {i c c'}, rel i c c' →
    ∃ j, onLevel j ∧ rel j { c with scopes := c.scopes.start } { c' with scopes := c'.scopes.start } ∧
      (∀ k k', rel j k k' → rel i { k with scopes := k.scopes.finish } { k' with scopes := k'.scopes.finish }) ∧
      ∀ k k', failed j k k' →
        failed i { k with scopes := k.scopes.finish } { k' with scopes := k'.scopes.finish }
  /-- So is a detached context, and what was written in it can be appended to the parent. -/
  detach : ∀ {i c c'}, rel i c c' →
    ∃ j, rel j (c.detached true) (c'.detached true) ∧
      ∀ k k', rel j k k' → rel i (c.absorb k) (c'.absorb k')

/-- A relation between contexts with the same names that is kept whatever is declared and written. -/
structure Lockstep (ι : Type) where
  rel : ι → Context → Context → Prop
  failed : ι → Context → Context → Prop
  fail : ∀ {i c c'}, rel i c c' → failed i c c'
  alike : ∀ {i c c'}, rel i c c' → c.Alike c'
  write : ∀ {i c c'} (p : Piece), rel i c c' → rel i (c.write p) (c'.write p)
  declare : ∀ {i c c'} (n : String) (d : Declaration), rel i c c' → rel i (c.declare n d) (c'.declare n d)
  /-- A level of indentation is a world of its own, and closing it leads back. A failed step leaves it open. -/
  deeper : ∀ {i c c'}, rel i c c' →
    ∃ j, rel j { c with indent := c.indent + 1 } { c' with indent := c'.indent + 1 } ∧
      (∀ k k', rel j k k' → rel i { k with indent := k.indent - 1 } { k' with indent := k'.indent - 1 }) ∧
      ∀ k k', failed j k k' → failed i k k'
  underFlags : ∀ {i c c'} (flags : RenderFlags), rel i c c' →
    ∃ j, rel j { c with flags := flags } { c' with flags := flags } ∧
      (∀ k k', rel j k k' → rel i { k with flags := c.flags } { k' with flags := c'.flags }) ∧
      ∀ k k', failed j k k' → failed i { k with flags := c.flags } { k' with flags := c'.flags }
  level : ∀ {i c c'}, rel i c c' →
    ∃ j, rel j { c with scopes := c.scopes.start } { c' with scopes := c'.scopes.start } ∧
      (∀ k k', rel j k k' → rel i { k with scopes := k.scopes.finish } { k' with scopes := k'.scopes.finish }) ∧
      ∀ k k', failed j k k' →
        failed i { k with scopes := k.scopes.finish } { k' with scopes := k'.scopes.finish }
  detach : ∀ {i c c'}, rel i c c' →
    ∃ j, rel j (c.detached true) (c'.detached true) ∧
      ∀ k k', rel j k k' → rel i (c.absorb k) (c'.absorb k')

theorem Render.bind_ok {α β : Type} {m : Render α} {f : α → Render β} {c k : Context} {a : α} (h : m c = .ok a k) :
    (m >>= f) c = f a k := by
  show EStateM.bind m f c = _
  rw [EStateM.bind, h]

theorem Render.bind_error {α β : Type} {m : Render α} {f : α → Render β} {c k : Context} {e : RenderError}
    (h : m c = .error e k) : (m >>= f) c = .error e k := by
  show EStateM.bind m f c = _
  rw [EStateM.bind, h]

theorem Render.subquery_apply (step : Render Unit) (c : Context) :
    Render.subquery step c
      = match step c.enterSubquery with
        | .ok _ k => .ok () k.leaveSubquery
        | .error e k => .error e k := by
  show EStateM.bind step (fun _ => do Render.indentEnd; Render.sql ")") c.enterSubquery = _
  unfold EStateM.bind
  cases step c.enterSubquery <;> rfl

theorem Context.Alike.freshAlias {c c' : Context} (h : c.Alike c') (stem : String) :
    c.freshAlias stem = c'.freshAlias stem := by
  simp only [Context.freshAlias, visibleNames, h.scopes]

theorem Context.Alike.agree {c c' : Context} (h : c.Alike c') : c.Agree c' where
  dialect := h.dialect
  indent := h.indent
  flags := h.flags
  isOpen := by rw [h.scopes]
  freshAlias := h.freshAlias

/-- Passes in lockstep read the same names, so no world is set apart. -/
def Lockstep.simulation {ι : Type} (L : Lockstep ι) : Simulation ι where
  rel := L.rel
  failed := L.failed
  onLevel _ := True
  fail := L.fail
  agree h := (L.alike h).agree
  current _ h n := by rw [(L.alike h).scopes]
  write p _ h := L.write p h
  gap h := by
    rw [← (L.alike h).indent]
    exact L.write _ h
  declare n d _ h := L.declare n d h
  generate stem h := by
    rw [← (L.alike h).freshAlias]
    exact L.declare _ _ h
  subquery := by
    intro i c c' h
    obtain ⟨j, hj, back, failed⟩ := L.deeper (L.write (.text "(") h)
    refine ⟨j, ?_, ?_, failed⟩
    · have mark : Piece.edge (c.indent + 1) = .edge (c'.indent + 1) := by rw [(L.alike h).indent]
      show L.rel j (Context.write _ (.edge (c.indent + 1))) (Context.write _ (.edge (c'.indent + 1)))
      rw [← mark]
      exact L.write _ hj
    · intro k k' hk
      have mark : Piece.edge (k.indent - 1) = .edge (k'.indent - 1) := by rw [(L.alike hk).indent]
      refine L.write _ ?_
      show L.rel i (Context.write _ (.edge (k.indent - 1))) (Context.write _ (.edge (k'.indent - 1)))
      rw [← mark]
      exact L.write _ (back k k' hk)
  underFlags flags _ h := by
    obtain ⟨j, hj, back, failed⟩ := L.underFlags flags h
    exact ⟨j, fun _ => trivial, hj, back, failed⟩
  level h := by
    obtain ⟨j, hj, back, failed⟩ := L.level h
    exact ⟨j, trivial, hj, back, failed⟩
  detach := L.detach

namespace Simulation

variable {ι : Type} {declaring : ι → Prop} (S : Simulation ι declaring)

/-- Two ends of a step: both in success with the same value, in related contexts, or both in the same error. -/
def Outcome (i : ι) {α : Type} :
    EStateM.Result RenderError Context α → EStateM.Result RenderError Context α → Prop
  | .ok a c, .ok a' c' => a = a' ∧ S.rel i c c'
  | .error e c, .error e' c' => e = e' ∧ S.failed i c c'
  | _, _ => False

/-- Two steps that, from related contexts, end alike. -/
def Step (i : ι) {α : Type} (m m' : Render α) : Prop :=
  ∀ ⦃c c'⦄, S.rel i c c' → S.Outcome i (m c) (m' c')

/-- Two visitors that write a node alike, in every world. -/
def Same (visit visit' : Visitor) (n : Node) : Prop := ∀ i, S.Step i (visit n) (visit' n)

/-! ## Primitive steps -/

variable {S} {i : ι}

theorem Outcome.cases {α : Type} {r r' : EStateM.Result RenderError Context α} (h : S.Outcome i r r') :
    (∃ a c c', r = .ok a c ∧ r' = .ok a c' ∧ S.rel i c c') ∨
      (∃ e c c', r = .error e c ∧ r' = .error e c' ∧ S.failed i c c') := by
  cases r with
  | ok a c =>
    cases r' with
    | ok a' c' =>
      obtain ⟨ha, hc⟩ := h
      exact .inl ⟨a, c, c', rfl, by rw [ha], hc⟩
    | error e' c' => exact absurd h (fun hf => hf)
  | error e c =>
    cases r' with
    | ok a' c' => exact absurd h (fun hf => hf)
    | error e' c' =>
      obtain ⟨he, hc⟩ := h
      exact .inr ⟨e, c, c', rfl, by rw [he], hc⟩

namespace Step

theorem pure {α : Type} (a : α) : S.Step i (Pure.pure a) (Pure.pure a) :=
  fun _ _ hc => ⟨rfl, hc⟩

theorem throw {α : Type} (e : RenderError) : S.Step i (α := α) (MonadExcept.throw e) (MonadExcept.throw e) :=
  fun _ _ hc => ⟨rfl, S.fail hc⟩

/-- What follows a step is compared for the values only that the step can return. -/
theorem bindReturned {α β : Type} {m m' : Render α} {f f' : α → Render β} (hm : S.Step i m m')
    (hf : ∀ a, (∃ c k, m c = .ok a k) → S.Step i (f a) (f' a)) : S.Step i (m >>= f) (m' >>= f') := by
  intro c c' hc
  rcases (hm hc).cases with ⟨a, k, k', hr, hr', hk⟩ | ⟨e, k, k', hr, hr', hk⟩
  · rw [Render.bind_ok hr, Render.bind_ok hr']
    exact hf a ⟨c, k, hr⟩ hk
  · rw [Render.bind_error hr, Render.bind_error hr']
    exact ⟨rfl, hk⟩

theorem bind {α β : Type} {m m' : Render α} {f f' : α → Render β} (hm : S.Step i m m')
    (hf : ∀ a, S.Step i (f a) (f' a)) : S.Step i (m >>= f) (m' >>= f') :=
  .bindReturned hm fun a _ => hf a

theorem dialect : S.Step i Render.dialect Render.dialect :=
  fun _ _ hc => ⟨(S.agree hc).dialect, hc⟩

theorem flags : S.Step i Render.flags Render.flags :=
  fun _ _ hc => ⟨(S.agree hc).flags, hc⟩

/-- What follows on the flags is told where fields are declared. -/
theorem bindFlags {α : Type} {f f' : RenderFlags → Render α}
    (hf : ∀ flags, (flags.declareFields = true → declaring i) → S.Step i (f flags) (f' flags)) :
    S.Step i (Render.flags >>= f) (Render.flags >>= f') := by
  intro c c' hc
  show S.Outcome i (f c.flags c) (f' c'.flags c')
  rw [← (S.agree hc).flags]
  exact hf c.flags (S.declares hc) hc

/-- What follows on the scopes may differ in what it is given, as long as it reads the same of it. -/
theorem bindScopes {α : Type} {f f' : ScopeStack String Declaration → Render α}
    (hf : ∀ s s' : ScopeStack String Declaration, s.isOpen = s'.isOpen →
      (S.onLevel i → ∀ n, s.getCurrent? n = s'.getCurrent? n) → S.Step i (f s) (f' s')) :
    S.Step i (Render.scopes >>= f) (Render.scopes >>= f') := by
  intro c c' hc
  exact hf c.scopes c'.scopes (S.agree hc).isOpen (fun hl => S.current hl hc) hc

theorem write (p : Piece) (hp : p.isMark = false := by rfl) : S.Step i (Render.write p) (Render.write p) :=
  fun _ _ hc => ⟨rfl, S.write p hp hc⟩

theorem sql (text : String) : S.Step i (Render.sql text) (Render.sql text) := write _

theorem name (n : String) : S.Step i (Render.name n) (Render.name n) := write _

theorem literal (v : Value) : S.Step i (Render.literal v) (Render.literal v) := write _

theorem declare (n : String) (d : Declaration) (hl : S.onLevel i) :
    S.Step i (Render.declare n d) (Render.declare n d) :=
  fun _ _ hc => ⟨rfl, S.declare n d hl hc⟩

theorem gap : S.Step i Render.gap Render.gap :=
  fun _ _ hc => ⟨rfl, S.gap hc⟩

theorem freshAlias (stem : String) : S.Step i (Render.freshAlias stem) (Render.freshAlias stem) :=
  fun _ _ hc => ⟨(S.agree hc).freshAlias stem, S.generate stem hc⟩

/-! ## Steps around a step -/

theorem withFlags {α : Type} (flags : RenderFlags) {m m' : Render α}
    (hd : flags.declareFields = true → declaring i) (hm : ∀ j, (S.onLevel i → S.onLevel j) → S.Step j m m') :
    S.Step i (Render.withFlags flags m) (Render.withFlags flags m') := by
  intro c c' hc
  obtain ⟨j, hl, hj, back, failed⟩ := S.underFlags flags hd hc
  show S.Outcome i (Render.withFlags flags m c) (Render.withFlags flags m' c')
  unfold Render.withFlags
  rcases (hm j hl hj).cases with ⟨a, k, k', hr, hr', hk⟩ | ⟨e, k, k', hr, hr', hk⟩
  · rw [hr, hr']
    exact ⟨rfl, back k k' hk⟩
  · rw [hr, hr']
    exact ⟨rfl, failed k k' hk⟩

theorem onQueryLevel {α : Type} {m m' : Render α} (hm : ∀ j, S.onLevel j → S.Step j m m') :
    S.Step i (Render.onQueryLevel m) (Render.onQueryLevel m') := by
  intro c c' hc
  obtain ⟨j, hl, hj, back, failed⟩ := S.level hc
  show S.Outcome i (Render.onQueryLevel m c) (Render.onQueryLevel m' c')
  unfold Render.onQueryLevel
  rcases (hm j hl hj).cases with ⟨a, k, k', hr, hr', hk⟩ | ⟨e, k, k', hr, hr', hk⟩
  · rw [hr, hr']
    exact ⟨rfl, back k k' hk⟩
  · rw [hr, hr']
    exact ⟨rfl, failed k k' hk⟩

theorem unsupported {α : Type} (construct : String) :
    S.Step i (α := α) (Render.unsupported construct) (Render.unsupported construct) :=
  .bind .dialect fun _ => .throw _

theorem demand (available : Bool) (construct : String) :
    S.Step i (Render.demand available construct) (Render.demand available construct) := by
  unfold Render.demand
  split
  · exact .pure ()
  · exact .unsupported construct

theorem when {condition : Bool} {m m' : Render Unit} (hm : condition = true → S.Step i m m') :
    S.Step i (Render.when condition m) (Render.when condition m') := by
  unfold Render.when
  split
  · next h => exact hm h
  · exact .pure ()

theorem onSome {α : Type} {value : Option α} {f f' : α → Render Unit}
    (hf : ∀ a ∈ value, S.Step i (f a) (f' a)) :
    S.Step i (Render.onSome value f) (Render.onSome value f') := by
  cases value with
  | none => exact .pure ()
  | some a => exact hf a rfl

theorem parenthesized {m m' : Render Unit} (hm : S.Step i m m') :
    S.Step i (Render.parenthesized m) (Render.parenthesized m') :=
  .bind (.sql _) fun _ => .bind hm fun _ => .sql _

theorem subquery {m m' : Render Unit} (hm : ∀ j, S.Step j m m') :
    S.Step i (Render.subquery m) (Render.subquery m') := by
  intro c c' hc
  obtain ⟨j, hj, back, failed⟩ := S.subquery hc
  rw [Render.subquery_apply, Render.subquery_apply]
  rcases (hm j hj).cases with ⟨a, k, k', hr, hr', hk⟩ | ⟨e, k, k', hr, hr', hk⟩
  · rw [hr, hr']
    exact ⟨rfl, back k k' hk⟩
  · rw [hr, hr']
    exact ⟨rfl, failed k k' hk⟩

/-- Steps with a text between them, one for each member of a list. -/
theorem separated {α : Type} (between : String) {xs : List α} {f f' : α → Render Unit}
    (h : ∀ x ∈ xs, S.Step i (f x) (f' x)) :
    S.Step i (Render.separated between (xs.map f)) (Render.separated between (xs.map f')) := by
  induction xs with
  | nil => exact .pure ()
  | cons x xs ih =>
    have hx := h x (by simp)
    have hxs := ih fun y hy => h y (by simp [hy])
    cases xs with
    | nil => exact hx
    | cons y ys => exact .bind hx fun _ => .bind (.sql _) fun _ => hxs

theorem nameList (names : List String) : S.Step i (Render.nameList names) (Render.nameList names) :=
  .parenthesized (.separated _ fun n _ => .name n)

theorem forM {α : Type} {xs : List α} {f f' : α → Render PUnit} (h : ∀ x ∈ xs, S.Step i (f x) (f' x)) :
    S.Step i (xs.forM f) (xs.forM f') := by
  induction xs with
  | nil => exact .pure ()
  | cons x xs ih => exact .bind (h x (by simp)) fun _ => ih fun y hy => h y (by simp [hy])

end Step

end Simulation

end SqlDialects
