import SqlDialects.Render.Query

/-!
# Templates without a memory

A template renders each substitute once, in a detached context, and keeps the outcome for the next
reference to it. Keeping it changes nothing (`Visitor.template_eq_splices`): a detached context starts
without output, and output is all that changes in the parent between two references. This holds for any
visitor, so nothing about the rendering of fields is needed.
-/

set_option autoImplicit false

namespace SqlDialects

/-- A step in a detached context, whose output is appended if it succeeds. -/
def Render.splice (step : Render Unit) : Render Unit := Render.detached step >>= Render.absorb

/-- Writes a segment of a template, rendering a substitute at each reference to it. -/
def Visitor.spliced (visit : Visitor) (substitutes : List Field) : Segment → Render Unit
  | .text t => Render.sql t
  | .substitute i =>
    match substitutes[i]? with
    | none => throw (.missingSubstitute i substitutes.length)
    | some x => Render.splice (visit.field x)

theorem Visitor.spliced_missing (visit : Visitor) {substitutes : List Field} {i : Nat}
    (h : substitutes[i]? = none) :
    visit.spliced substitutes (.substitute i) = throw (.missingSubstitute i substitutes.length) := by
  rw [Visitor.spliced, h]

theorem Visitor.spliced_some (visit : Visitor) {substitutes : List Field} {i : Nat} {x : Field}
    (h : substitutes[i]? = some x) :
    visit.spliced substitutes (.substitute i) = Render.splice (visit.field x) := by
  rw [Visitor.spliced, h]

theorem Render.splice_apply (step : Render Unit) (c : Context) :
    Render.splice step c
      = match step (c.detached true) with
        | .ok _ child => .ok () (c.absorb child)
        | .error e _ => .error e c := by
  show EStateM.bind (Render.detached step) Render.absorb c = _
  unfold EStateM.bind Render.detached
  cases step (c.detached true) <;> rfl

theorem Visitor.forM_spliced_cons (visit : Visitor) (substitutes : List Field) (s : Segment)
    (ss : List Segment) (c : Context) :
    (s :: ss).forM (visit.spliced substitutes) c
      = match visit.spliced substitutes s c with
        | .ok _ c' => ss.forM (visit.spliced substitutes) c'
        | .error e c' => .error e c' := by
  show EStateM.bind (visit.spliced substitutes s) (fun _ => ss.forM _) c = _
  unfold EStateM.bind
  cases visit.spliced substitutes s c <;> rfl

theorem Visitor.segments_kept {visit : Visitor} {substitutes : List Field}
    {rendered : List (Option Context)} {i : Nat} {x : Field} {child : Context}
    (hx : substitutes[i]? = some x) (hr : rendered[i]?.join = some child) (ss : List Segment)
    (c : Context) :
    visit.segments substitutes rendered (.substitute i :: ss) c
      = visit.segments substitutes rendered ss (c.absorb child) := by
  rw [Visitor.segments, hx, hr]
  rfl

theorem Visitor.segments_fresh {visit : Visitor} {substitutes : List Field}
    {rendered : List (Option Context)} {i : Nat} {x : Field} (hx : substitutes[i]? = some x)
    (hr : rendered[i]?.join = none) (ss : List Segment) (c : Context) :
    visit.segments substitutes rendered (.substitute i :: ss) c
      = match visit.field x (c.detached true) with
        | .ok _ child => visit.segments substitutes (rendered.set i (some child)) ss (c.absorb child)
        | .error e _ => .error e c := by
  rw [Visitor.segments, hx, hr]
  show EStateM.bind (Render.detached (visit.field x)) _ c = _
  unfold EStateM.bind Render.detached
  cases visit.field x (c.detached true) <;> rfl

/-- The contexts kept for substitutes are those that rendering them in a context gives. -/
structure Visitor.Kept (visit : Visitor) (substitutes : List Field) (rendered : List (Option Context))
    (c : Context) : Prop where
  length_eq : rendered.length = substitutes.length
  rendering : ∀ (i : Nat) (x : Field) (child : Context), substitutes[i]? = some x →
    rendered[i]? = some (some child) → visit.field x (c.detached true) = .ok () child

/-- Writing moves no detached context. -/
theorem Visitor.Kept.of_detached_eq {visit : Visitor} {substitutes : List Field}
    {rendered : List (Option Context)} {c c' : Context} (h : visit.Kept substitutes rendered c)
    (hc : c'.detached true = c.detached true) : visit.Kept substitutes rendered c' :=
  ⟨h.length_eq, fun i x child hx hr => by rw [hc]; exact h.rendering i x child hx hr⟩

theorem Visitor.Kept.set {visit : Visitor} {substitutes : List Field}
    {rendered : List (Option Context)} {c child : Context} {i : Nat} {x : Field}
    (h : visit.Kept substitutes rendered c) (hx : substitutes[i]? = some x)
    (hv : visit.field x (c.detached true) = .ok () child) :
    visit.Kept substitutes (rendered.set i (some child)) c := by
  have hi : i < rendered.length := by
    rw [h.length_eq]
    exact (List.getElem?_eq_some_iff.1 hx).1
  refine ⟨by rw [List.length_set, h.length_eq], ?_⟩
  intro j y k hy hk
  by_cases hij : i = j
  · subst hij
    rw [List.getElem?_set_self hi] at hk
    rw [hx] at hy
    simp only [Option.some.injEq] at hy hk
    rw [← hy, ← hk]
    exact hv
  · rw [List.getElem?_set_ne hij] at hk
    exact h.rendering j y k hy hk

/-- A substitute that was rendered is kept until the end: the detached contexts of the parent are the same
throughout. -/
theorem Visitor.segments_eq_splices (visit : Visitor) (substitutes : List Field) (c : Context)
    (rendered : List (Option Context)) (ss : List Segment) (kept : visit.Kept substitutes rendered c) :
    visit.segments substitutes rendered ss c = ss.forM (visit.spliced substitutes) c := by
  induction ss generalizing c rendered with
  | nil => rfl
  | cons s ss ih =>
    cases s with
    | text t => exact ih (c.write (.text t)) rendered (kept.of_detached_eq rfl)
    | substitute i =>
      rw [Visitor.forM_spliced_cons]
      cases hx : substitutes[i]? with
      | none =>
        rw [Visitor.segments, visit.spliced_missing hx, hx]
        rfl
      | some x =>
        rw [visit.spliced_some hx, Render.splice_apply]
        -- A kept rendering is used in place of a new one, and the two are the same.
        cases hr : rendered[i]?.join with
        | some child =>
          have hv := kept.rendering i x child hx (Option.join_eq_some_iff.1 hr)
          rw [Visitor.segments_kept hx hr, hv]
          exact ih (c.absorb child) rendered (kept.of_detached_eq rfl)
        | none =>
          rw [Visitor.segments_fresh hx hr]
          cases hv : visit.field x (c.detached true) with
          | error e k => rfl
          | ok u child =>
            exact ih (c.absorb child) _ ((kept.set hx hv).of_detached_eq rfl)

/-- Writing a template is writing its segments one by one. -/
theorem Visitor.template_eq_splices (visit : Visitor) (t : Template) :
    visit.template t
      = if t.verbatim then Render.sql t.text
        else (Segment.ofTemplate t.text).forM (visit.spliced t.substitutes) := by
  unfold Visitor.template
  split
  · rfl
  · funext c
    refine visit.segments_eq_splices t.substitutes c _ _ ⟨by simp, ?_⟩
    intro i x child hx hk
    rw [List.getElem?_map, hx] at hk
    cases hk

end SqlDialects
