import SqlDialects.Proofs.Render.Parts

/-!
# What a writer visits

A writer is a program that is given a visitor and asks it to write other nodes. From a context it asks finitely often,
and what it is told decides what it does: a visitor that answers these visits alike leads to the same outcome
(`Settles`). This is so of every primitive step and of whatever is put together from such steps, and so of every writer,
whose visits are among those of `Node.Visits` (`VisitsFinitely.parts`).

No writer refuses a node for being nested too deeply. It ends so only if one of its visits does.
-/

set_option autoImplicit false

namespace SqlDialects

/-- A program from a context is settled by some visits, all of them of nodes that it may visit. -/
structure Settles {α : Type} (allowed : Node → Prop) (program : Visitor → Render α) (visit : Visitor) (c : Context)
    (visits : List (Node × Context)) : Prop where
  allowed : ∀ v ∈ visits, allowed v.1
  settled : ∀ visit' : Visitor, (∀ v ∈ visits, visit' v.1 v.2 = visit v.1 v.2) → program visit' c = program visit c
  exceeds : ∀ k, program visit c = .error .nestingExceeded k →
    ∃ v ∈ visits, ∃ k', visit v.1 v.2 = .error .nestingExceeded k'

/-- A program visits finitely many of the nodes that it may visit, whatever the visitor and the context. -/
def VisitsFinitely {α : Type} (allowed : Node → Prop) (program : Visitor → Render α) : Prop :=
  ∀ visit c, ∃ visits, Settles allowed program visit c visits

namespace VisitsFinitely

variable {allowed : Node → Prop} {α β : Type}

/-! ## Primitive steps -/

/-- A step that asks nothing. -/
theorem alone {step : Render α} (h : ∀ c k, step c = .error .nestingExceeded k → False) :
    VisitsFinitely allowed fun _ => step :=
  fun _ c => ⟨[], List.forall_mem_nil _, fun _ _ => rfl, fun k hk => (h c k hk).elim⟩

/-- A step that asks nothing and does not fail. -/
theorem total {step : Render α} (h : ∀ c, ∃ a k, step c = .ok a k) : VisitsFinitely allowed fun _ => step := by
  refine .alone fun c k hk => ?_
  obtain ⟨a, k', ha⟩ := h c
  rw [ha] at hk
  cases hk

theorem pure (a : α) : VisitsFinitely allowed fun _ => (Pure.pure a : Render α) := .total fun _ => ⟨_, _, rfl⟩

theorem throw {e : RenderError} (h : e ≠ .nestingExceeded) :
    VisitsFinitely allowed fun _ => (MonadExcept.throw e : Render α) := by
  refine .alone fun c k hk => h ?_
  injection hk

theorem visit {n : Node} (h : allowed n) : VisitsFinitely allowed fun visit => visit n := by
  intro visit c
  refine ⟨[(n, c)], List.forall_mem_singleton.2 h, fun visit' same => same (n, c) (List.mem_singleton_self _), ?_⟩
  exact fun k hk => ⟨(n, c), List.mem_singleton_self _, k, hk⟩

/-- What follows a step visits for the values only that the step can return. -/
theorem bindReturned {program : Visitor → Render α} {next : Visitor → α → Render β}
    (h : VisitsFinitely allowed program)
    (hn : ∀ a, (∃ visit c k, program visit c = .ok a k) → VisitsFinitely allowed fun visit => next visit a) :
    VisitsFinitely allowed fun visit => program visit >>= next visit := by
  intro visit c
  obtain ⟨visits, first⟩ := h visit c
  cases hp : program visit c with
  | error e k =>
    have run : ∀ visit', program visit' c = .error e k → (program visit' >>= next visit') c = .error e k :=
      fun _ => Render.bind_error
    refine ⟨visits, first.allowed, ?_, ?_⟩
    · intro visit' same
      have hp' : program visit' c = .error e k := (first.settled visit' same).trans hp
      rw [run visit' hp', run visit hp]
    · intro k' hk
      rw [run visit hp] at hk
      cases hk
      exact first.exceeds k hp
  | ok a k =>
    have run : ∀ visit', program visit' c = .ok a k → (program visit' >>= next visit') c = next visit' a k :=
      fun _ => Render.bind_ok
    obtain ⟨more, second⟩ := hn a ⟨visit, c, k, hp⟩ visit k
    refine ⟨visits ++ more, List.forall_mem_append.2 ⟨first.allowed, second.allowed⟩, ?_, ?_⟩
    · intro visit' same
      obtain ⟨same, same'⟩ := List.forall_mem_append.1 same
      have hp' : program visit' c = .ok a k := (first.settled visit' same).trans hp
      rw [run visit' hp', run visit hp]
      exact second.settled visit' same'
    · intro k' hk
      rw [run visit hp] at hk
      obtain ⟨v, hv, exceeded⟩ := second.exceeds k' hk
      exact ⟨v, List.mem_append_right _ hv, exceeded⟩

theorem bind {program : Visitor → Render α} {next : Visitor → α → Render β} (h : VisitsFinitely allowed program)
    (hn : ∀ a, VisitsFinitely allowed fun visit => next visit a) :
    VisitsFinitely allowed fun visit => program visit >>= next visit :=
  .bindReturned h fun a _ => hn a

/-- A program that runs another one from some context and decides by what comes of it, in the same way if that is too
deep a nesting. -/
theorem around {program : Visitor → Render α} {program' : Visitor → Render β} (enter : Context → Context)
    (decides : ∀ visit visit' c, program visit' (enter c) = program visit (enter c) →
      program' visit' c = program' visit c)
    (exceeds : ∀ visit c k, program' visit c = .error .nestingExceeded k →
      ∃ k', program visit (enter c) = .error .nestingExceeded k') (h : VisitsFinitely allowed program) :
    VisitsFinitely allowed program' := by
  intro visit c
  obtain ⟨visits, inner⟩ := h visit (enter c)
  refine ⟨visits, inner.allowed, fun visit' same => decides visit visit' c (inner.settled visit' same), ?_⟩
  intro k hk
  obtain ⟨k', hk'⟩ := exceeds visit c k hk
  exact inner.exceeds k' hk'

theorem dialect : VisitsFinitely allowed fun _ => Render.dialect := .total fun _ => ⟨_, _, rfl⟩

theorem flags : VisitsFinitely allowed fun _ => Render.flags := .total fun _ => ⟨_, _, rfl⟩

theorem scopes : VisitsFinitely allowed fun _ => Render.scopes := .total fun _ => ⟨_, _, rfl⟩

theorem write (p : Piece) : VisitsFinitely allowed fun _ => Render.write p := .total fun _ => ⟨_, _, rfl⟩

theorem sql (text : String) : VisitsFinitely allowed fun _ => Render.sql text := .write _

theorem name (n : String) : VisitsFinitely allowed fun _ => Render.name n := .write _

theorem literal (v : Value) : VisitsFinitely allowed fun _ => Render.literal v := .write _

theorem gap : VisitsFinitely allowed fun _ => Render.gap := .total fun _ => ⟨_, _, rfl⟩

theorem declare (n : String) (d : Declaration) : VisitsFinitely allowed fun _ => Render.declare n d :=
  .total fun _ => ⟨_, _, rfl⟩

theorem freshAlias (stem : String) : VisitsFinitely allowed fun _ => Render.freshAlias stem :=
  .total fun _ => ⟨_, _, rfl⟩

theorem unsupported (construct : String) :
    VisitsFinitely allowed fun _ => (Render.unsupported construct : Render α) :=
  .bind .dialect fun _ => .throw (by simp)

/-! ## Steps around a step -/

theorem ite {p : Prop} [Decidable p] {program program' : Visitor → Render α} (h : p → VisitsFinitely allowed program)
    (h' : ¬ p → VisitsFinitely allowed program') :
    VisitsFinitely allowed fun visit => if p then program visit else program' visit := by
  by_cases hp : p
  · simpa [hp] using h hp
  · simpa [hp] using h' hp

theorem demand (available : Bool) (construct : String) :
    VisitsFinitely allowed fun _ => Render.demand available construct :=
  .ite (fun _ => .pure ()) fun _ => .unsupported construct

theorem when {condition : Bool} {program : Visitor → Render Unit}
    (h : condition = true → VisitsFinitely allowed program) :
    VisitsFinitely allowed fun visit => Render.when condition (program visit) :=
  .ite h fun _ => .pure ()

theorem onSome {value : Option α} {program : Visitor → α → Render Unit}
    (h : ∀ a ∈ value, VisitsFinitely allowed fun visit => program visit a) :
    VisitsFinitely allowed fun visit => Render.onSome value (program visit) := by
  cases value with
  | none => exact .pure ()
  | some a => exact h a rfl

theorem withFlags (flags : RenderFlags) {program : Visitor → Render α} (h : VisitsFinitely allowed program) :
    VisitsFinitely allowed fun visit => Render.withFlags flags (program visit) := by
  refine .around (fun c => { c with flags := flags }) (fun visit visit' c same => ?_) (fun visit c k hk => ?_) h
  · simp only [Render.withFlags, same]
  · simp only [Render.withFlags] at hk
    split at hk
    · cases hk
    · next he =>
      cases hk
      exact ⟨_, he⟩

theorem onQueryLevel {program : Visitor → Render α} (h : VisitsFinitely allowed program) :
    VisitsFinitely allowed fun visit => Render.onQueryLevel (program visit) := by
  refine .around (fun c => { c with scopes := c.scopes.start }) (fun visit visit' c same => ?_)
    (fun visit c k hk => ?_) h
  · simp only [Render.onQueryLevel, same]
  · simp only [Render.onQueryLevel] at hk
    split at hk
    · cases hk
    · next he =>
      cases hk
      exact ⟨_, he⟩

theorem splice {program : Visitor → Render Unit} (h : VisitsFinitely allowed program) :
    VisitsFinitely allowed fun visit => Render.splice (program visit) := by
  refine .around (fun c => c.detached true) (fun visit visit' c same => ?_) (fun visit c k hk => ?_) h
  · simp only [Render.splice_apply, same]
  · simp only [Render.splice_apply] at hk
    split at hk
    · cases hk
    · next he =>
      cases hk
      exact ⟨_, he⟩

theorem parenthesized {program : Visitor → Render Unit} (h : VisitsFinitely allowed program) :
    VisitsFinitely allowed fun visit => Render.parenthesized (program visit) :=
  .bind (.sql _) fun _ => .bind h fun _ => .sql _

theorem subquery {program : Visitor → Render Unit} (h : VisitsFinitely allowed program) :
    VisitsFinitely allowed fun visit => Render.subquery (program visit) :=
  .bind (.sql _) fun _ => .bind (.total fun _ => ⟨_, _, rfl⟩) fun _ => .bind h fun _ =>
    .bind (.total fun _ => ⟨_, _, rfl⟩) fun _ => .sql _

theorem separated (between : String) {xs : List α} {program : Visitor → α → Render Unit}
    (h : ∀ x ∈ xs, VisitsFinitely allowed fun visit => program visit x) :
    VisitsFinitely allowed fun visit => Render.separated between (xs.map (program visit)) := by
  induction xs with
  | nil => exact .pure ()
  | cons x xs ih =>
    have hx := h x (by simp)
    have hxs := ih fun y hy => h y (by simp [hy])
    cases xs with
    | nil => exact hx
    | cons y ys => exact .bind hx fun _ => .bind (.sql _) fun _ => hxs

theorem nameList (names : List String) : VisitsFinitely allowed fun _ => Render.nameList names :=
  have each : ∀ n ∈ names, VisitsFinitely allowed fun _ => Render.name n := fun n _ => .name n
  .parenthesized (.separated ", " each)

theorem forM {xs : List α} {program : Visitor → α → Render PUnit}
    (h : ∀ x ∈ xs, VisitsFinitely allowed fun visit => program visit x) :
    VisitsFinitely allowed fun visit => xs.forM (program visit) := by
  induction xs with
  | nil => exact .pure ()
  | cons x xs ih => exact .bind (h x (by simp)) fun _ => ih fun y hy => h y (by simp [hy])

end VisitsFinitely

end SqlDialects
