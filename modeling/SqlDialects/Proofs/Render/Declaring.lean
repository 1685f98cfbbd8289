import SqlDialects.Proofs.Grammar.Token
import SqlDialects.Proofs.Render.Levels
import SqlDialects.Proofs.Render.Nested

/-!
# Where aliased fields are declared

An aliased field is written with its expression where it is an entry of a select list, and by its alias anywhere else.
Which of the two it is goes by a flag: a select sets it for an aliased entry, the field clears it for its inside, and
nested selects, common tables and detached contexts find it as they are entered.

`Render.positional` is the pass that has no use for the flag. It tells an entry from any other field by where it stands
in the query. Both passes write the same (`Node.write_eq_positional`), so the flag is set at the entries and nowhere
else. For an entry that has two aliases on each other both write the inner alias in the place of the expression, since
the inside of the entry is a place like any other.
-/

set_option autoImplicit false

namespace SqlDialects

open Render

/-! ## The pass without the flag -/

namespace Visitor

/-- Writes what an entry of a select list declares under its alias: the expression, or another alias in its place. -/
def declared (visit : Visitor) (x : Field) : Render Unit :=
  match x.alias? with
  | none => visit.field x.unaliased
  | some inner => name inner

def entry (visit : Visitor) : Field → Render Unit
  | .aliased x asName => do
    visit.declared x
    sql " AS "
    name asName
  | f => visit.field f

def entries (visit : Visitor) (fields : List Field) : Render Unit :=
  if fields.isEmpty then sql "*" else separated ", " (fields.map visit.entry)

end Visitor

/-- Writes a node that is no entry of a select list. -/
def Render.positional : Nat → Visitor
  | 0, _ => throw .nestingExceeded
  | _ + 1, .field (.aliased _ asName) => name asName
  | levels + 1, .select s =>
    Visitor.selectBy (Render.positional levels) (Visitor.entries (Render.positional levels) s.flattened) s
  | levels + 1, n => Visitor.parts (Render.positional levels) n

/-! ## Passes that declare nothing -/

/-- A pass beside itself where no fields are declared. The flags are known all along. -/
def Simulation.undeclared : Simulation RenderFlags (fun _ => False) where
  rel i c c' := c = c' ∧ c.flags = i ∧ i.declareFields = false
  failed i c c' := c = c' ∧ c.flags = i
  onLevel _ := True
  fail h := ⟨h.1, h.2.1⟩
  agree := by
    rintro i c _ ⟨rfl, -⟩
    exact ⟨rfl, rfl, rfl, rfl, fun _ => rfl⟩
  current := by
    rintro i c _ - ⟨rfl, -⟩ n
    rfl
  write := by
    rintro i c _ p - ⟨rfl, h⟩
    exact ⟨rfl, h⟩
  gap := by
    rintro i c _ ⟨rfl, h⟩
    exact ⟨rfl, h⟩
  declare := by
    rintro i c _ n d - ⟨rfl, h⟩
    exact ⟨rfl, h⟩
  generate := by
    rintro i c _ stem ⟨rfl, h⟩
    exact ⟨rfl, h⟩
  subquery := by
    rintro i c _ ⟨rfl, h⟩
    refine ⟨i, ⟨rfl, h⟩, ?_, fun _ _ hk => hk⟩
    rintro k _ ⟨rfl, hk⟩
    exact ⟨rfl, hk⟩
  declares := by
    rintro i c _ ⟨rfl, rfl, h⟩ hd
    rw [h] at hd
    cases hd
  underFlags := by
    rintro i c _ flags hd ⟨rfl, hi, h⟩
    refine ⟨flags, id, ⟨rfl, rfl, Bool.eq_false_iff.2 hd⟩, ?_, ?_⟩
    · rintro k _ ⟨rfl, -⟩
      exact ⟨rfl, hi, h⟩
    · rintro k _ ⟨rfl, -⟩
      exact ⟨rfl, hi⟩
  level := by
    rintro i c _ ⟨rfl, h⟩
    refine ⟨i, trivial, ⟨rfl, h⟩, ?_, ?_⟩
    · rintro k _ ⟨rfl, hk⟩
      exact ⟨rfl, hk⟩
    · rintro k _ ⟨rfl, hk⟩
      exact ⟨rfl, hk⟩
  detach := by
    rintro i c _ ⟨rfl, h⟩
    refine ⟨i, ⟨rfl, h⟩, ?_⟩
    rintro k _ ⟨rfl, -⟩
    exact ⟨rfl, h⟩

/-! ## The flag around a field -/

namespace Render

variable {α : Type} {m : Render α} {flags : RenderFlags} {c k : Context} {a : α} {e : RenderError}

theorem withFlags_of_ok (h : m { c with flags := flags } = .ok a k) :
    withFlags flags m c = .ok a { k with flags := c.flags } := by
  rw [withFlags, h]

theorem withFlags_of_error (h : m { c with flags := flags } = .error e k) :
    withFlags flags m c = .error e { k with flags := c.flags } := by
  rw [withFlags, h]

end Render

/-- An aliased field that is declared clears the flag for its inside. -/
theorem Visitor.aliased_declared (visit : Visitor) (x : Field) (asName : String) {c : Context}
    (h : c.flags.declareFields = true) :
    visit.aliased x asName c
      = (do
          withFlags { c.flags with declareFields := false } (visit.field x)
          sql " AS "
          name asName : Render Unit) c := by
  unfold Visitor.aliased
  rw [Render.flags_bind, h]
  exact congrFun (bind_assoc _ _ _) c

namespace Simulation.undeclared

variable {i : RenderFlags} {m m' : Render Unit}

/-- Where nothing is declared, to say so changes nothing. -/
theorem withFlags (h : undeclared.Step i m m') :
    undeclared.Step i (Render.withFlags { i with declareFields := false } m) m' := by
  rintro c _ ⟨rfl, rfl, hd⟩
  have entered : { c with flags := { c.flags with declareFields := false } } = c := by rw [← hd]
  rcases (h ⟨rfl, rfl, hd⟩).cases with ⟨a, k, _, hr, hr', rfl, hk, -⟩ | ⟨e, k, _, hr, hr', rfl, hk⟩
  · rw [hr', Render.withFlags_of_ok (by rw [entered]; exact hr), ← hk]
    exact ⟨rfl, rfl, rfl, hk ▸ hd⟩
  · rw [hr', Render.withFlags_of_error (by rw [entered]; exact hr), ← hk]
    exact ⟨rfl, rfl, rfl⟩

/-- An aliased field that is declared is written with its expression, and inside it nothing is declared. -/
theorem aliased {visit : Visitor} {x : Field} (asName : String) (h : undeclared.Step i (visit.field x) m') :
    undeclared.Step i (Render.withFlags { i with declareFields := true } (visit.aliased x asName))
      (do m'; sql " AS "; name asName) := by
  rintro c _ ⟨rfl, rfl, hd⟩
  have entered : { c with flags := { c.flags with declareFields := false } } = c := by rw [← hd]
  rcases (h ⟨rfl, rfl, hd⟩).cases with ⟨a, k, _, hr, hr', rfl, hk, -⟩ | ⟨e, k, _, hr, hr', rfl, hk⟩
  · have inside : Render.withFlags { c.flags with declareFields := false } (visit.field x)
        { c with flags := { c.flags with declareFields := true } }
          = .ok a { k with flags := { c.flags with declareFields := true } } :=
      Render.withFlags_of_ok (by rw [← hr]; exact congrArg (visit.field x) entered)
    rw [Render.bind_ok hr', Render.withFlags_of_ok
      (by rw [Visitor.aliased_declared visit x asName rfl, Render.bind_ok inside]; rfl), ← hk]
    exact ⟨rfl, rfl, rfl, hk ▸ hd⟩
  · have inside : Render.withFlags { c.flags with declareFields := false } (visit.field x)
        { c with flags := { c.flags with declareFields := true } }
          = .error e { k with flags := { c.flags with declareFields := true } } :=
      Render.withFlags_of_error (by rw [← hr]; exact congrArg (visit.field x) entered)
    rw [Render.bind_error hr', Render.withFlags_of_error
      (by rw [Visitor.aliased_declared visit x asName rfl]; exact Render.bind_error inside), ← hk]
    exact ⟨rfl, rfl, rfl⟩

/-- Anywhere else it is its alias. -/
theorem reference (visit : Visitor) (x : Field) (asName : String) :
    undeclared.Step i (visit.aliased x asName) (name asName) := by
  rintro c _ ⟨rfl, rfl, hd⟩
  unfold Visitor.aliased
  rw [Render.flags_bind, hd]
  exact ⟨rfl, rfl, rfl, hd⟩

end Simulation.undeclared

/-! ## Both passes -/

theorem Field.unaliased_of_alias?_eq_none {f : Field} (h : f.alias? = none) : f.unaliased = f := by
  cases f with
  | aliased x a => cases h
  | _ => rfl

namespace Render

section

variable {levels : Nat} {i : RenderFlags}
  (same : ∀ m : Node, m.reach ≤ levels → Simulation.undeclared.Same Node.write (positional levels) m)
include same

/-- An entry of a select list, under the flag that is set for it. -/
theorem step_entry {f : Field} (hf : (Node.field f).reach ≤ levels) :
    Simulation.undeclared.Step i (withFlags { i with declareFields := f.alias?.isSome } (Visitor.field Node.write f))
      (Visitor.entry (positional levels) f) := by
  cases f with
  | aliased x asName =>
    have hx : (Node.field x).reach < (Node.field (.aliased x asName)).reach :=
      Node.reach_lt_of_mem_children (.head _)
    have visited := same (.field x) (by omega) i
    show Simulation.undeclared.Step i (withFlags { i with declareFields := true } (Node.write _)) _
    rw [Node.write_eq_parts]
    refine Simulation.undeclared.aliased asName ?_
    unfold Visitor.declared
    cases ha : x.alias? with
    | none =>
      dsimp only
      rw [Field.unaliased_of_alias?_eq_none ha]
      exact visited
    | some inner =>
      -- An alias inside the entry is written as it is anywhere, since the entry has cleared the flag.
      obtain ⟨y, rfl⟩ : ∃ y, x = .aliased y inner := by
        cases x with
        | aliased y b => exact ⟨y, by rw [Option.some.inj ha]⟩
        | _ => cases ha
      obtain ⟨l, rfl⟩ : ∃ l, levels = l + 1 := ⟨levels - 1, by omega⟩
      exact visited
  | _ => exact Simulation.undeclared.withFlags (same _ hf i)

theorem step_entries {fs : List Field} (hf : ∀ f ∈ fs, (Node.field f).reach ≤ levels) :
    Simulation.undeclared.Step i (Visitor.selectList Node.write fs) (Visitor.entries (positional levels) fs) := by
  rintro c _ ⟨rfl, rfl, hd⟩
  unfold Visitor.selectList Visitor.entries
  split
  · exact Simulation.Step.sql "*" ⟨rfl, rfl, hd⟩
  · rw [Render.flags_bind]
    exact Simulation.Step.separated (S := Simulation.undeclared) _ (fun f hm => step_entry same (hf f hm))
      ⟨rfl, rfl, hd⟩

end

/-- With as many levels as a node reaches, it is written by the pass without the flag as where nothing is declared. -/
theorem same_positional (levels : Nat) {n : Node} (h : n.reach ≤ levels) :
    Simulation.undeclared.Same Node.write (positional levels) n := by
  induction levels generalizing n with
  | zero =>
    have hp := n.reach_pos
    omega
  | succ levels ih =>
    intro i
    have visited : ∀ m, n.Visits m → Simulation.undeclared.Same Node.write (positional levels) m := by
      intro m hm
      have hlt := hm.reach_lt
      exact ih (by omega)
    rw [Node.write_eq_parts]
    cases n with
    | field f =>
      cases f with
      | aliased x asName => exact Simulation.undeclared.reference Node.write x asName
      | _ => exact .partsBy nofun visited
    | select s =>
      refine .selectBy (fun t ht => visited _ (.child ?_)) (fun d w hw t ht => visited _ (.hoisted hw ht))
        (fun j => step_entries (fun m hm => ih hm) fun f hf => ?_) fun m hm => visited _ (.child ?_)
      · exact List.mem_append_left _ (List.mem_map_of_mem ht)
      · have hlt := Node.reach_flattened hf
        omega
      · exact List.mem_append_right _ hm
    | _ => exact .partsBy nofun visited

end Render

/-- Whatever is rendered, in every dialect and from every context in which nothing is declared yet: an aliased field is
written with its expression as an entry of a select list, and by its outermost alias alone anywhere else. Where an
entry has another alias inside its own, that one stands in the place of the expression. -/
theorem Node.write_eq_positional (n : Node) {c : Context} (h : c.flags.declareFields = false) :
    n.write c = Render.positional n.reach n c := by
  have start : Simulation.undeclared.rel c.flags c c := ⟨rfl, rfl, h⟩
  rcases (Render.same_positional n.reach (Nat.le_refl _) c.flags start).cases with
    ⟨_, k, _, hr, hr', rfl, -⟩ | ⟨e, k, _, hr, hr', rfl, -⟩
  · rw [hr, hr']
  · rw [hr, hr']

namespace AliasedEntries

/-- A column under an alias. -/
def entry : Field := .aliased (.col "x") "a"

/-- The same alias in the select list and in `GROUP BY`. -/
def grouped : Select := { Select.ofFields [entry] with tables := [.named none "t" none], groupBy := [entry] }

theorem reach_grouped : (Node.select grouped).reach = 3 := by
  simp [Node.reach_eq, Node.weight, Node.children, Node.clauseChildren, Node.fieldChildren, Node.conditionChildren,
    Node.tableChildren, Select.commonTables, Select.ofFields, grouped, entry, Field.col]

/-- It is declared once and then referred to. -/
theorem write_eq_positional_grouped :
    (Context.new .default .default).flags.declareFields = false ∧
    (Node.select grouped).write (Context.new .default .default) =
      Render.positional 3 (.select grouped) (Context.new .default .default) ∧
    (Node.select grouped).render .default .default = .ok ⟨"SELECT x AS a FROM t GROUP BY a", []⟩ := by
  have same := (Node.select grouped).write_eq_positional (c := Context.new .default .default) rfl
  rw [reach_grouped] at same
  refine ⟨rfl, same, ?_⟩
  unfold Node.render
  rw [same]
  decide +kernel

/-- Two aliases on each other. -/
def renamed : Field := .aliased entry "b"

def listing (f : Field) : Select := { Select.ofFields [f] with tables := [.named none "t" none] }

theorem render_renamed :
    (Node.select (listing renamed)).render .default .default = .ok ⟨"SELECT a AS b FROM t", []⟩ := by
  have reach : (Node.select (listing renamed)).reach = 4 := by
    simp [Node.reach_eq, Node.weight, Node.children, Node.clauseChildren, Node.fieldChildren, Node.conditionChildren,
      Node.tableChildren, Select.commonTables, Select.ofFields, listing, renamed, entry, Field.col]
  unfold Node.render Node.write
  rw [reach]
  decide +kernel

theorem render_unaliased :
    (Node.select (listing (.aliased renamed.unaliased "b"))).render .default .default =
      .ok ⟨"SELECT x AS b FROM t", []⟩ := by
  have reach : (Node.select (listing (.aliased renamed.unaliased "b"))).reach = 3 := by
    simp [Node.reach_eq, Node.weight, Node.children, Node.clauseChildren, Node.fieldChildren, Node.conditionChildren,
      Node.tableChildren, Select.commonTables, Select.ofFields, Field.unaliased, listing, renamed, entry, Field.col]
  unfold Node.render Node.write
  rw [reach]
  decide +kernel

/-- The entry is the column `x` and goes by `b`. It is written as `a` under `b`, and nothing declares `a`. -/
theorem renamed_not_declared :
    renamed.alias? = some "b" ∧ renamed.unaliased = .col "x" ∧ (listing renamed).flattened = [renamed] ∧
    (Node.select (listing renamed)).render .default .default = .ok ⟨"SELECT a AS b FROM t", []⟩ ∧
    (Node.select (listing (.aliased renamed.unaliased "b"))).render .default .default =
      .ok ⟨"SELECT x AS b FROM t", []⟩ :=
  ⟨rfl, rfl, rfl, render_renamed, render_unaliased⟩

end AliasedEntries

end SqlDialects
