import SqlDialects.Query.Transform
import SqlDialects.Proofs.Query.Extensionality
import Mathlib.Data.List.Forall2

/-!
# Bottom-up rewriting visits every node once

What a bottom-up pass with a callback does to a tree is said once over the view of nodes, by a relation
`Traversal.Rewrites` between a node and what becomes of it: the children that the pass goes into are
rewritten from left to right, each from the state that the one before it left, the node is put together
again from them with its label and its value, and if it is one of those to hand over, what the callback
makes of it is the outcome.

The relation says everything about a pass: from one state there is one outcome (`Rewrites.unique`).
Which nodes are handed over and in which order does not depend on what the callback does with them
(`Rewrites.alike`), and the callback's effects are all that there is (`Rewrites.state_eq`).

Each of the hand-written passes over fields and conditions is then shown to be such a pass, one case for
each constructor.
-/

set_option autoImplicit false

namespace SqlDialects

/-- The same constructor with the same data, over as many children. -/
structure Node.Alike (n m : Node) : Prop where
  label : m.label = n.label
  value : m.value? = n.value?
  count : m.children.length = n.children.length

/-- A way to go through trees: which nodes are gone into and which are handed over. -/
structure Traversal where
  enters : Node → Bool
  hands : Node → Bool

namespace Traversal

/-- Fields are handed over, wherever they are but inside a select. -/
def fields : Traversal where
  enters
    | .select _ => false
    | _ => true
  hands
    | .field _ => true
    | _ => false

/-- Conditions are handed over, and only what links conditions is gone into. -/
def conditions : Traversal where
  enters
    | .condition (.combined _ _) | .condition (.xor _ _) | .condition (.not _) => true
    | _ => false
  hands
    | .condition _ => true
    | _ => false

variable (t : Traversal)

/-- The children of a node that are gone through. -/
def parts (n : Node) : List Node :=
  if t.enters n then n.children else []

theorem sizeOf_lt_of_mem_parts {t : Traversal} {n c : Node} (h : c ∈ t.parts n) : sizeOf c < sizeOf n := by
  unfold parts at h
  split at h
  · exact Node.sizeOf_lt_of_mem_children h
  · simp at h

/-- The nodes to hand over, children before parents and from left to right. -/
def postorder (n : Node) : List Node :=
  (t.parts n).attach.flatMap (fun c => postorder c.1) ++ if t.hands n then [n] else []
termination_by sizeOf n
decreasing_by exact sizeOf_lt_of_mem_parts c.2

theorem postorder_eq (n : Node) :
    t.postorder n = (t.parts n).flatMap t.postorder ++ if t.hands n then [n] else [] := by
  have ha : (t.parts n).attach.flatMap (fun c => t.postorder c.1) = (t.parts n).flatMap t.postorder := by
    rw [List.flatMap_subtype fun _ _ => rfl, List.unattach_attach]
  rw [postorder, ha]

/-- A node put together again from the parts that were gone through. -/
structure Rebuilds (n : Node) (parts : List Node) (m : Node) : Prop where
  children : m.children = if t.enters n then parts else n.children
  label : m.label = n.label
  value : m.value? = n.value?

variable {t} in
theorem Rebuilds.unique {n m m' : Node} {parts : List Node} (h : t.Rebuilds n parts m)
    (h' : t.Rebuilds n parts m') : m = m' :=
  Node.eq_of_parts (h.label.trans h'.label.symm) (h.value.trans h'.value.symm)
    (h.children.trans h'.children.symm)

variable {t} in
theorem Rebuilds.alike {n m : Node} {parts : List Node} (h : t.Rebuilds n parts m)
    (hl : parts.length = (t.parts n).length) : n.Alike m := by
  refine ⟨h.label, h.value, ?_⟩
  rw [h.children]
  unfold Traversal.parts at hl
  split <;> simp_all

section Pass

variable {σ : Type} (step : Node → StateM σ Node)

mutual

/-- What becomes of a node and of the state, and the nodes that are handed over meanwhile. -/
inductive Rewrites : Node → σ → List Node → Node → σ → Prop where
  | handed {n m r : Node} {st st₁ st₂ : σ} {calls parts : List Node} (hands : t.hands n = true)
      (inner : RewritesAll (t.parts n) st calls parts st₁) (rebuilt : t.Rebuilds n parts m)
      (called : (step m).run st₁ = (r, st₂)) : Rewrites n st (calls ++ [m]) r st₂
  | kept {n m : Node} {st st₁ : σ} {calls parts : List Node} (hands : t.hands n = false)
      (inner : RewritesAll (t.parts n) st calls parts st₁) (rebuilt : t.Rebuilds n parts m) :
      Rewrites n st calls m st₁

/-- Nodes that are rewritten from left to right, each from the state that the one before it left. -/
inductive RewritesAll : List Node → σ → List Node → List Node → σ → Prop where
  | nil {st : σ} : RewritesAll [] st [] [] st
  | cons {n m : Node} {ns ms : List Node} {st st₁ st₂ : σ} {calls calls' : List Node}
      (head : Rewrites n st calls m st₁) (tail : RewritesAll ns st₁ calls' ms st₂) :
      RewritesAll (n :: ns) st (calls ++ calls') (m :: ms) st₂

end

/-! ## What every pass does -/

variable {t step}

theorem RewritesAll.length_eq {ns ms calls : List Node} {st st' : σ}
    (h : t.RewritesAll step ns st calls ms st') : ms.length = ns.length := by
  induction ns generalizing st calls ms with
  | nil =>
    cases h
    rfl
  | cons n ns ih =>
    cases h with
    | cons head tail => simp [ih tail]

theorem RewritesAll.append {ns ns' ms ms' calls calls' : List Node} {st st₁ st₂ : σ}
    (h : t.RewritesAll step ns st calls ms st₁) (h' : t.RewritesAll step ns' st₁ calls' ms' st₂) :
    t.RewritesAll step (ns ++ ns') st (calls ++ calls') (ms ++ ms') st₂ := by
  induction ns generalizing st calls ms with
  | nil =>
    cases h
    exact h'
  | cons n ns ih =>
    cases h with
    | cons head tail =>
      rw [List.append_assoc]
      exact .cons head (ih tail)

mutual

theorem Rewrites.unique {n r r' : Node} {st st₁ st₁' : σ} {calls calls' : List Node} :
    t.Rewrites step n st calls r st₁ → t.Rewrites step n st calls' r' st₁' →
      calls = calls' ∧ r = r' ∧ st₁ = st₁'
  | .handed _ inner rebuilt called, .handed _ inner' rebuilt' called' => by
    obtain ⟨rfl, rfl, rfl⟩ := inner.unique inner'
    obtain rfl := rebuilt.unique rebuilt'
    obtain ⟨rfl, rfl⟩ := Prod.mk.inj (called.symm.trans called')
    exact ⟨rfl, rfl, rfl⟩
  | .kept _ inner rebuilt, .kept _ inner' rebuilt' => by
    obtain ⟨rfl, rfl, rfl⟩ := inner.unique inner'
    exact ⟨rfl, rebuilt.unique rebuilt', rfl⟩
  | .handed hands _ _ _, .kept hands' _ _ => by simp [hands] at hands'
  | .kept hands _ _, .handed hands' _ _ _ => by simp [hands] at hands'

theorem RewritesAll.unique {ns ms ms' : List Node} {st st₁ st₁' : σ} {calls calls' : List Node} :
    t.RewritesAll step ns st calls ms st₁ → t.RewritesAll step ns st calls' ms' st₁' →
      calls = calls' ∧ ms = ms' ∧ st₁ = st₁'
  | .nil, .nil => ⟨rfl, rfl, rfl⟩
  | .cons head tail, .cons head' tail' => by
    obtain ⟨rfl, rfl, rfl⟩ := head.unique head'
    obtain ⟨rfl, rfl, rfl⟩ := tail.unique tail'
    exact ⟨rfl, rfl, rfl⟩

end

mutual

/-- The nodes that are handed over are those of the tree, in postorder, each with its own data. -/
theorem Rewrites.alike {n r : Node} {st st₁ : σ} {calls : List Node} :
    t.Rewrites step n st calls r st₁ → List.Forall₂ Node.Alike (t.postorder n) calls
  | .handed hands inner rebuilt _ => by
    rw [postorder_eq, if_pos hands]
    exact List.rel_append inner.alike (.cons (rebuilt.alike inner.length_eq) .nil)
  | .kept hands inner _ => by
    rw [postorder_eq, if_neg (by simp [hands]), List.append_nil]
    exact inner.alike

theorem RewritesAll.alike {ns ms : List Node} {st st₁ : σ} {calls : List Node} :
    t.RewritesAll step ns st calls ms st₁ → List.Forall₂ Node.Alike (ns.flatMap t.postorder) calls
  | .nil => .nil
  | .cons head tail => by
    rw [List.flatMap_cons]
    exact List.rel_append head.alike tail.alike

end

variable (step) in
/-- The state after the callback was called with the given nodes, one after the other. -/
def effects (st : σ) (calls : List Node) : σ :=
  calls.foldl (fun st m => ((step m).run st).2) st

theorem effects_append (st : σ) (calls calls' : List Node) :
    effects step st (calls ++ calls') = effects step (effects step st calls) calls' :=
  List.foldl_append

mutual

/-- A pass has no effects but those of its calls. -/
theorem Rewrites.state_eq {n r : Node} {st st₁ : σ} {calls : List Node} :
    t.Rewrites step n st calls r st₁ → st₁ = effects step st calls
  | .handed _ inner _ called => by
    rw [effects_append, ← inner.state_eq]
    exact (congrArg Prod.snd called).symm
  | .kept _ inner _ => inner.state_eq

theorem RewritesAll.state_eq {ns ms : List Node} {st st₁ : σ} {calls : List Node} :
    t.RewritesAll step ns st calls ms st₁ → st₁ = effects step st calls
  | .nil => rfl
  | .cons head tail => by rw [effects_append, ← head.state_eq, ← tail.state_eq]

end

theorem rewritesAll_refl {ns : List Node} {st : σ} (h : ∀ n ∈ ns, ∃ calls, t.Rewrites step n st calls n st) :
    ∃ calls, t.RewritesAll step ns st calls ns st := by
  induction ns with
  | nil => exact ⟨[], .nil⟩
  | cons n ns ih =>
    obtain ⟨_, head⟩ := h n (.head _)
    obtain ⟨_, tail⟩ := ih fun m hm => h m (.tail _ hm)
    exact ⟨_, .cons head tail⟩

/-- A callback that hands back what it is given leaves every node and the state as they are. -/
theorem rewrites_refl (hs : ∀ m, step m = pure m) (st : σ) (n : Node) :
    ∃ calls, t.Rewrites step n st calls n st := by
  induction n using Node.induction with
  | step n ih =>
    have rebuilt : t.Rebuilds n (t.parts n) n := by
      refine ⟨?_, rfl, rfl⟩
      unfold parts
      split <;> rfl
    have hparts : ∀ c ∈ t.parts n, ∃ calls, t.Rewrites step c st calls c st := by
      intro c hc
      unfold parts at hc
      split at hc
      · exact ih c hc
      · simp at hc
    obtain ⟨_, inner⟩ := rewritesAll_refl hparts
    cases hands : t.hands n with
    | true => exact ⟨_, .handed hands inner rebuilt (by rw [hs]; rfl)⟩
    | false => exact ⟨_, .kept hands inner rebuilt⟩

variable (t step)

/-- A program that does to a node what the pass does to it. -/
def Follows (n : Node) (p : StateM σ Node) : Prop :=
  ∀ st, ∃ calls, t.Rewrites step n st calls (p.run st).1 (p.run st).2

/-- A program that does to the nodes of a list what the pass does to them. -/
def FollowsAll (ns : List Node) (p : StateM σ (List Node)) : Prop :=
  ∀ st, ∃ calls, t.RewritesAll step ns st calls (p.run st).1 (p.run st).2

/-- All that can be seen of a pass: what is made of the node, which nodes are handed over, and the state. -/
def Performs (n : Node) (p : StateM σ Node) : Prop :=
  ∀ st, ∃ calls, t.Rewrites step n st calls (p.run st).1 (p.run st).2 ∧
    List.Forall₂ Node.Alike (t.postorder n) calls ∧ (p.run st).2 = effects step st calls

variable {t step}

theorem Follows.singleton {n : Node} {p : StateM σ Node} (h : t.Follows step n p) :
    t.FollowsAll step [n] ((fun m => [m]) <$> p) := by
  intro st
  obtain ⟨_, h⟩ := h st
  exact ⟨_, .cons h .nil⟩

/-- A list whose elements hold nodes each: the pass goes through one element after the other. -/
theorem FollowsAll.flatMap {α : Type} {view : α → List Node} (p : α → StateM σ α)
    (all : List α → StateM σ (List α)) (nil : all [] = pure [])
    (cons : ∀ x xs, all (x :: xs) = do pure ((← p x) :: (← all xs))) {xs : List α}
    (h : ∀ x ∈ xs, t.FollowsAll step (view x) (view <$> p x)) :
    t.FollowsAll step (xs.flatMap view) ((fun ys => ys.flatMap view) <$> all xs) := by
  induction xs with
  | nil =>
    rw [nil]
    exact fun st => ⟨[], .nil⟩
  | cons x xs ih =>
    rw [cons]
    intro st
    obtain ⟨_, hx⟩ := h x (.head _) st
    obtain ⟨_, hxs⟩ := ih (fun y hy => h y (.tail _ hy)) ((p x).run st).2
    exact ⟨_, hx.append hxs⟩

/-- A list whose elements are nodes. -/
theorem FollowsAll.map {α : Type} {node : α → Node} (p : α → StateM σ α)
    (all : List α → StateM σ (List α)) (nil : all [] = pure [])
    (cons : ∀ x xs, all (x :: xs) = do pure ((← p x) :: (← all xs))) {xs : List α}
    (h : ∀ x ∈ xs, t.Follows step (node x) (node <$> p x)) :
    t.FollowsAll step (xs.map node) (List.map node <$> all xs) := by
  have hm : List.map node = fun ys => ys.flatMap fun y => [node y] := by
    funext ys
    exact List.map_eq_flatMap
  rw [hm]
  exact .flatMap p all nil cons fun x hx => (h x hx).singleton

theorem Follows.performs {n : Node} {p : StateM σ Node} (h : t.Follows step n p) : t.Performs step n p := by
  intro st
  obtain ⟨calls, h⟩ := h st
  exact ⟨calls, h, h.alike, h.state_eq⟩

/-- With a callback that changes nothing the program changes nothing. -/
theorem Follows.eq_pure {α : Type} {node : α → Node} (hn : ∀ x y, node x = node y → x = y) {x : α}
    {p : StateM σ α} (hs : ∀ m, step m = pure m) (h : t.Follows step (node x) (node <$> p)) : p = pure x := by
  funext st
  obtain ⟨_, h⟩ := h st
  obtain ⟨_, same⟩ := rewrites_refl (t := t) hs st (node x)
  obtain ⟨-, hr, hst⟩ := h.unique same
  exact Prod.ext (hn _ _ hr) hst

end Pass

end Traversal

/-! ## Fields -/

namespace Field

open Traversal (fields)

section Fields

variable {σ : Type} (step : Field → StateM σ Field)

/-- A callback for fields as one for nodes. -/
def onNodes : Node → StateM σ Node
  | .field f => Node.field <$> step f
  | n => pure n

/-- What is shown of a node: the program for it does what the pass over fields does. -/
def Rewritten : Node → Prop
  | .field f => fields.Follows (onNodes step) (.field f) (Node.field <$> f.transform step)
  | .condition c => fields.Follows (onNodes step) (.condition c) (Node.condition <$> c.mapFields step)
  | .sortField e =>
    fields.Follows (onNodes step) (.sortField e)
      (Node.sortField <$> (fun x => ⟨x, e.order, e.nulls⟩) <$> e.field.transform step)
  | .window w =>
    fields.FollowsAll (onNodes step) [.window w]
      ((fun w' => w'.toList.map Node.window) <$> Window.transform step (some w))
  | _ => True

variable {step}

theorem followsAll_transformAll {xs : List Field} (h : ∀ x ∈ xs, Rewritten step (.field x)) :
    fields.FollowsAll (onNodes step) (xs.map .field) (List.map Node.field <$> transformAll step xs) :=
  .map (transform step) (transformAll step) rfl (fun _ _ => rfl) h

theorem length_transformAll {xs : List Field} (h : ∀ x ∈ xs, Rewritten step (.field x)) (st : σ) :
    ((transformAll step xs).run st).1.length = xs.length := by
  obtain ⟨_, hxs⟩ := followsAll_transformAll h st
  have hl : (((transformAll step xs).run st).1.map Node.field).length = (xs.map Node.field).length :=
    hxs.length_eq
  simpa using hl

theorem followsAll_mapFieldsAll {cs : List Condition} (h : ∀ c ∈ cs, Rewritten step (.condition c)) :
    fields.FollowsAll (onNodes step) (cs.map .condition) (List.map Node.condition <$> Condition.mapFieldsAll step cs) :=
  .map (Condition.mapFields step) (Condition.mapFieldsAll step) rfl (fun _ _ => rfl) h

theorem followsAll_transformSortFields {os : List SortField} (h : ∀ e ∈ os, Rewritten step (.sortField e)) :
    fields.FollowsAll (onNodes step) (os.map .sortField)
      (List.map Node.sortField <$> SortField.transformAll step os) :=
  .map (fun e => (fun x => (⟨x, e.order, e.nulls⟩ : SortField)) <$> transform step e.field)
    (SortField.transformAll step) rfl (fun ⟨_, _, _⟩ _ => rfl) h

theorem followsAll_transformEntries {es : List (String × Field)} (h : ∀ e ∈ es, Rewritten step (.field e.2)) :
    fields.FollowsAll (onNodes step) (es.map fun e => .field e.2)
      (List.map (fun e => Node.field e.2) <$> transformEntries step es) :=
  .map (fun e => Prod.mk e.1 <$> transform step e.2) (transformEntries step) rfl (fun _ _ => rfl) h

variable (step) in
theorem keys_transformEntries (es : List (String × Field)) (st : σ) :
    ((transformEntries step es).run st).1.map Prod.fst = es.map Prod.fst := by
  induction es generalizing st with
  | nil => rfl
  | cons e es ih => exact congrArg (e.1 :: ·) (ih _)

theorem followsAll_transformTests {bs : List (Condition × Field)}
    (h : ∀ b ∈ bs, Rewritten step (.condition b.1) ∧ Rewritten step (.field b.2)) :
    fields.FollowsAll (onNodes step) (bs.flatMap fun b => [.condition b.1, .field b.2])
      ((fun bs => bs.flatMap fun b => [.condition b.1, .field b.2]) <$> transformTests step bs) := by
  refine .flatMap (fun b => do pure (← b.1.mapFields step, ← b.2.transform step)) (transformTests step) rfl
    (fun _ _ => rfl) ?_
  intro b hb st
  obtain ⟨_, hc⟩ := (h b hb).1 st
  obtain ⟨_, hx⟩ := (h b hb).2 ((b.1.mapFields step).run st).2
  exact ⟨_, .cons hc (.cons hx .nil)⟩

theorem followsAll_transformCandidates {bs : List (Field × Field)}
    (h : ∀ b ∈ bs, Rewritten step (.field b.1) ∧ Rewritten step (.field b.2)) :
    fields.FollowsAll (onNodes step) (bs.flatMap fun b => [.field b.1, .field b.2])
      ((fun bs => bs.flatMap fun b => [.field b.1, .field b.2]) <$> transformCandidates step bs) := by
  refine .flatMap (fun b => do pure (← b.1.transform step, ← b.2.transform step)) (transformCandidates step) rfl
    (fun _ _ => rfl) ?_
  intro b hb st
  obtain ⟨_, hc⟩ := (h b hb).1 st
  obtain ⟨_, hx⟩ := (h b hb).2 ((b.1.transform step).run st).2
  exact ⟨_, .cons hc (.cons hx .nil)⟩

theorem followsAll_transformOption {x : Option Field} (h : ∀ y ∈ x, Rewritten step (.field y)) :
    fields.FollowsAll (onNodes step) (x.toList.map .field)
      ((fun y => y.toList.map Node.field) <$> transformOption step x) := by
  intro st
  cases x with
  | none => exact ⟨[], .nil⟩
  | some x =>
    obtain ⟨_, hx⟩ := h x rfl st
    exact ⟨_, .cons hx .nil⟩

variable (step) in
theorem isSome_transformOption (x : Option Field) (st : σ) :
    ((transformOption step x).run st).1.isSome = x.isSome := by
  cases x <;> rfl

theorem followsAll_transformWindow {w : Option Window} (h : ∀ w' ∈ w, Rewritten step (.window w')) :
    fields.FollowsAll (onNodes step) (w.toList.map .window)
      ((fun w => w.toList.map Node.window) <$> Window.transform step w) := by
  intro st
  cases w with
  | none => exact ⟨[], .nil⟩
  | some w => exact h w rfl st

variable (step) in
theorem isSome_transformWindow (w : Option Window) (st : σ) :
    ((Window.transform step w).run st).1.isSome = w.isSome := by
  cases w with
  | none => rfl
  | some w =>
    cases w
    rfl

/-- Selects are left as they are. -/
theorem rewrites_select (s : Select) (st : σ) :
    fields.Rewrites (onNodes step) (.select s) st [] (.select s) st :=
  .kept rfl .nil ⟨rfl, rfl, rfl⟩

theorem rewritten_field {f : Field} (ih : ∀ n ∈ Node.fieldChildren f, Rewritten step n) :
    Rewritten step (.field f) := by
  intro st
  cases f with
  | column c => exact ⟨_, .handed (m := .field (.column c)) rfl .nil ⟨rfl, rfl, rfl⟩ rfl⟩
  | value v => exact ⟨_, .handed (m := .field (.value v)) rfl .nil ⟨rfl, rfl, rfl⟩ rfl⟩
  | inline l => exact ⟨_, .handed (m := .field (.inline l)) rfl .nil ⟨rfl, rfl, rfl⟩ rfl⟩
  | subquery s =>
    exact ⟨_, .handed (m := .field (.subquery s)) rfl (.cons (rewrites_select s st) .nil) ⟨rfl, rfl, rfl⟩ rfl⟩
  | arithmetic op l r =>
    obtain ⟨_, hl⟩ := ih (.field l) (.head _) st
    obtain ⟨_, hr⟩ := ih (.field r) (.tail _ (.head _)) _
    exact ⟨_, .handed (m := .field (.arithmetic op _ _)) rfl (.cons hl (.cons hr .nil)) ⟨rfl, rfl, rfl⟩ rfl⟩
  | neg x =>
    obtain ⟨_, hx⟩ := ih (.field x) (.head _) st
    exact ⟨_, .handed (m := .field (.neg _)) rfl (.cons hx .nil) ⟨rfl, rfl, rfl⟩ rfl⟩
  | bitNot x =>
    obtain ⟨_, hx⟩ := ih (.field x) (.head _) st
    exact ⟨_, .handed (m := .field (.bitNot _)) rfl (.cons hx .nil) ⟨rfl, rfl, rfl⟩ rfl⟩
  | cast x ty =>
    obtain ⟨_, hx⟩ := ih (.field x) (.head _) st
    exact ⟨_, .handed (m := .field (.cast _ ty)) rfl (.cons hx .nil) ⟨rfl, rfl, rfl⟩ rfl⟩
  | aliased x a =>
    obtain ⟨_, hx⟩ := ih (.field x) (.head _) st
    exact ⟨_, .handed (m := .field (.aliased _ a)) rfl (.cons hx .nil) ⟨rfl, rfl, rfl⟩ rfl⟩
  | condition c =>
    obtain ⟨_, hc⟩ := ih (.condition c) (.head _) st
    exact ⟨_, .handed (m := .field (.condition _)) rfl (.cons hc .nil) ⟨rfl, rfl, rfl⟩ rfl⟩
  | extremum which xs =>
    obtain ⟨_, hxs⟩ := followsAll_transformAll (fun x hx => ih (.field x) (List.mem_map_of_mem hx)) st
    exact ⟨_, .handed (m := .field (.extremum which _)) rfl hxs ⟨rfl, rfl, rfl⟩ rfl⟩
  | coalesce xs =>
    obtain ⟨_, hxs⟩ := followsAll_transformAll (fun x hx => ih (.field x) (List.mem_map_of_mem hx)) st
    exact ⟨_, .handed (m := .field (.coalesce _)) rfl hxs ⟨rfl, rfl, rfl⟩ rfl⟩
  | call g xs =>
    obtain ⟨_, hxs⟩ := followsAll_transformAll (fun x hx => ih (.field x) (List.mem_map_of_mem hx)) st
    exact ⟨_, .handed (m := .field (.call g _)) rfl hxs ⟨rfl, rfl, rfl⟩ rfl⟩
  | jsonArray xs n =>
    obtain ⟨_, hxs⟩ := followsAll_transformAll (fun x hx => ih (.field x) (List.mem_map_of_mem hx)) st
    exact ⟨_, .handed (m := .field (.jsonArray _ n)) rfl hxs ⟨rfl, rfl, rfl⟩ rfl⟩
  | row xs =>
    obtain ⟨_, hxs⟩ := followsAll_transformAll (fun x hx => ih (.field x) (List.mem_map_of_mem hx)) st
    exact ⟨_, .handed (m := .field (.row _)) rfl hxs ⟨rfl, rfl, rfl⟩ rfl⟩
  | raw template =>
    obtain ⟨text, xs, verbatim⟩ := template
    obtain ⟨_, hxs⟩ := followsAll_transformAll (fun x hx => ih (.field x) (List.mem_map_of_mem hx)) st
    exact ⟨_, .handed (m := .field (.raw ⟨text, _, verbatim⟩)) rfl hxs ⟨rfl, rfl, rfl⟩ rfl⟩
  | jsonObject es n =>
    obtain ⟨_, hes⟩ := followsAll_transformEntries (fun e he => ih (.field e.2) (List.mem_map_of_mem he)) st
    have keys := congrArg (Label.jsonObject · n) (keys_transformEntries step es st)
    exact ⟨_, .handed (m := .field (.jsonObject _ n)) rfl hes ⟨rfl, keys, rfl⟩ rfl⟩
  | jsonValue x p ret e =>
    have hmem : Node.field x ∈ Node.fieldChildren (.jsonValue x p ret e) := by
      rcases e with _ | (_ | _ | _) <;> exact .head _
    obtain ⟨_, hx⟩ := ih (.field x) hmem st
    rcases e with _ | (_ | _ | d)
    · exact ⟨_, .handed (m := .field (.jsonValue _ p ret none)) rfl (.cons hx .nil) ⟨rfl, rfl, rfl⟩ rfl⟩
    · exact ⟨_, .handed (m := .field (.jsonValue _ p ret (some .null))) rfl (.cons hx .nil) ⟨rfl, rfl, rfl⟩ rfl⟩
    · exact ⟨_, .handed (m := .field (.jsonValue _ p ret (some .error))) rfl (.cons hx .nil)
        ⟨rfl, rfl, rfl⟩ rfl⟩
    · obtain ⟨_, hd⟩ := ih (.field d) (.tail _ (.head _)) _
      exact ⟨_, .handed (m := .field (.jsonValue _ p ret (some (.default _)))) rfl (.cons hx (.cons hd .nil))
        ⟨rfl, rfl, rfl⟩ rfl⟩
  | aggregate a =>
    obtain ⟨kind, value, distinct, window⟩ := a
    have hvalue : ∀ x ∈ value, Rewritten step (.field x) := fun x hx =>
      ih _ (List.mem_append_left _ (List.mem_map_of_mem (Option.mem_toList.2 hx)))
    have hwindow : ∀ w ∈ window, Rewritten step (.window w) := fun w hw =>
      ih _ (List.mem_append_right _ (List.mem_map_of_mem (Option.mem_toList.2 hw)))
    obtain ⟨_, hv⟩ := followsAll_transformOption hvalue st
    obtain ⟨_, hw⟩ := followsAll_transformWindow hwindow ((transformOption step value).run st).2
    have label := congrArg₂ (Label.aggregate kind · distinct ·) (isSome_transformOption step value st)
      (isSome_transformWindow step window ((transformOption step value).run st).2)
    exact ⟨_, .handed (m := .field (.aggregate ⟨kind, _, distinct, _⟩)) rfl (hv.append hw)
      ⟨rfl, label, rfl⟩ rfl⟩
  | searchedCase bs e =>
    have hbranch : ∀ b ∈ bs, Rewritten step (.condition b.1) ∧ Rewritten step (.field b.2) := by
      intro b hb
      constructor <;> exact ih _ (List.mem_append_left _ (List.mem_flatMap.2 ⟨b, hb, by simp⟩))
    have helse : ∀ x ∈ e, Rewritten step (.field x) := fun x hx =>
      ih _ (List.mem_append_right _ (List.mem_map_of_mem (Option.mem_toList.2 hx)))
    obtain ⟨_, hb⟩ := followsAll_transformTests hbranch st
    obtain ⟨_, he⟩ := followsAll_transformOption helse ((transformTests step bs).run st).2
    have label := congrArg Label.searchedCase
      (isSome_transformOption step e ((transformTests step bs).run st).2)
    exact ⟨_, .handed (m := .field (.searchedCase _ _)) rfl (hb.append he) ⟨rfl, label, rfl⟩ rfl⟩
  | simpleCase x bs e =>
    have hbranch : ∀ b ∈ bs, Rewritten step (.field b.1) ∧ Rewritten step (.field b.2) := by
      intro b hb
      constructor <;>
        exact ih _ (.tail _ (List.mem_append_left _ (List.mem_flatMap.2 ⟨b, hb, by simp⟩)))
    have helse : ∀ y ∈ e, Rewritten step (.field y) := fun y hy =>
      ih _ (.tail _ (List.mem_append_right _ (List.mem_map_of_mem (Option.mem_toList.2 hy))))
    obtain ⟨_, hx⟩ := ih (.field x) (.head _) st
    obtain ⟨_, hb⟩ := followsAll_transformCandidates hbranch ((x.transform step).run st).2
    obtain ⟨_, he⟩ := followsAll_transformOption helse
      ((transformCandidates step bs).run ((x.transform step).run st).2).2
    have label := congrArg Label.simpleCase (isSome_transformOption step e
      ((transformCandidates step bs).run ((x.transform step).run st).2).2)
    exact ⟨_, .handed (m := .field (.simpleCase _ _ _)) rfl (.cons hx (hb.append he)) ⟨rfl, label, rfl⟩ rfl⟩

theorem rewritten_condition {c : Condition} (ih : ∀ n ∈ Node.conditionChildren c, Rewritten step n) :
    Rewritten step (.condition c) := by
  intro st
  cases c with
  | none => exact ⟨_, .kept rfl .nil ⟨rfl, rfl, rfl⟩⟩
  | existence s n => exact ⟨_, .kept rfl (.cons (rewrites_select s st) .nil) ⟨rfl, rfl, rfl⟩⟩
  | selectIsNull s n => exact ⟨_, .kept rfl (.cons (rewrites_select s st) .nil) ⟨rfl, rfl, rfl⟩⟩
  | compare op l r =>
    obtain ⟨_, hl⟩ := ih (.field l) (.head _) st
    obtain ⟨_, hr⟩ := ih (.field r) (.tail _ (.head _)) _
    exact ⟨_, .kept rfl (.cons hl (.cons hr .nil)) ⟨rfl, rfl, rfl⟩⟩
  | isNull x n =>
    obtain ⟨_, hx⟩ := ih (.field x) (.head _) st
    exact ⟨_, .kept rfl (.cons hx .nil) ⟨rfl, rfl, rfl⟩⟩
  | xmlExists p x passing =>
    obtain ⟨_, hx⟩ := ih (.field x) (.head _) st
    exact ⟨_, .kept rfl (.cons hx .nil) ⟨rfl, rfl, rfl⟩⟩
  | field x =>
    obtain ⟨_, hx⟩ := ih (.field x) (.head _) st
    exact ⟨_, .kept rfl (.cons hx .nil) ⟨rfl, rfl, rfl⟩⟩
  | between x l h n =>
    obtain ⟨_, hx⟩ := ih (.field x) (.head _) st
    obtain ⟨_, hl⟩ := ih (.field l) (.tail _ (.head _)) _
    obtain ⟨_, hh⟩ := ih (.field h) (.tail _ (.tail _ (.head _))) _
    exact ⟨_, .kept rfl (.cons hx (.cons hl (.cons hh .nil))) ⟨rfl, rfl, rfl⟩⟩
  | inList x xs n =>
    obtain ⟨_, hx⟩ := ih (.field x) (.head _) st
    obtain ⟨_, hxs⟩ := followsAll_transformAll
      (fun y hy => ih (.field y) (.tail _ (List.mem_map_of_mem hy))) ((x.transform step).run st).2
    exact ⟨_, .kept rfl (.cons hx hxs) ⟨rfl, rfl, rfl⟩⟩
  | combined op cs =>
    obtain ⟨_, hcs⟩ := followsAll_mapFieldsAll (fun c hc => ih (.condition c) (List.mem_map_of_mem hc)) st
    exact ⟨_, .kept rfl hcs ⟨rfl, rfl, rfl⟩⟩
  | xor l r =>
    obtain ⟨_, hl⟩ := ih (.condition l) (.head _) st
    obtain ⟨_, hr⟩ := ih (.condition r) (.tail _ (.head _)) _
    exact ⟨_, .kept rfl (.cons hl (.cons hr .nil)) ⟨rfl, rfl, rfl⟩⟩
  | not c =>
    obtain ⟨_, hc⟩ := ih (.condition c) (.head _) st
    exact ⟨_, .kept rfl (.cons hc .nil) ⟨rfl, rfl, rfl⟩⟩
  | raw template =>
    obtain ⟨text, xs, verbatim⟩ := template
    obtain ⟨_, hxs⟩ := followsAll_transformAll (fun x hx => ih (.field x) (List.mem_map_of_mem hx)) st
    exact ⟨_, .kept rfl hxs ⟨rfl, rfl, rfl⟩⟩

theorem rewritten_window {w : Window} (ih : ∀ n ∈ (Node.window w).children, Rewritten step n) :
    Rewritten step (.window w) := by
  intro st
  obtain ⟨ps, os⟩ := w
  have hpart : ∀ x ∈ ps, Rewritten step (.field x) := fun x hx =>
    ih _ (List.mem_append_left _ (List.mem_map_of_mem hx))
  have hsort : ∀ e ∈ os, Rewritten step (.sortField e) := fun e he =>
    ih _ (List.mem_append_right _ (List.mem_map_of_mem he))
  obtain ⟨_, hp⟩ := followsAll_transformAll hpart st
  obtain ⟨_, ho⟩ := followsAll_transformSortFields hsort ((transformAll step ps).run st).2
  have label := congrArg Label.window (length_transformAll hpart st)
  exact ⟨_, .cons (.kept rfl (hp.append ho) ⟨rfl, label, rfl⟩) .nil⟩

theorem rewritten (n : Node) : Rewritten step n := by
  induction n using Node.induction with
  | step n ih =>
    cases n with
    | field f => exact rewritten_field ih
    | condition c => exact rewritten_condition ih
    | window w => exact rewritten_window ih
    | sortField e =>
      intro st
      obtain ⟨_, hx⟩ := ih (.field e.field) (.head _) st
      exact ⟨_, .kept rfl (.cons hx .nil) ⟨rfl, rfl, rfl⟩⟩
    | _ => trivial

end Fields

end Field

/-! ## Conditions -/

namespace Condition

open Traversal (conditions)

section Conditions

variable {σ : Type} (step : Condition → StateM σ Condition)

/-- A callback for conditions as one for nodes. -/
def onNodes : Node → StateM σ Node
  | .condition c => Node.condition <$> step c
  | n => pure n

variable {step}

theorem followsAll_transformAll {cs : List Condition}
    (h : ∀ c ∈ cs, conditions.Follows (onNodes step) (.condition c) (Node.condition <$> c.transform step)) :
    conditions.FollowsAll (onNodes step) (cs.map .condition) (List.map Node.condition <$> transformAll step cs) :=
  .map (transform step) (transformAll step) rfl (fun _ _ => rfl) h

/-- A condition that links no others is handed over as it is. -/
theorem follows_of_parts_nil {c : Condition} (he : conditions.enters (.condition c) = false)
    (ht : c.transform step = step c) :
    conditions.Follows (onNodes step) (.condition c) (Node.condition <$> c.transform step) := by
  intro st
  have inner : conditions.RewritesAll (onNodes step) (conditions.parts (.condition c)) st [] [] st := by
    rw [Traversal.parts, he]
    exact .nil
  rw [ht]
  exact ⟨_, .handed (m := .condition c) rfl inner ⟨by simp [he], rfl, rfl⟩ rfl⟩

theorem follows_transform (c : Condition) :
    conditions.Follows (onNodes step) (.condition c) (Node.condition <$> c.transform step) := by
  cases c with
  | combined op cs =>
    intro st
    obtain ⟨_, hcs⟩ := followsAll_transformAll (fun c hc => follows_transform c) st
    exact ⟨_, .handed (m := .condition (.combined op _)) rfl hcs ⟨rfl, rfl, rfl⟩ rfl⟩
  | xor l r =>
    intro st
    obtain ⟨_, hl⟩ := follows_transform l st
    obtain ⟨_, hr⟩ := follows_transform r ((l.transform step).run st).2
    exact ⟨_, .handed (m := .condition (.xor _ _)) rfl (.cons hl (.cons hr .nil)) ⟨rfl, rfl, rfl⟩ rfl⟩
  | not c =>
    intro st
    obtain ⟨_, hc⟩ := follows_transform c st
    exact ⟨_, .handed (m := .condition (.not _)) rfl (.cons hc .nil) ⟨rfl, rfl, rfl⟩ rfl⟩
  | _ => exact follows_of_parts_nil rfl rfl
termination_by sizeOf c

end Conditions

end Condition

/-! ## The three passes -/

theorem Field.onNodes_pure {σ : Type} (m : Node) : Field.onNodes (fun x => (pure x : StateM σ Field)) m = pure m := by
  cases m <;> rfl

theorem Condition.onNodes_pure {σ : Type} (m : Node) :
    Condition.onNodes (fun c => (pure c : StateM σ Condition)) m = pure m := by
  cases m <;> rfl

/-- The passes over fields, over the operands of conditions and over conditions: whatever the callback does,
it is called once for each node that is to be handed over, in postorder, with the node put together again
from what became of its parts. A callback that changes nothing leaves the tree as it is. -/
theorem transform_performs {σ : Type} :
    (∀ (step : Field → StateM σ Field) (f : Field),
      Traversal.fields.Performs (Field.onNodes step) (.field f) (Node.field <$> f.transform step)) ∧
    (∀ (step : Field → StateM σ Field) (c : Condition),
      Traversal.fields.Performs (Field.onNodes step) (.condition c) (Node.condition <$> c.mapFields step)) ∧
    (∀ (step : Condition → StateM σ Condition) (c : Condition),
      Traversal.conditions.Performs (Condition.onNodes step) (.condition c) (Node.condition <$> c.transform step)) ∧
    (∀ f : Field, f.transform (fun x => (pure x : StateM σ Field)) = pure f) ∧
    (∀ c : Condition, c.mapFields (fun x => (pure x : StateM σ Field)) = pure c) ∧
    (∀ c : Condition, c.transform (fun d => (pure d : StateM σ Condition)) = pure c) := by
  have overField (step : Field → StateM σ Field) (f : Field) :
      Traversal.fields.Follows (Field.onNodes step) (.field f) (Node.field <$> f.transform step) :=
    Field.rewritten (.field f)
  have overOperands (step : Field → StateM σ Field) (c : Condition) :
      Traversal.fields.Follows (Field.onNodes step) (.condition c) (Node.condition <$> c.mapFields step) :=
    Field.rewritten (.condition c)
  refine ⟨fun step f => (overField step f).performs, fun step c => (overOperands step c).performs,
    fun step c => (Condition.follows_transform c).performs, fun f => ?_, fun c => ?_, fun c => ?_⟩
  · exact (overField _ f).eq_pure (fun _ _ => Node.field.inj) Field.onNodes_pure
  · exact (overOperands _ c).eq_pure (fun _ _ => Node.condition.inj) Field.onNodes_pure
  · exact (Condition.follows_transform c).eq_pure (fun _ _ => Node.condition.inj) Condition.onNodes_pure

end SqlDialects
