import SqlDialects.Proofs.Render.Placeholders
import SqlDialects.Proofs.Scope

/-!
# What a node leaves alone

A node that is written outside of queries writes what it writes on its own, behind what is there already, and
leaves the rest of the context as it was: the levels of indentation and of queries that it opens are closed
again, and its flags do not outlast it. So two passes from there differ by what stood before
(`Node.write_behind`).
-/

set_option autoImplicit false

namespace SqlDialects

namespace Output

theorem empty_absorb (o : Output) : empty.absorb o = o := by
  simp [absorb, empty]

theorem absorb_assoc (o o' o'' : Output) : (o.absorb o').absorb o'' = o.absorb (o'.absorb o'') := by
  simp only [absorb, String.append_assoc, List.append_assoc, List.map_append, List.map_map,
    String.utf8ByteSize_append]
  congr 3
  exact List.map_congr_left fun n _ => (Nat.add_assoc _ _ _)

end Output

/-- Closing the only level forgets every name. -/
theorem ScopeStack.finish_of_depth {κ ν : Type} {s : ScopeStack κ ν} (h : s.depth = 1) : s.finish = .empty := by
  unfold finish
  rw [h]
  simp [trimSlots, empty]

/-- Where a pass is: what stood before it began, and how deep it is. -/
structure Frontier where
  before : Output
  indent : Nat
  flags : RenderFlags
  depth : Nat

/-- A pass behind an output, beside the same pass without it. -/
def Simulation.behind (d : Dialect) (s : Settings) : Simulation Frontier := Lockstep.simulation {
  rel i c c' := c = { c' with output := i.before.absorb c'.output } ∧ c'.dialect = d ∧ c'.settings = s ∧ c'.data = [] ∧
    c'.indent = i.indent ∧ c'.flags = i.flags ∧ c'.scopes.depth = i.depth ∧ (i.depth = 0 → c'.scopes = .empty)
  failed _ _ _ := True
  fail _ := trivial
  alike := by
    rintro i _ c ⟨rfl, -⟩
    exact ⟨rfl, rfl, rfl, rfl⟩
  write := by
    rintro i _ c p ⟨rfl, h⟩
    refine ⟨?_, h⟩
    show ({ c with output := (i.before.absorb c.output).write c.dialect c.settings p } : Context) = _
    rw [← Output.absorb_write]
    rfl
  declare := by
    rintro i _ c n e ⟨rfl, hd, hs, hdata, hi, hf, hk, he⟩
    refine ⟨rfl, hd, hs, hdata, hi, hf, (ScopeStack.depth_set c.scopes n e).trans hk, fun h => ?_⟩
    show c.scopes.set n e = .empty
    rw [he h]
    rfl
  deeper := by
    rintro i _ c ⟨rfl, hd, hs, hdata, hi, h⟩
    refine ⟨{ i with indent := i.indent + 1 }, ⟨rfl, hd, hs, hdata, congrArg (· + 1) hi, h⟩, ?_, fun _ _ h => h⟩
    rintro _ k ⟨rfl, hd, hs, hdata, hi, h⟩
    exact ⟨rfl, hd, hs, hdata, congrArg (· - 1) hi, h⟩
  underFlags := by
    rintro i _ c flags ⟨rfl, hd, hs, hdata, hi, hf, h⟩
    refine ⟨{ i with flags := flags }, ⟨rfl, hd, hs, hdata, hi, rfl, h⟩, ?_, fun _ _ h => h⟩
    rintro _ k ⟨rfl, hd, hs, hdata, hi, _, h⟩
    exact ⟨rfl, hd, hs, hdata, hi, hf, h⟩
  level := by
    rintro i _ c ⟨rfl, hd, hs, hdata, hi, hf, hk, he⟩
    refine ⟨{ i with depth := i.depth + 1 },
      ⟨rfl, hd, hs, hdata, hi, hf, congrArg (· + 1) hk, fun h => absurd h (Nat.succ_ne_zero _)⟩, ?_, fun _ _ h => h⟩
    rintro _ k ⟨rfl, hd, hs, hdata, hi, hf, hk, _⟩
    refine ⟨rfl, hd, hs, hdata, hi, hf, congrArg (· - 1) hk, fun h => ?_⟩
    exact ScopeStack.finish_of_depth (by rw [hk, h])
  detach := by
    rintro i _ c ⟨rfl, hd, hs, hdata, hi, hf, hk, he⟩
    refine ⟨⟨.empty, i.indent, i.flags, c.scopes.flatten.depth⟩, ⟨rfl, hd, hs, hdata, hi, hf, rfl, ?_⟩, ?_⟩
    · -- Where the detached context has no level, there was none to flatten.
      intro h
      show c.scopes.flatten = .empty
      cases ho : c.scopes.isOpen with
      | true => rw [ScopeStack.depth_flatten ho] at h; cases h
      | false => simp [ScopeStack.flatten, ho]
    · rintro _ k ⟨rfl, -⟩
      refine ⟨?_, hd, hs, hdata, hi, hf, hk, he⟩
      show ({ c with output := (i.before.absorb c.output).absorb (Output.empty.absorb k.output) } : Context) = _
      rw [Output.empty_absorb, Output.absorb_assoc]
      rfl }

/-- A node is written behind an output as on its own, or it is refused in both places. -/
theorem Node.behind_cases (n : Node) (d : Dialect) (s : Settings) (o : Output) :
    (∃ k, n.write { Context.new d s with output := o } = .ok () { Context.new d s with output := o.absorb k.output }
      ∧ n.write (Context.new d s) = .ok () k) ∨
    ∃ e k k', n.write { Context.new d s with output := o } = .error e k ∧ n.write (Context.new d s) = .error e k' := by
  have start : (Simulation.behind d s).rel ⟨o, 0, ⟨false, false⟩, 0⟩ { Context.new d s with output := o }
      (Context.new d s) := by
    refine ⟨?_, rfl, rfl, rfl, rfl, rfl, rfl, fun _ => rfl⟩
    show _ = ({ Context.new d s with output := o.absorb .empty } : Context)
    rw [Output.absorb_empty]
  have both := Simulation.Step.node (S := Simulation.behind d s) (i := ⟨o, 0, ⟨false, false⟩, 0⟩) n.reach n start
  rcases both.cases with ⟨_, k, k', hr, hr', hk⟩ | ⟨e, k, k', hr, hr', -⟩
  · refine .inl ⟨k', hr.trans (congrArg _ ?_), hr'⟩
    obtain ⟨rfl, hd, hs, hdata, hi, hf, -, he⟩ := hk
    obtain ⟨_, _, output, _, _, _, _⟩ := k'
    cases hd
    cases hs
    cases hdata
    cases hi
    cases hf
    cases he rfl
    rfl
  · exact .inr ⟨e, k, k', hr, hr'⟩

/-- A node that is written behind an output is written as on its own. -/
theorem Node.write_behind {n : Node} {d : Dialect} {s : Settings} {o : Output} {c : Context}
    (h : n.write { Context.new d s with output := o } = .ok () c) :
    ∃ k, n.write (Context.new d s) = .ok () k ∧ c = { Context.new d s with output := o.absorb k.output } := by
  rcases n.behind_cases d s o with ⟨k, hr, hr'⟩ | ⟨e, k, k', hr, -⟩
  · rw [hr] at h
    cases h
    exact ⟨k, hr', rfl⟩
  · rw [hr] at h
    cases h

/-- A node that is written on its own is written the same behind any output. -/
theorem Node.write_after {n : Node} {d : Dialect} {s : Settings} {k : Context}
    (h : n.write (Context.new d s) = .ok () k) (o : Output) :
    n.write { Context.new d s with output := o } = .ok () { Context.new d s with output := o.absorb k.output } := by
  rcases n.behind_cases d s o with ⟨k', hr, hr'⟩ | ⟨e, k', k'', -, hr'⟩
  · rw [h] at hr'
    cases hr'
    exact hr
  · rw [h] at hr'
    cases hr'

end SqlDialects
