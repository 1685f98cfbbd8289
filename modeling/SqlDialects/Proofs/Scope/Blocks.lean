import SqlDialects.Proofs.Scope.Runs

/-!
# Blocks of a scope stack

A block opens a level, makes changes and closes the level again, and the changes may be blocks themselves. What
is set in a block pads the slots of names that were known before, adds names and goes on at deeper levels, and all
of it is gone when the block ends: a stack that was built by its operations is left as it was, down to the order
of its names and the slots of each of them (`ScopeStack.run_block`).

A stack may have no constructor for missing values. Then a block can be refused where it asks for a name that has
no value, and for no other reason.
-/

set_option autoImplicit false

namespace SqlDialects.ScopeStack

variable {κ ν : Type}

/-- Makes a change to a stack that may have a constructor for the missing values of names. -/
def attempt [BEq κ] (create : Option (κ → Nat → ν)) (s : ScopeStack κ ν) :
    Change κ ν → Except ScopeError (ScopeStack κ ν)
  | .start => .ok s.start
  | .finish => s.finish?
  | .set k v => s.whenOpen .set (s.set k v)
  | .setAll v => s.whenOpen .setAll (s.setAll v)
  | .getOrCreate k =>
    let (answer, s') := s.getOrCreate create k
    answer.map fun _ => s'

/-- With a constructor, these are the changes of a stack that has one. -/
theorem attempt_some [BEq κ] (make : κ → Nat → ν) (s : ScopeStack κ ν) (c : Change κ ν) :
    s.attempt (some make) c = s.change make c := by
  cases c <;> rfl

/-- Whether a change neither opens nor closes a level. -/
def Change.isWithin : Change κ ν → Bool
  | .start | .finish => false
  | .set _ _ | .setAll _ | .getOrCreate _ => true

/-- Changes between the opening of a level and its closing. -/
def block (body : List (Change κ ν)) : List (Change κ ν) := .start :: (body ++ [.finish])

/-- Changes in which the levels that are opened are the levels that are closed. -/
inductive Balanced : List (Change κ ν) → Prop where
  | nil : Balanced []
  | within {c : Change κ ν} {cs : List (Change κ ν)} : c.isWithin = true → Balanced cs → Balanced (c :: cs)
  | block {body cs : List (Change κ ν)} : Balanced body → Balanced cs → Balanced (block body ++ cs)

/-- What changes of the innermost level leave of a stack: all that is there once that level is closed. -/
structure SameBelow (s t : ScopeStack κ ν) : Prop where
  tidy : t.Tidy
  depth_eq : t.depth = s.depth
  finish_eq : t.finish = s.finish

theorem SameBelow.refl {s : ScopeStack κ ν} (h : s.Tidy) : s.SameBelow s := ⟨h, rfl, rfl⟩

theorem SameBelow.trans {s t u : ScopeStack κ ν} (h : s.SameBelow t) (h' : t.SameBelow u) : s.SameBelow u :=
  ⟨h'.tidy, h'.depth_eq.trans h.depth_eq, h'.finish_eq.trans h.finish_eq⟩

theorem isOpen_of_depth_eq {s t : ScopeStack κ ν} (h : t.depth = s.depth) : t.isOpen = s.isOpen := by
  rw [isOpen, isOpen, h]

/-! ## Changes of one level -/

/-- What is set for every name on a level is forgotten when the level is closed. -/
theorem finish_setAll (s : ScopeStack κ ν) (v : ν) : (s.setAll v).finish = s.finish := by
  cases hl : s.level? with
  | none => rw [setAll, hl]
  | some n =>
    have hd : s.depth = n + 1 := depth_of_level? hl
    have kept : (s.slots.map fun e => (e.1, putAt e.2 n v)).map (fun e => (e.1, trimSlots n e.2))
        = s.slots.map fun e => (e.1, trimSlots n e.2) := by
      rw [List.map_map]
      apply List.map_congr_left
      intro e _
      exact congrArg (Prod.mk e.1) (trimSlots_putAt e.2 n v)
    simp only [setAll, hl, finish, hd, Nat.add_sub_cancel, kept]

theorem SameBelow.setAll {s : ScopeStack κ ν} (h : s.Tidy) (v : ν) : s.SameBelow (s.setAll v) := by
  refine ⟨h.setAll v, ?_, finish_setAll s v⟩
  unfold ScopeStack.setAll
  split <;> rfl

theorem SameBelow.set [BEq κ] [LawfulBEq κ] {s : ScopeStack κ ν} (h : s.Tidy) (k : κ) (v : ν) :
    s.SameBelow (s.set k v) :=
  ⟨h.set k v, depth_set s k v, finish_set s k v⟩

/-- What a run comes to: a stack as said, or a name that has no value and no constructor to make one. -/
def EndsIn (create : Option (κ → Nat → ν)) (P : ScopeStack κ ν → Prop) : Except ScopeError (ScopeStack κ ν) → Prop
  | .ok t => P t
  | .error e => e = .noConstructor ∧ create = none

theorem EndsIn.imp {create : Option (κ → Nat → ν)} {P Q : ScopeStack κ ν → Prop}
    {r : Except ScopeError (ScopeStack κ ν)} (h : EndsIn create P r) (hi : ∀ t, P t → Q t) : EndsIn create Q r := by
  cases r with
  | ok t => exact hi t h
  | error e => exact h

theorem EndsIn.bind {create : Option (κ → Nat → ν)} {P Q : ScopeStack κ ν → Prop}
    {r : Except ScopeError (ScopeStack κ ν)} {f : ScopeStack κ ν → Except ScopeError (ScopeStack κ ν)}
    (h : EndsIn create P r) (hf : ∀ t, P t → EndsIn create Q (f t)) : EndsIn create Q (r >>= f) := by
  cases r with
  | ok t => exact hf t h
  | error e => exact h

section Lawful

variable [BEq κ] [LawfulBEq κ] {create : Option (κ → Nat → ν)} {s t : ScopeStack κ ν}

/-- A change within the innermost level leaves all that is below it alone. -/
theorem attempt_within {c : Change κ ν} (hc : c.isWithin = true) (h : s.Tidy) (ho : s.isOpen = true) :
    EndsIn create s.SameBelow (s.attempt create c) := by
  cases c with
  | start => cases hc
  | finish => cases hc
  | set k v =>
    rw [attempt, whenOpen, if_pos ho]
    exact .set h k v
  | setAll v =>
    rw [attempt, whenOpen, if_pos ho]
    exact .setAll h v
  | getOrCreate k =>
    obtain ⟨n, hl⟩ : ∃ n, s.level? = some n := by
      unfold level?
      split
      · next hd => simp [isOpen, hd] at ho
      · exact ⟨_, rfl⟩
    cases hk : s.get? k with
    | some v =>
      simp only [attempt, getOrCreate, hl, hk]
      exact .refl h
    | none =>
      cases create with
      | some make =>
        simp only [attempt, getOrCreate, hl, hk]
        exact .set h k _
      | none =>
        simp only [attempt, getOrCreate, hl, hk]
        exact ⟨rfl, rfl⟩

/-- What a change makes of a stack in order, if it is not refused, is in order. -/
theorem Tidy.attempt {c : Change κ ν} (h : s.Tidy) (ht : s.attempt create c = .ok t) : t.Tidy := by
  cases ho : s.isOpen with
  | true =>
    cases hc : c.isWithin with
    | true =>
      have hs : EndsIn create s.SameBelow (s.attempt create c) := attempt_within hc h ho
      rw [ht] at hs
      exact hs.tidy
    | false =>
      cases c with
      | start => cases ht; exact h.start
      | finish =>
        rw [ScopeStack.attempt, finish?, if_pos ho] at ht
        cases ht
        exact h.finish
      | set k v => cases hc
      | setAll v => cases hc
      | getOrCreate k => cases hc
  | false =>
    -- Without an open level all that can be done is to open one.
    have hl : s.level? = none := by
      unfold level?
      split
      · rfl
      · next hd => simp [isOpen, hd] at ho
    cases c with
    | start => cases ht; exact h.start
    | finish => simp [ScopeStack.attempt, finish?, ho] at ht
    | set k v => simp [ScopeStack.attempt, whenOpen, ho] at ht
    | setAll v => simp [ScopeStack.attempt, whenOpen, ho] at ht
    | getOrCreate k => simp [ScopeStack.attempt, getOrCreate, hl, Except.map] at ht

/-! ## Runs -/

theorem Tidy.run {cs : List (Change κ ν)} (h : s.Tidy) (ht : cs.foldlM (ScopeStack.attempt create) s = .ok t) :
    t.Tidy := by
  induction cs generalizing s with
  | nil => cases ht; exact h
  | cons c cs ih =>
    rw [List.foldlM_cons] at ht
    cases hs : s.attempt create c with
    | error e => rw [hs] at ht; cases ht
    | ok u =>
      rw [hs] at ht
      exact ih (h.attempt hs) ht

omit [LawfulBEq κ] in
/-- A block whose changes leave alone what is below their level gives back the stack. -/
theorem run_block_of_body {body : List (Change κ ν)} (h : s.Tidy)
    (hb : EndsIn create s.start.SameBelow (body.foldlM (attempt create) s.start)) :
    EndsIn create (· = s) ((block body).foldlM (attempt create) s) := by
  show EndsIn create (· = s) ((body ++ [Change.finish]).foldlM (attempt create) s.start)
  rw [List.foldlM_append]
  refine hb.bind fun t ht => ?_
  have ho : t.isOpen = true := isOpen_of_depth_eq ht.depth_eq
  have restored : t.attempt create .finish = .ok s := by
    rw [attempt, finish?, if_pos ho, ht.finish_eq, h.finish_start]
  rw [List.foldlM_cons, restored]
  exact rfl

/-- Balanced changes leave alone all that is below their level: each does, and what is left of a block among them
is the stack at which it began. -/
theorem run_balanced {cs : List (Change κ ν)} (hb : Balanced cs) (h : s.Tidy) (ho : s.isOpen = true) :
    EndsIn create s.SameBelow (cs.foldlM (attempt create) s) := by
  induction hb generalizing s with
  | nil => exact .refl h
  | within hc _ ih =>
    rw [List.foldlM_cons]
    refine (attempt_within hc h ho).bind fun t ht => ?_
    have ho' : t.isOpen = true := (isOpen_of_depth_eq ht.depth_eq).trans ho
    exact (ih ht.tidy ho').imp fun u hu => ht.trans hu
  | block _ _ ihBody ih =>
    rw [List.foldlM_append]
    refine (run_block_of_body h (ihBody h.start rfl)).bind fun t ht => ?_
    subst ht
    exact ih h ho

end Lawful

/-- A block leaves a stack exactly as it was, whatever changes made the stack and whatever changes and blocks the
block consists of. It is refused only where it asks for a name that has no value, of a stack without a
constructor. -/
theorem run_block [DecidableEq κ] (create : Option (κ → Nat → ν)) {past : List (Change κ ν)} {s : ScopeStack κ ν}
    (reached : past.foldlM (attempt create) empty = .ok s) {body : List (Change κ ν)} (balanced : Balanced body) :
    (block body).foldlM (attempt create) s = .ok s
      ∨ create = none ∧ (block body).foldlM (attempt create) s = .error .noConstructor := by
  have tidy : s.Tidy := Tidy.empty.run reached
  have ends : EndsIn create (· = s) ((block body).foldlM (attempt create) s) :=
    run_block_of_body tidy (run_balanced balanced tidy.start rfl)
  cases hr : (block body).foldlM (attempt create) s with
  | ok t =>
    rw [hr] at ends
    exact .inl (congrArg Except.ok ends)
  | error e =>
    rw [hr] at ends
    exact .inr ⟨ends.2, congrArg Except.error ends.1⟩

/-- A block in which known names are padded and hidden, all names are set two levels below, and names are made that
were not there before. -/
theorem run_block_nested :
    let make : Char → Nat → Nat := fun k level => k.toNat + level
    let past : List (Change Char Nat) := [.start, .set 't' 1, .start, .set 'u' 2]
    let body : List (Change Char Nat) :=
      [.set 'v' 3] ++ (block ([.getOrCreate 't'] ++ (block [.setAll 4, .getOrCreate 'w'] ++ [.set 't' 5]))
        ++ [.getOrCreate 'x'])
    let s : ScopeStack Char Nat := ⟨2, [('t', [some 1]), ('u', [none, some 2])]⟩
    past.foldlM (attempt (some make)) empty = .ok s ∧ Balanced body
      ∧ (block body).foldlM (attempt (some make)) s = .ok s := by
  intro make past body s
  have reached : past.foldlM (attempt (some make)) empty = .ok s := rfl
  have balanced : Balanced body := by
    refine .within rfl (.block (.within rfl (.block ?_ ?_)) (.within rfl .nil))
    · exact .within rfl (.within rfl .nil)
    · exact .within rfl .nil
  exact ⟨reached, balanced, (run_block (some make) reached balanced).resolve_right (by simp)⟩

end SqlDialects.ScopeStack
