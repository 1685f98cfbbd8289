import SqlDialects.Proofs.Render.Parts
import Mathlib.Data.String.Basic

/-!
# Weaves: text around values

What a pass writes is fixed text with values between. A `Weave` holds both without saying how a value is
spelled; an output with placeholders and an output with literals are two readings of one weave. The numbered
placeholders of a dollar dialect are not in the text of an output but kept as offsets into it, so the reading
with placeholders becomes text only when the pass ends (`Weave.finish_output`).
-/

set_option autoImplicit false

namespace SqlDialects

/-- How the placeholder of a bind is written, the binds being counted from one. -/
def Dialect.placeholder (d : Dialect) (number : Nat) : String :=
  match d.placeholderStyle with
  | .question => "?"
  | .dollar => "$" ++ Decimal.digits number

/-- Values with the text before each, and the text behind the last. -/
structure Weave where
  before : List (String × Value)
  last : String

namespace Weave

/-- The values, in order. -/
def values (w : Weave) : List Value := w.before.map Prod.snd

/-- Text and values in turn, the values counted from a number and each spelled with its number. -/
def spellFrom (spelling : Nat → Value → String) (number : Nat) : List (String × Value) → String → String
  | [], last => last
  | (text, v) :: rest, last => text ++ spelling number v ++ spellFrom spelling (number + 1) rest last

/-- The text with every value spelled in its place, the first value being number one. -/
def spell (w : Weave) (spelling : Nat → Value → String) : String :=
  spellFrom spelling 1 w.before w.last

/-- The text without the values. -/
def plain : List (String × Value) → String
  | [] => ""
  | (text, _) :: rest => text ++ plain rest

/-- The offsets of the values in the text without them, if the text begins at an offset. -/
def offsetsFrom (start : Nat) : List (String × Value) → List Nat
  | [] => []
  | (text, _) :: rest =>
    (start + text.utf8ByteSize) :: offsetsFrom (start + text.utf8ByteSize) rest

def empty : Weave := ⟨[], ""⟩

/-- A weave with a piece behind it. -/
def write (d : Dialect) (s : Settings) (w : Weave) : Piece → Weave
  | .bind v => ⟨w.before ++ [(w.last, v)], ""⟩
  | p => ⟨w.before, w.last ++ p.spell d s⟩

/-- The output that a weave stands for where values are placeholders. -/
def output (d : Dialect) (w : Weave) : Output :=
  match d.placeholderStyle with
  | .question => ⟨w.spell fun _ _ => "?", w.values, []⟩
  | .dollar => ⟨plain w.before ++ w.last, w.values, offsetsFrom 0 w.before⟩

/-- The output that it stands for where values are literals. -/
def inlined (d : Dialect) (w : Weave) : Output := ⟨w.spell fun _ v => v.literal d, [], []⟩

/-! ## Writing behind a weave -/

theorem spellFrom_append (spelling : Nat → Value → String) (number : Nat)
    (before : List (String × Value)) (last text : String) :
    spellFrom spelling number before (last ++ text) = spellFrom spelling number before last ++ text := by
  induction before generalizing number with
  | nil => rfl
  | cons e rest ih =>
    simp only [spellFrom]
    rw [ih, ← String.append_assoc]

theorem spellFrom_snoc (spelling : Nat → Value → String) (number : Nat)
    (before : List (String × Value)) (last : String) (v : Value) :
    spellFrom spelling number (before ++ [(last, v)]) ""
      = spellFrom spelling number before last ++ spelling (number + before.length) v := by
  induction before generalizing number with
  | nil => simp [spellFrom]
  | cons e rest ih =>
    simp only [spellFrom, List.cons_append, List.length_cons]
    rw [ih, ← String.append_assoc, Nat.add_right_comm, Nat.add_assoc]

theorem plain_snoc (before : List (String × Value)) (last : String) (v : Value) :
    plain (before ++ [(last, v)]) = plain before ++ last := by
  induction before with
  | nil => simp [plain]
  | cons e rest ih =>
    simp only [plain, List.cons_append]
    rw [ih, String.append_assoc]

theorem offsetsFrom_snoc (start : Nat) (before : List (String × Value)) (last : String) (v : Value) :
    offsetsFrom start (before ++ [(last, v)])
      = offsetsFrom start before ++ [start + (plain before ++ last).utf8ByteSize] := by
  induction before generalizing start with
  | nil => simp [offsetsFrom, plain]
  | cons e rest ih =>
    simp only [offsetsFrom, plain, List.cons_append]
    rw [ih]
    simp only [String.utf8ByteSize_append]
    congr 3
    omega

/-- A piece that is no bind is text, and the same text under all parameter types. -/
theorem write_text {d : Dialect} {s : Settings} {w : Weave} {p : Piece} (hp : ∀ v, p ≠ .bind v) :
    w.write d s p = ⟨w.before, w.last ++ p.spell d s⟩ := by
  cases p with
  | bind v => exact absurd rfl (hp v)
  | _ => rfl

theorem output_write (d : Dialect) (s : Settings) (w : Weave) (p : Piece) :
    (w.write d s p).output d = (w.output d).write d s.indexed p := by
  by_cases hp : ∃ v, p = .bind v
  · -- A bind ends the text before it. A question mark is written at once, a dollar sign is an offset.
    obtain ⟨v, rfl⟩ := hp
    show Weave.output d ⟨w.before ++ [(w.last, v)], ""⟩ = (w.output d).addBind d v
    unfold output Output.addBind
    cases d.placeholderStyle with
    | question => simp [spell, values, spellFrom_snoc]
    | dollar => simp [values, plain_snoc, offsetsFrom_snoc]
  · have hp' : ∀ v, p ≠ .bind v := fun v h => hp ⟨v, h⟩
    rw [write_text hp']
    have ht : (w.output d).write d s.indexed p = (w.output d).append (p.spell d s) := by
      cases p with
      | bind v => exact absurd rfl (hp' v)
      | _ => rfl
    rw [ht]
    unfold output Output.append
    cases d.placeholderStyle with
    | question => simp [spell, values, spellFrom_append]
    | dollar => simp [values, String.append_assoc]

theorem inlined_write (d : Dialect) (s : Settings) (w : Weave) (p : Piece) :
    (w.write d s p).inlined d = (w.inlined d).write d s.inlined p := by
  have hw : (w.inlined d).write d s.inlined p = (w.inlined d).append (p.spell d s) := by
    cases p <;> rfl
  rw [hw]
  cases p with
  | bind v => simp [write, inlined, Output.append, spell, spellFrom_snoc, Piece.spell]
  | _ => simp [write, inlined, Output.append, spell, spellFrom_append]

/-! ## The end of a pass -/

theorem slice_append (a b c : String) :
    Output.slice (a ++ b ++ c) a.utf8ByteSize (a.utf8ByteSize + b.utf8ByteSize) = b := by
  obtain ⟨l, rfl⟩ := a.exists_eq_ofList
  obtain ⟨m, rfl⟩ := b.exists_eq_ofList
  obtain ⟨r, rfl⟩ := c.exists_eq_ofList
  rw [Output.slice, String.utf8ByteSize_ofList, String.utf8ByteSize_ofList, ← String.ofList_append,
    ← String.ofList_append]
  exact String.extract_of_valid l m r

/-- Numbering the offsets puts a placeholder where each value is. -/
theorem number_offsetsFrom (number : Nat) (done : String) (before : List (String × Value))
    (last : String) :
    Output.number (done ++ (plain before ++ last)) done.utf8ByteSize number
        (offsetsFrom done.utf8ByteSize before)
      = spellFrom (fun i _ => "$" ++ Decimal.digits i) number before last := by
  -- The text that is done with stays in front, so that the offsets keep counting from the start of the text.
  induction before generalizing number done with
  | nil =>
    have h := slice_append done last ""
    simpa [Output.number, offsetsFrom, plain, spellFrom] using h
  | cons e rest ih =>
    obtain ⟨text, v⟩ := e
    have hs := slice_append done text (plain rest ++ last)
    have hr := ih (number + 1) (done ++ text)
    simp only [Output.number, offsetsFrom, plain, spellFrom, String.append_assoc,
      String.utf8ByteSize_append] at hs hr ⊢
    rw [hs, hr]

/-- A pass with placeholders ends in the values and the text with a placeholder in place of each. -/
theorem finish_output (d : Dialect) (w : Weave) :
    (w.output d).finish = ⟨w.spell fun i _ => d.placeholder i, w.values⟩ := by
  unfold output Dialect.placeholder
  cases d.placeholderStyle with
  | question =>
    have h := slice_append "" (w.spell fun _ _ => "?") ""
    simpa [Output.finish, Output.number] using h
  | dollar =>
    have h := number_offsetsFrom 1 "" w.before w.last
    simpa [Output.finish, spell] using h

/-- A pass without placeholders ends in the text with a literal in place of each value. -/
theorem finish_inlined (d : Dialect) (w : Weave) :
    (w.inlined d).finish = ⟨w.spell fun _ v => v.literal d, []⟩ := by
  have h := slice_append "" (w.spell fun _ v => v.literal d) ""
  simpa [Output.finish, Output.number, inlined] using h

end Weave

end SqlDialects
