import SqlDialects.Query.Syntax

/-!
# Segments of a template

In a template, decimal digits between braces refer to a substitute. A brace that begins no reference is
text, also right before one that does, and so is a number that no index of 64 bits can hold.
-/

set_option autoImplicit false

namespace SqlDialects

inductive Segment where
  | text (text : String)
  | substitute (index : Nat)
  deriving DecidableEq

namespace Segment

def decimalValue (ds : List Char) : Nat :=
  ds.foldl (fun n c => 10 * n + (c.toNat - 48)) 0

/-- The segment of a run of text, given in reverse; none if it is empty. -/
def ofReversed : List Char → List Segment
  | [] => []
  | cs => [text (String.ofList cs.reverse)]

/-- The reference that follows an opening brace, and the text behind its closing brace. -/
def reference? (rest : List Char) : Option (Nat × List Char) :=
  let ds := rest.takeWhile Text.isAsciiDigit
  match rest.dropWhile Text.isAsciiDigit with
  | '\x7d' :: after =>
    if ds ≠ [] ∧ decimalValue ds < Nat.pow 2 64 then some (decimalValue ds, after) else none
  | _ => none

theorem length_lt_of_reference? {rest after : List Char} {i : Nat}
    (h : reference? rest = some (i, after)) : after.length < rest.length := by
  have le := (List.dropWhile_sublist (p := Text.isAsciiDigit) (l := rest)).length_le
  unfold reference? at h
  dsimp only at h
  split at h
  · next after' heq =>
    split at h
    · simp only [Option.some.injEq, Prod.mk.injEq] at h
      rw [heq] at le
      obtain ⟨_, rfl⟩ := h
      simp at le; omega
    · simp at h
  · simp at h

/-- The segments of a template whose text so far is given in reverse. -/
def scan (pending : List Char) (cs : List Char) : List Segment :=
  match cs with
  | [] => ofReversed pending
  | c :: rest =>
    if c = '\x7b' then
      match _found : reference? rest with
      | some (i, after) => ofReversed pending ++ substitute i :: scan [] after
      | none => ofReversed ('\x7b' :: pending) ++ scan [] rest
    else scan (c :: pending) rest
termination_by cs.length
decreasing_by
  · have := length_lt_of_reference? _found
    simp; omega
  · simp
  · simp

/-- The segments of a template's text, none of them empty. -/
def ofTemplate (text : String) : List Segment := scan [] text.toList

end Segment

end SqlDialects
