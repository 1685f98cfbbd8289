import SqlDialects.Dialect

/-!
# Sets of dialects

A capability that some dialects lack is recorded as the set of exactly those dialects. A set is its
membership test, so union and complement are the Boolean connectives, and the members are listed in
the order of `Dialect.all`.
-/

set_option autoImplicit false

namespace SqlDialects

/-- A set of dialects, given by its membership test. -/
structure DialectSet where
  contains : Dialect → Bool

namespace DialectSet

@[ext] theorem ext {s t : DialectSet} (h : ∀ d, s.contains d = t.contains d) : s = t := by
  cases s; cases t; congr; exact funext h

def empty : DialectSet := ⟨fun _ => false⟩

instance : Inhabited DialectSet := ⟨empty⟩

def ofList (ds : List Dialect) : DialectSet := ⟨fun d => ds.contains d⟩

/-- The set of all dialects of the listed families. -/
def ofFamilies (fs : List Family) : DialectSet := ⟨fun d => fs.contains d.family⟩

def union (s t : DialectSet) : DialectSet := ⟨fun d => s.contains d || t.contains d⟩

def complement (s : DialectSet) : DialectSet := ⟨fun d => !s.contains d⟩

/-- The members, in the order of `Dialect.all`. -/
def toList (s : DialectSet) : List Dialect := Dialect.all.filter s.contains

def isEmpty (s : DialectSet) : Bool := s.toList.isEmpty

theorem mem_toList {s : DialectSet} {d : Dialect} : d ∈ s.toList ↔ s.contains d = true := by
  simp [toList, Dialect.mem_all]

theorem isEmpty_iff {s : DialectSet} : s.isEmpty = true ↔ s = empty := by
  rw [isEmpty, List.isEmpty_iff, List.eq_nil_iff_forall_not_mem]
  constructor
  · intro h
    ext d
    simpa [empty, mem_toList] using h d
  · rintro rfl d h
    simp [mem_toList, empty] at h

end DialectSet

end SqlDialects
