/-!
# Scopes: names per level

A stack of scopes maps names to values level by level. A name is visible from the level it was set at
and from every deeper one, the innermost value hiding the others, and closing a scope discards what
was set at it.

Each name owns a list of slots, one per level up to the deepest level it is set at; levels in between
hold nothing. Names are kept in the order in which they were first set, and that order is the order of
every listing.

The operations proper are total. Those that mean nothing while no scope is open come in a second,
checked form that says which operation was misused (`ScopeError`).
-/

set_option autoImplicit false

namespace SqlDialects

structure ScopeStack (κ ν : Type) where
  depth : Nat
  /-- The slots of every known name, in the order in which the names were first set. -/
  slots : List (κ × List (Option ν))

/-- The operations that need an open scope. -/
inductive ScopeOperation where
  | set
  | setAll
  | get
  | getCurrent
  | getOrCreate
  deriving DecidableEq

/-- Why an operation on scopes cannot be carried out. -/
inductive ScopeError where
  | noScope (operation : ScopeOperation)
  | nothingToClose
  /-- A missing value was asked for and there is no way to make one. -/
  | noConstructor
  deriving DecidableEq

namespace ScopeStack

variable {κ ν : Type} [BEq κ]

def empty : ScopeStack κ ν := ⟨0, []⟩

instance : Inhabited (ScopeStack κ ν) := ⟨empty⟩

def isOpen (s : ScopeStack κ ν) : Bool := s.depth != 0

/-- The level of the innermost scope, counted from zero. -/
def level? (s : ScopeStack κ ν) : Option Nat :=
  match s.depth with
  | 0 => none
  | n + 1 => some n

def start (s : ScopeStack κ ν) : ScopeStack κ ν := { s with depth := s.depth + 1 }

/-- A slot list without slots beyond the open levels and without empty slots at its end. -/
def trimSlots (depth : Nat) (list : List (Option ν)) : List (Option ν) :=
  ((list.take depth).reverse.dropWhile Option.isNone).reverse

/-- Closes the innermost scope and forgets the names that are set nowhere else. -/
def finish (s : ScopeStack κ ν) : ScopeStack κ ν :=
  let depth := s.depth - 1
  { depth := depth
    slots := (s.slots.map (fun e => (e.1, trimSlots depth e.2))).filter (fun e => !e.2.isEmpty) }

/-- A slot list with a value put at one level; levels below it that had no slot get an empty one. -/
def putAt (list : List (Option ν)) (level : Nat) (v : ν) : List (Option ν) :=
  (list ++ List.replicate (level + 1 - list.length) none).set level (some v)

/-- The slots of a name; none if the name is unknown. -/
def slotsOf (s : ScopeStack κ ν) (k : κ) : List (Option ν) :=
  (s.slots.lookup k).getD []

def slotCount (s : ScopeStack κ ν) (k : κ) : Nat := (s.slotsOf k).length

/-- Replaces the slots of a name, or adds the name behind the known ones. -/
def putSlots (k : κ) (list : List (Option ν)) :
    List (κ × List (Option ν)) → List (κ × List (Option ν))
  | [] => [(k, list)]
  | e :: es => if e.1 == k then (e.1, list) :: es else e :: putSlots k list es

/-- Sets a name at the innermost level. Without an open scope nothing is set. -/
def set (s : ScopeStack κ ν) (k : κ) (v : ν) : ScopeStack κ ν :=
  match s.level? with
  | none => s
  | some level => { s with slots := putSlots k (putAt (s.slotsOf k) level v) s.slots }

/-- Sets every known name at the innermost level. -/
def setAll (s : ScopeStack κ ν) (v : ν) : ScopeStack κ ν :=
  match s.level? with
  | none => s
  | some level => { s with slots := s.slots.map (fun e => (e.1, putAt e.2 level v)) }

/-- The innermost value of a slot list. -/
def innermost (list : List (Option ν)) : Option ν :=
  list.reverse.findSome? id

def get? (s : ScopeStack κ ν) (k : κ) : Option ν := innermost (s.slotsOf k)

/-- The value at the innermost level, of a slot list that reaches it. -/
def atDepth (depth : Nat) (list : List (Option ν)) : Option ν :=
  if list.length = depth then list.getLast?.join else none

/-- The value that a name was set to at the innermost level. -/
def getCurrent? (s : ScopeStack κ ν) (k : κ) : Option ν := atDepth s.depth (s.slotsOf k)

/-- Every name with the value visible for it. -/
def toList (s : ScopeStack κ ν) : List (κ × ν) :=
  s.slots.filterMap (fun e => (innermost e.2).map (fun v => (e.1, v)))

/-- Every name set at the innermost level, with its value there. -/
def currentList (s : ScopeStack κ ν) : List (κ × ν) :=
  s.slots.filterMap (fun e => (atDepth s.depth e.2).map (fun v => (e.1, v)))

def isEmpty (s : ScopeStack κ ν) : Bool := s.toList.isEmpty

/-- One level holding everything visible here; no level if no scope is open. -/
def flatten (s : ScopeStack κ ν) : ScopeStack κ ν :=
  if s.isOpen then s.toList.foldl (fun t e => t.set e.1 e.2) empty.start else empty

/-! ## Checked operations -/

/-- An answer that needs an open scope. -/
def whenOpen {α : Type} (s : ScopeStack κ ν) (operation : ScopeOperation) (answer : α) :
    Except ScopeError α :=
  if s.isOpen then .ok answer else .error (.noScope operation)

/-- Closes the innermost scope, if there is one. -/
def finish? (s : ScopeStack κ ν) : Except ScopeError (ScopeStack κ ν) :=
  if s.isOpen then .ok s.finish else .error .nothingToClose

/-- The value visible for a name. If there is none, one is made from the name and the level and set at
that level. A name that is asked for when no value can be made is known from then on, without slots. -/
def getOrCreate (s : ScopeStack κ ν) (create : Option (κ → Nat → ν)) (k : κ) :
    Except ScopeError ν × ScopeStack κ ν :=
  match s.level? with
  | none => (.error (.noScope .getOrCreate), s)
  | some level =>
    match s.get? k, create with
    | some v, _ => (.ok v, s)
    | none, some make => let v := make k level; (.ok v, s.set k v)
    | none, none =>
      (.error .noConstructor, { s with slots := putSlots k (s.slotsOf k) s.slots })

end ScopeStack

end SqlDialects
