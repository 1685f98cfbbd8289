import SqlDialects.Query.Node

/-!
# A node is its parts

Label, value and children are a complete view of a node: two nodes that agree in all three are equal
(`Node.eq_of_parts`). So a relation that says what becomes of these three says what becomes of the node.
-/

set_option autoImplicit false

namespace SqlDialects

/-- The kind of node that a label belongs to, counted in the order of `Node`. -/
def Label.kind : Label → Nat
  | .noCondition | .compare _ | .isNull _ | .between _ | .inList _ | .existence _ | .selectIsNull _ | .combined _
  | .xor | .not | .xmlExists _ _ | .fieldCondition | .rawCondition _ _ => 1
  | .named _ _ _ | .derived _ _ | .lateral | .join _ _ | .hinted => 2
  | .select _ _ _ _ _ _ _ _ => 3
  | .sortField _ _ => 4
  | .commonTable _ _ => 5
  | .window _ => 6
  | .hint _ => 7
  | _ => 0

namespace Node

/-! ## Lists of children that are told apart -/

@[simp] theorem map_field_inj {xs ys : List Field} : xs.map field = ys.map field ↔ xs = ys :=
  List.map_inj_right fun _ _ => field.inj

theorem toList_inj {α : Type} {g : α → Node} (hg : ∀ a b, g a = g b → a = b) {a b : Option α}
    (h : a.toList.map g = b.toList.map g) : a = b := by
  cases a <;> cases b <;> simp at h
  case none.none => rfl
  case some.some a b => rw [hg a b h]

/-- Two lists that both end in an optional node, or neither of which does, are equal part by part. -/
theorem append_toList_inj {α : Type} {g : α → Node} (hg : ∀ a b, g a = g b → a = b) {xs ys : List Node}
    {a b : Option α} (hs : a.isSome = b.isSome) (h : xs ++ a.toList.map g = ys ++ b.toList.map g) :
    xs = ys ∧ a = b := by
  have hlen : (a.toList.map g).length = (b.toList.map g).length := by
    cases a <;> cases b <;> simp at hs ⊢
  obtain ⟨hx, ho⟩ := List.append_inj' h hlen
  exact ⟨hx, toList_inj hg ho⟩

theorem branches_inj {α : Type} {g : α → Node} (hg : ∀ a b, g a = g b → a = b) {bs bs' : List (α × Field)}
    (h : bs.flatMap (fun b => [g b.1, field b.2]) = bs'.flatMap (fun b => [g b.1, field b.2])) : bs = bs' := by
  induction bs generalizing bs' with
  | nil => cases bs' <;> simp_all
  | cons b bs ih =>
    cases bs' with
    | nil => simp at h
    | cons b' bs' =>
      simp only [List.flatMap_cons, List.cons_append, List.nil_append, List.cons.injEq, field.injEq] at h
      obtain ⟨h₁, h₂, h⟩ := h
      rw [ih h, Prod.ext (hg _ _ h₁) h₂]

/-! ## One kind of node at a time -/

theorem eq_of_fieldParts {f g : Field} (hl : fieldLabel f = fieldLabel g)
    (hv : (field f).value? = (field g).value?) (hc : fieldChildren f = fieldChildren g) : f = g := by
  -- The labels tell the constructors apart, so that only pairs of the same constructor are left.
  cases f <;> cases g <;> simp [fieldLabel] at hl
  case jsonValue.jsonValue x p r e y p' r' e' =>
    obtain ⟨rfl, rfl, he⟩ := hl
    rcases e with _ | (_ | _ | _) <;> rcases e' with _ | (_ | _ | _) <;> simp_all [fieldChildren]
  all_goals simp [value?, fieldChildren] at hv hc
  case aggregate.aggregate a b =>
    obtain ⟨kind, value, distinct, window⟩ := a
    obtain ⟨kind', value', distinct', window'⟩ := b
    obtain ⟨rfl, hs, rfl, hw⟩ := hl
    obtain ⟨hc, rfl⟩ := append_toList_inj (fun _ _ => Node.window.inj) hw hc
    obtain rfl := toList_inj (a := value) (fun _ _ => field.inj) hc
    rfl
  case searchedCase.searchedCase =>
    obtain ⟨hb, rfl⟩ := append_toList_inj (fun _ _ => field.inj) hl hc
    rw [branches_inj (fun _ _ => condition.inj) hb]
  case simpleCase.simpleCase =>
    obtain ⟨rfl, hc⟩ := hc
    obtain ⟨hb, rfl⟩ := append_toList_inj (fun _ _ => field.inj) hl hc
    rw [branches_inj (fun _ _ => field.inj) hb]
  case jsonObject.jsonObject es n es' n' =>
    obtain ⟨hk, rfl⟩ := hl
    have hs : es.map Prod.snd = es'.map Prod.snd := by
      rw [← map_field_inj, List.map_map, List.map_map]
      exact hc
    have hz : es = _ := List.zip_of_prod hk hs
    rw [hz, ← List.zip_of_prod rfl rfl]
  case raw.raw t t' =>
    cases t
    cases t'
    simp_all
  case inline.inline l l' =>
    cases l
    cases l'
    simp_all
  all_goals simp_all

theorem eq_of_conditionParts {c d : Condition} (hl : conditionLabel c = conditionLabel d)
    (hc : conditionChildren c = conditionChildren d) : c = d := by
  cases c <;> cases d <;> simp [conditionLabel] at hl
  all_goals simp [conditionChildren, List.map_inj_right] at hc
  case raw.raw t t' =>
    cases t
    cases t'
    simp_all
  all_goals simp_all

theorem eq_of_tableParts {t u : Table} (hl : tableLabel t = tableLabel u)
    (hc : tableChildren t = tableChildren u) : t = u := by
  cases t <;> cases u <;> simp [tableLabel] at hl
  case join.join ty l r on ty' l' r' on' =>
    cases on <;> cases on' <;> simp [tableChildren] at hl hc <;> simp_all
  all_goals simp [tableChildren] at hc
  all_goals simp_all

theorem eq_of_selectParts {s s' : Select} (hl : (select s).label = (select s').label)
    (hc : (select s).children = (select s').children) : s = s' := by
  obtain ⟨w, distinct, fields, tables, condition, groupBy, having, orderBy, limit, offset⟩ := s
  obtain ⟨w', distinct', fields', tables', condition', groupBy', having', orderBy', limit', offset'⟩ := s'
  simp only [label, Label.select.injEq] at hl
  obtain ⟨hw, rfl, hn, hf, ht, hg, rfl, rfl⟩ := hl
  simp [children, clauseChildren] at hc
  obtain ⟨hct, hc⟩ := List.append_inj hc (by simpa using hn)
  obtain ⟨hfs, hc⟩ := List.append_inj hc (by simpa using hf)
  obtain ⟨hts, hc⟩ := List.append_inj hc (by simpa using ht)
  obtain ⟨hcond, hc⟩ := List.cons.inj hc
  obtain ⟨hgs, hc⟩ := List.append_inj hc (by simpa using hg)
  obtain ⟨hhav, hos⟩ := List.cons.inj hc
  have hw' : w = w' := by
    cases w <;> cases w' <;> simp at hw
    case none.none => rfl
    case some.some w w' =>
      cases w
      cases w'
      simp_all [Select.commonTables, List.map_inj_right]
  simp_all [List.map_inj_right]

theorem kind_label (n : Node) : n.label.kind = n.ctorIdx := by
  cases n with
  | field f => cases f <;> rfl
  | condition c => cases c <;> rfl
  | table t => cases t <;> rfl
  | _ => rfl

/-- A node is determined by its label, by the value that it holds and by its children. -/
theorem eq_of_parts {n m : Node} (hl : n.label = m.label) (hv : n.value? = m.value?)
    (hc : n.children = m.children) : n = m := by
  have hk : n.ctorIdx = m.ctorIdx := by rw [← kind_label, ← kind_label, hl]
  cases n <;> cases m <;> simp [Node.ctorIdx] at hk
  case field.field => rw [eq_of_fieldParts hl hv hc]
  case condition.condition => rw [eq_of_conditionParts hl hc]
  case table.table => rw [eq_of_tableParts hl hc]
  case select.select => rw [eq_of_selectParts hl hc]
  case sortField.sortField e e' =>
    cases e
    cases e'
    simp_all [label, children]
  case commonTable.commonTable t t' =>
    cases t
    cases t'
    simp_all [label, children]
  case window.window w w' =>
    cases w
    cases w'
    simp only [label, children, Label.window.injEq] at hl hc
    obtain ⟨hp, ho⟩ := List.append_inj hc (by simpa using hl)
    simp_all [List.map_inj_right]
  case hint.hint => simp_all [label]

end Node
end SqlDialects
