import TreeOffsets.Json.Readable
import TreeOffsets.Tree.Weight

namespace TreeOffsets.Proofs.TreeInduction

/-- The cases of an induction over values, lists of items and lists of fields. -/
structure TreeCases (value : Json → Prop) (items : List Json → Prop)
    (fields : Fields → Prop) : Prop where
  scalar : ∀ v, v.isContainer = false → value v
  arr : ∀ vs, items vs → value (.arr vs)
  obj : ∀ node, (∀ located, fieldsWeight located ≤ fieldsWeight node + 2 → fields located) →
    value (.obj node)
  noItems : items []
  item : ∀ v rest, value v → items rest → items (v :: rest)
  noFields : fields []
  field : ∀ name v rest, value v → fields rest → fields ((name, v) :: rest)

namespace TreeCases

variable {value : Json → Prop} {items : List Json → Prop} {fields : Fields → Prop}

mutual

theorem value_of (cases : TreeCases value items fields) (v : Json) : value v := by
  match v with
  | .arr vs => exact cases.arr vs (items_of cases vs)
  | .obj node => exact cases.obj node fun located _ => fields_of cases located
  | .null | .bool _ | .int _ | .float _ | .str _ => exact cases.scalar _ rfl
termination_by 2 * v.weight
decreasing_by
  · simp only [Json.weight]
    omega
  · simp only [Json.weight]
    omega

theorem items_of (cases : TreeCases value items fields) (vs : List Json) : items vs := by
  match vs with
  | [] => exact cases.noItems
  | v :: rest => exact cases.item v rest (value_of cases v) (items_of cases rest)
termination_by 2 * itemsWeight vs + 1
decreasing_by
  · simp only [itemsWeight]
    omega
  · have := v.weight_pos
    simp only [itemsWeight]
    omega

theorem fields_of (cases : TreeCases value items fields) (node : Fields) : fields node := by
  match node with
  | [] => exact cases.noFields
  | (name, v) :: rest =>
      exact cases.field name v rest (value_of cases v) (fields_of cases rest)
termination_by 2 * fieldsWeight node + 1
decreasing_by
  · simp only [fieldsWeight]
    omega
  · have := v.weight_pos
    simp only [fieldsWeight]
    omega

end

end TreeCases

/-- A property that a list has with its items, and an object with the values of its fields, is one
of every value. -/
@[elab_as_elim]
theorem value_of_members {motive : Json → Prop}
    (scalar : ∀ v, v.isContainer = false → motive v)
    (arr : ∀ items, (∀ v ∈ items, motive v) → motive (.arr items))
    (obj : ∀ fields : Fields, (∀ field ∈ fields, motive field.2) → motive (.obj fields))
    (v : Json) : motive v :=
  have cases : TreeCases motive (fun items => ∀ v ∈ items, motive v)
      (fun fields => ∀ field ∈ fields, motive field.2) := {
    scalar
    arr
    obj := fun fields hfields => obj fields (hfields fields (Nat.le_add_right _ _))
    noItems := fun _ hv => absurd hv List.not_mem_nil
    item := fun _ _ hv hitems => List.forall_mem_cons.mpr ⟨hv, hitems⟩
    noFields := fun _ hfield => absurd hfield List.not_mem_nil
    field := fun _ _ _ hv hfields => List.forall_mem_cons.mpr ⟨hv, hfields⟩ }
  cases.value_of v

theorem meets_default (v : Json) : v.Meets {} := by
  induction v using value_of_members with
  | scalar v hv =>
      cases v with
      | arr items => cases hv
      | obj fields => cases hv
      | _ => exact trivial
  | arr items hitems => exact (itemsMeet_iff _ items).mpr hitems
  | obj fields hfields => exact ⟨trivial, (fieldsMeet_iff _ fields).mpr hfields⟩

/-- One rule asks no more than another one. -/
structure Weakens (rule weaker : Json.Rule) : Prop where
  str : ∀ t, rule.str t → weaker.str t
  int : ∀ n, rule.int n → weaker.int n
  names : ∀ names, rule.names names → weaker.names names

theorem Weakens.meets {rule weaker : Json.Rule} (h : Weakens rule weaker) {v : Json}
    (hv : v.Meets rule) : v.Meets weaker := by
  induction v using value_of_members with
  | scalar v hscalar =>
      cases v with
      | int n => exact h.int n hv
      | str t => exact h.str t hv
      | arr items => cases hscalar
      | obj fields => cases hscalar
      | _ => exact trivial
  | arr items hitems =>
      have hmeet := (itemsMeet_iff _ items).mp hv
      exact (itemsMeet_iff _ items).mpr fun v hmem => hitems v hmem (hmeet v hmem)
  | obj fields hfields =>
      have hmeet := (fieldsMeet_iff _ fields).mp hv.2
      refine ⟨h.names _ hv.1, (fieldsMeet_iff _ fields).mpr fun field hmem => ?_⟩
      exact hfields field hmem (hmeet field hmem)

end TreeOffsets.Proofs.TreeInduction
