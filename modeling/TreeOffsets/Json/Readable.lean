import TreeOffsets.Json.Token.Number

namespace TreeOffsets

/-- What is asked of the parts of a value. -/
structure Json.Rule where
  str : Text → Prop := fun _ => True
  int : Int → Prop := fun _ => True
  names : List Text → Prop := fun _ => True

mutual

def Json.Meets (rule : Json.Rule) : Json → Prop
  | .int n => rule.int n
  | .str t => rule.str t
  | .arr items => itemsMeet rule items
  | .obj fields => rule.names (Fields.names fields) ∧ fieldsMeet rule fields
  | _ => True

def itemsMeet (rule : Json.Rule) : List Json → Prop
  | [] => True
  | v :: rest => v.Meets rule ∧ itemsMeet rule rest

def fieldsMeet (rule : Json.Rule) : List (Text × Json) → Prop
  | [] => True
  | (_, v) :: rest => v.Meets rule ∧ fieldsMeet rule rest

end

section

variable (rule : Json.Rule) [DecidablePred rule.str] [DecidablePred rule.int]
  [DecidablePred rule.names]

mutual

instance Json.decidableMeets : (v : Json) → Decidable (v.Meets rule)
  | .null => .isTrue trivial
  | .bool _ => .isTrue trivial
  | .float _ => .isTrue trivial
  | .int n => inferInstanceAs (Decidable (rule.int n))
  | .str t => inferInstanceAs (Decidable (rule.str t))
  | .arr items => decidableItemsMeet items
  | .obj fields =>
    have := decidableFieldsMeet fields
    inferInstanceAs (Decidable (rule.names (Fields.names fields) ∧ fieldsMeet rule fields))

instance decidableItemsMeet : (items : List Json) → Decidable (itemsMeet rule items)
  | [] => .isTrue trivial
  | v :: rest =>
    have := Json.decidableMeets v
    have := decidableItemsMeet rest
    inferInstanceAs (Decidable (v.Meets rule ∧ itemsMeet rule rest))

instance decidableFieldsMeet : (fields : List (Text × Json)) → Decidable (fieldsMeet rule fields)
  | [] => .isTrue trivial
  | (_, v) :: rest =>
    have := Json.decidableMeets v
    have := decidableFieldsMeet rest
    inferInstanceAs (Decidable (v.Meets rule ∧ fieldsMeet rule rest))

end

end

namespace Json

/-- Every string and every name in a value is made of scalar values. -/
def IsScalar (v : Json) : Prop :=
  v.Meets { str := Text.IsScalar, names := fun names => ∀ name ∈ names, Text.IsScalar name }

instance (v : Json) : Decidable v.IsScalar := by
  unfold IsScalar
  infer_instance

/-- No integer in a value has more digits than a reader takes. -/
def HasShortIntegers (v : Json) : Prop :=
  v.Meets { int := fun n => Decimal.digitCount n.natAbs ≤ digitLimit }

instance (v : Json) : Decidable v.HasShortIntegers := by
  unfold HasShortIntegers
  infer_instance

/-- No object in a value has a name twice. -/
def HasDistinctNames (v : Json) : Prop := v.Meets { names := List.Nodup }

instance (v : Json) : Decidable v.HasDistinctNames := by
  unfold HasDistinctNames
  infer_instance

end Json

theorem itemsMeet_iff (rule : Json.Rule) (items : List Json) :
    itemsMeet rule items ↔ ∀ v ∈ items, v.Meets rule := by
  induction items with
  | nil => simp [itemsMeet]
  | cons v rest ih => simp [itemsMeet, ih]

theorem fieldsMeet_iff (rule : Json.Rule) (fields : Fields) :
    fieldsMeet rule fields ↔ ∀ field ∈ fields, field.2.Meets rule := by
  induction fields with
  | nil => simp [fieldsMeet]
  | cons field rest ih => simp [fieldsMeet, ih]

end TreeOffsets
