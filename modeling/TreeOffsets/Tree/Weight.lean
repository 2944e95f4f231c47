import TreeOffsets.Tree.Walk

/-!
Every value has a weight, and an object weighs enough for the two fields that it may be given. What
is still to be walked gets lighter with each step, or stays and the walk moves out of a container
or on to a value that is next. So every walk comes to its end.
-/

namespace TreeOffsets

mutual

def Json.weight : Json → Nat
  | .arr items => itemsWeight items + 1
  | .obj fields => fieldsWeight fields + 4
  | _ => 1

def itemsWeight : List Json → Nat
  | [] => 0
  | v :: rest => v.weight + itemsWeight rest

def fieldsWeight : List (Text × Json) → Nat
  | [] => 0
  | (_, v) :: rest => v.weight + fieldsWeight rest

end

theorem Json.weight_pos (v : Json) : 0 < v.weight := by
  cases v <;> simp only [Json.weight] <;> omega

theorem fieldsWeight_put_le (name : Text) (v : Json) (fields : Fields) :
    fieldsWeight (Fields.put name v fields) ≤ v.weight + fieldsWeight fields := by
  induction fields with
  | nil => simp only [Fields.put, fieldsWeight, Nat.le_refl]
  | cons field rest ih =>
    obtain ⟨other, w⟩ := field
    unfold Fields.put
    split
    · simp only [fieldsWeight]
      omega
    · simp only [fieldsWeight]
      omega

theorem Node.weight_locate_le (table : LineTable) (node : Fields) :
    fieldsWeight (Node.locate table node) ≤ fieldsWeight node + 2 := by
  unfold Node.locate Node.putOffsets
  split
  · next span _ =>
    have hstart := fieldsWeight_put_le startField (.int (offset table span.first)) node
    have hend := fieldsWeight_put_le endField (.int (offset table span.last))
      (Fields.put startField (.int (offset table span.first)) node)
    simp only [Json.weight] at hstart hend
    omega
  · omega

def aroundWeight : List Surround → Nat
  | [] => 0
  | .items _ after :: around => itemsWeight after + aroundWeight around
  | .fields _ _ after :: around => fieldsWeight after + aroundWeight around

namespace Walk

/-- The weight of what is still to be walked. -/
def remaining (w : Walk) : Nat :=
  (if w.finished then 0 else w.focus.weight) + aroundWeight w.around

/-- A number that gets smaller with each step. -/
def measure (w : Walk) : Nat :=
  2 * w.remaining + w.around.length + if w.finished then 1 else 0

theorem measure_enterItems_lt (w : Walk) (items : List Json) :
    (w.enterItems items).measure
      < 2 * ((Json.arr items).weight + aroundWeight w.around) + w.around.length := by
  cases items with
  | nil =>
    simp only [enterItems, measure, remaining, Json.weight, if_true]
    omega
  | cons v after =>
    simp only [enterItems, measure, remaining, Json.weight, itemsWeight, aroundWeight,
      List.length_cons, Bool.false_eq_true, if_false]
    omega

theorem measure_enterFields_lt (w : Walk) (fields : Fields) (n : Nat)
    (h : fieldsWeight fields ≤ n) :
    (w.enterFields fields).measure < 2 * (n + 2 + aroundWeight w.around) + w.around.length := by
  match fields with
  | [] =>
    simp only [enterFields, measure, remaining, if_true]
    omega
  | (name, v) :: after =>
    have := v.weight_pos
    simp only [fieldsWeight] at h
    cases hchild : Node.isChild (name, v)
    · simp only [enterFields, measure, remaining, aroundWeight, hchild, List.length_cons,
        Bool.not_false, if_true]
      omega
    · simp only [enterFields, measure, remaining, aroundWeight, hchild, List.length_cons,
        Bool.not_true, Bool.false_eq_true, if_false]
      omega

theorem measure_visit_lt (table : LineTable) (w : Walk) (node : Fields) (v : Visit) :
    (w.visit table node v).measure
      < 2 * ((Json.obj node).weight + aroundWeight w.around) + w.around.length := by
  unfold visit
  generalize (if v.locates && (Node.spanOf? node).isSome then w.count + 1 else w.count) = counted
  generalize node :: w.visited = visited
  generalize hlocated : (if v.locates then Node.locate table node else node) = located
  have hle : fieldsWeight located ≤ fieldsWeight node + 2 := by
    subst hlocated
    split
    · exact Node.weight_locate_le table node
    · exact Nat.le_add_right _ _
  dsimp only
  split
  · have := measure_enterFields_lt { w with count := counted, visited := visited } located _ hle
    simp only [Json.weight] at this ⊢
    omega
  · simp only [measure, remaining, Json.weight, if_true]
    omega

theorem measure_advance_lt (w : Walk) (around : List Surround) (surround : Surround)
    (hfinished : w.finished = true) (haround : w.around = surround :: around) :
    (w.advance around surround).measure < w.measure := by
  match surround with
  | .items before [] =>
    simp only [advance, measure, remaining, hfinished, haround, aroundWeight, itemsWeight,
      List.length_cons, if_true]
    omega
  | .items before (v :: after) =>
    simp only [advance, measure, remaining, hfinished, haround, aroundWeight, itemsWeight,
      List.length_cons, if_true, Bool.false_eq_true, if_false]
    omega
  | .fields before name [] =>
    simp only [advance, measure, remaining, hfinished, haround, aroundWeight, fieldsWeight,
      List.length_cons, if_true]
    omega
  | .fields before name ((next, v) :: after) =>
    have := v.weight_pos
    cases hchild : Node.isChild (next, v)
    · simp only [advance, measure, remaining, hfinished, haround, aroundWeight, fieldsWeight,
        hchild, List.length_cons, Bool.not_false, if_true]
      omega
    · simp only [advance, measure, remaining, hfinished, haround, aroundWeight, fieldsWeight,
        hchild, List.length_cons, Bool.not_true, Bool.false_eq_true, if_true, if_false]
      omega

theorem measure_step_lt {table : LineTable} {visitor : Visitor} {w next : Walk}
    (h : w.step table visitor = .inl next) : next.measure < w.measure := by
  unfold step at h
  split at h
  · next hfinished =>
    split at h
    · cases h
    · next surround around haround =>
      cases h
      exact measure_advance_lt w around surround hfinished haround
  · next hfinished =>
    have hmeasure : w.measure = 2 * (w.focus.weight + aroundWeight w.around)
        + w.around.length := by
      simp only [measure, remaining, hfinished, Bool.false_eq_true, if_false, Nat.add_zero]
    rw [hmeasure]
    split at h
    · next items hfocus =>
      cases h
      rw [hfocus]
      exact measure_enterItems_lt w items
    · next node hfocus =>
      split at h
      · cases h
      · cases h
        rw [hfocus]
        exact measure_visit_lt table w node _
    · cases h
      have := w.focus.weight_pos
      simp only [measure, remaining, if_true]
      omega

def run (table : LineTable) (visitor : Visitor) (w : Walk) : Walked :=
  match _taken : w.step table visitor with
  | .inr walked => walked
  | .inl next => next.run table visitor
termination_by w.measure
decreasing_by exact measure_step_lt _taken

end Walk

end TreeOffsets
