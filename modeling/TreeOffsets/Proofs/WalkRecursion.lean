import TreeOffsets.Tree.Annotator
import TreeOffsets.Tree.Recursion
import TreeOffsets.Proofs.TreeInduction

/-!
The walk with frames and the walk by recursion are the same walk. The invariant is the one of a
machine with a stack: from a value in focus the frames come to the point at which the recursion has
dealt with that value, and they go on from there.
-/

namespace TreeOffsets.Proofs.WalkRecursion

open TreeOffsets.Proofs.TreeInduction

theorem run_of_inl {table : LineTable} {visitor : Visitor} {w next : Walk}
    (h : w.step table visitor = .inl next) :
    w.run table visitor = next.run table visitor := by
  rw [Walk.run]
  split
  · next walked hstep => cases h.symm.trans hstep
  · next other hstep =>
      cases h.symm.trans hstep
      rfl

theorem run_of_inr {table : LineTable} {visitor : Visitor} {w : Walk} {walked : Walked}
    (h : w.step table visitor = .inr walked) : w.run table visitor = walked := by
  rw [Walk.run]
  split
  · next other hstep =>
      cases h.symm.trans hstep
      rfl
  · next other hstep => cases h.symm.trans hstep

/-- A walk that has found something and comes to a value inside some containers. -/
def arriving (around : List Surround) (v : Json) (p : Progress) : Walk :=
  ⟨v, false, around, p.count, p.nodes.reverse⟩

def leaving (around : List Surround) (v : Json) (p : Progress) : Walk :=
  ⟨v, true, around, p.count, p.nodes.reverse⟩

/-- A walk that has dealt with some items of a list and comes to the others. -/
def atItems (around : List Surround) (p : Progress) (before : List Json) : List Json → Walk
  | [] => leaving around (.arr before.reverse) p
  | v :: after => arriving (.items before after :: around) v p

def atFields (around : List Surround) (p : Progress) (before : Fields) : Fields → Walk
  | [] => leaving around (.obj before.reverse) p
  | (name, v) :: after =>
      if Node.isChild (name, v) then arriving (.fields before name after :: around) v p
      else leaving (.fields before name after :: around) v p

/-- What a walk leads to from the point at which a value has been dealt with: if the walk has been
stopped inside the value, the containers still hold a part of the rest. -/
def resume (table : LineTable) (visitor : Visitor) (around : List Surround)
    (done : Json × Progress) : Walked :=
  match done.2.rest? with
  | none => (leaving around done.1 done.2).run table visitor
  | some rest =>
      ⟨around.foldl Surround.plug done.1, done.2.count, done.2.nodes,
        some (rest ++ around.flatMap Surround.rest)⟩

section

variable {table : LineTable} {visitor : Visitor}

theorem resume_of_none {around : List Surround} {done : Json × Progress}
    (h : done.2.rest? = none) :
    resume table visitor around done = (leaving around done.1 done.2).run table visitor := by
  simp only [resume, h]

theorem resume_of_some {around : List Surround} {done : Json × Progress} {rest : List Json}
    (h : done.2.rest? = some rest) :
    resume table visitor around done =
      ⟨around.foldl Surround.plug done.1, done.2.count, done.2.nodes,
        some (rest ++ around.flatMap Surround.rest)⟩ := by
  simp only [resume, h]

theorem resume_nil (done : Json × Progress) :
    resume table visitor [] done = ⟨done.1, done.2.count, done.2.nodes, done.2.rest?⟩ := by
  cases h : done.2.rest? with
  | none =>
      rw [resume_of_none h]
      apply run_of_inr
      simp [leaving, Walk.step, Walk.ended, Walk.whole]
  | some rest =>
      rw [resume_of_some h]
      simp

/-- After a stop a value is a part of the rest. -/
theorem walkValue_of_some {p : Progress} {rest : List Json} (h : p.rest? = some rest)
    (v : Json) :
    walkValue table visitor p v = (v, { p with rest? := some (rest ++ [v]) }) := by
  cases v <;> simp only [walkValue, h]

theorem walkItems_of_some {p : Progress} {rest : List Json} (h : p.rest? = some rest)
    (items : List Json) :
    walkItems table visitor p items = (items, { p with rest? := some (rest ++ items) }) := by
  induction items generalizing p rest with
  | nil => rw [walkItems, List.append_nil, ← h]
  | cons v items ih =>
      have hrest := ih (p := { p with rest? := some (rest ++ [v]) }) rfl
      rw [walkItems, walkValue_of_some h]
      simp only [hrest, List.append_assoc, List.singleton_append]

theorem walkFields_of_some {p : Progress} {rest : List Json} (h : p.rest? = some rest)
    (fields : Fields) :
    walkFields table visitor p fields =
      (fields, { p with
        rest? := some (rest ++ (fields.filter Node.isChild).map Prod.snd) }) := by
  induction fields generalizing p rest with
  | nil => rw [walkFields, List.filter_nil, List.map_nil, List.append_nil, ← h]
  | cons field fields ih =>
      obtain ⟨name, v⟩ := field
      rw [walkFields]
      by_cases hchild : Node.isChild (name, v) = true
      · have hrest := ih (p := { p with rest? := some (rest ++ [v]) }) rfl
        rw [if_pos hchild, walkValue_of_some h]
        simp only [hrest, List.filter_cons_of_pos hchild, List.map_cons, List.append_assoc,
          List.singleton_append]
      · rw [if_neg hchild]
        simp only [ih h, List.filter_cons_of_neg hchild]

theorem walkValue_arr {p : Progress} (h : p.rest? = none) (items : List Json) :
    walkValue table visitor p (.arr items) =
      (.arr (walkItems table visitor p items).1, (walkItems table visitor p items).2) := by
  simp only [walkValue, h]

theorem walkValue_of_stop {p : Progress} (h : p.rest? = none) {node : Fields}
    (hstop : visitor (Node.tagOf node) = .stop) :
    walkValue table visitor p (.obj node) = (.obj node, p.stopped node) := by
  simp only [walkValue, h, hstop]

theorem walkValue_obj {p : Progress} (h : p.rest? = none) {node : Fields} {visit : Visit}
    (hvisit : visitor (Node.tagOf node) = visit) (hstop : visit ≠ .stop) :
    walkValue table visitor p (.obj node) =
      if visit.descends then
        (.obj (walkFields table visitor (p.visited node visit) (visit.fields table node)).1,
          (walkFields table visitor (p.visited node visit) (visit.fields table node)).2)
      else (.obj (visit.fields table node), p.visited node visit) := by
  subst hvisit
  rw [walkValue]
  simp only [h]

theorem run_leaving_items (around : List Surround) (before after : List Json) (v : Json)
    (p : Progress) :
    (leaving (.items before after :: around) v p).run table visitor =
      (atItems around p (v :: before) after).run table visitor := by
  apply run_of_inl
  cases after with
  | nil => simp [leaving, Walk.step, Walk.advance, atItems]
  | cons next after => simp [leaving, Walk.step, Walk.advance, atItems, arriving]

theorem run_leaving_fields (around : List Surround) (before after : Fields) (name : Text)
    (v : Json) (p : Progress) :
    (leaving (.fields before name after :: around) v p).run table visitor =
      (atFields around p ((name, v) :: before) after).run table visitor := by
  apply run_of_inl
  cases after with
  | nil => simp [leaving, Walk.step, Walk.advance, atFields]
  | cons field after =>
      obtain ⟨next, w⟩ := field
      cases hchild : Node.isChild (next, w) <;>
        simp [leaving, Walk.step, Walk.advance, atFields, arriving, hchild]

theorem enterItems_arriving (around : List Surround) (v : Json) (p : Progress)
    (items : List Json) :
    (arriving around v p).enterItems items = atItems around p [] items := by
  cases items <;> rfl

theorem enterFields_arriving (around : List Surround) (v : Json) (p : Progress)
    (fields : Fields) :
    (arriving around v p).enterFields fields = atFields around p [] fields := by
  cases fields with
  | nil => rfl
  | cons field after =>
      obtain ⟨name, w⟩ := field
      cases hchild : Node.isChild (name, w) <;>
        simp [arriving, leaving, Walk.enterFields, atFields, hchild]

theorem visit_arriving (around : List Surround) (p : Progress) (node : Fields) (visit : Visit) :
    (arriving around (.obj node) p).visit table node visit =
      if visit.descends then
        atFields around (p.visited node visit) [] (visit.fields table node)
      else leaving around (.obj (visit.fields table node)) (p.visited node visit) := by
  rw [← enterFields_arriving around (.obj node)]
  cases hdescends : visit.descends <;>
    simp [Walk.visit, arriving, leaving, Progress.visited, Visit.fields, hdescends]

/-- From a value in focus the frames do what the recursion does with the value. -/
def ValueRuns (table : LineTable) (visitor : Visitor) (v : Json) : Prop :=
  ∀ (around : List Surround) (p : Progress), p.rest? = none →
    (arriving around v p).run table visitor =
      resume table visitor around (walkValue table visitor p v)

def ItemsRun (table : LineTable) (visitor : Visitor) (items : List Json) : Prop :=
  ∀ (around : List Surround) (before : List Json) (p : Progress), p.rest? = none →
    (atItems around p before items).run table visitor =
      resume table visitor around
        (.arr (before.reverse ++ (walkItems table visitor p items).1),
          (walkItems table visitor p items).2)

def FieldsRun (table : LineTable) (visitor : Visitor) (fields : Fields) : Prop :=
  ∀ (around : List Surround) (before : Fields) (p : Progress), p.rest? = none →
    (atFields around p before fields).run table visitor =
      resume table visitor around
        (.obj (before.reverse ++ (walkFields table visitor p fields).1),
          (walkFields table visitor p fields).2)

theorem valueRuns_of_scalar {v : Json} (hv : v.isContainer = false) :
    ValueRuns table visitor v := by
  intro around p hp
  have hwalk : walkValue table visitor p v = (v, p) := by
    cases v <;> simp_all [walkValue, Json.isContainer]
  rw [hwalk, resume_of_none hp]
  apply run_of_inl
  cases v <;> simp_all [arriving, leaving, Walk.step, Json.isContainer]

theorem valueRuns_arr {items : List Json} (hitems : ItemsRun table visitor items) :
    ValueRuns table visitor (.arr items) := by
  intro around p hp
  have hstep : (arriving around (.arr items) p).step table visitor =
      .inl (atItems around p [] items) := by
    rw [← enterItems_arriving around (.arr items)]
    rfl
  rw [run_of_inl hstep, hitems around [] p hp, walkValue_arr hp]
  rfl

theorem valueRuns_obj {node : Fields}
    (hfields : ∀ located, fieldsWeight located ≤ fieldsWeight node + 2 →
      FieldsRun table visitor located) :
    ValueRuns table visitor (.obj node) := by
  intro around p hp
  by_cases hstop : visitor (Node.tagOf node) = .stop
  · have hstep : (arriving around (.obj node) p).step table visitor =
        .inr (resume table visitor around (.obj node, p.stopped node)) := by
      rw [resume_of_some rfl]
      simp [arriving, Walk.step, hstop, Walk.ended, Walk.whole, Progress.stopped]
    rw [run_of_inr hstep, walkValue_of_stop hp hstop]
  · have hstep : (arriving around (.obj node) p).step table visitor =
        .inl ((arriving around (.obj node) p).visit table node
          (visitor (Node.tagOf node))) := by
      simp [arriving, Walk.step]
    have hvisited : (p.visited node (visitor (Node.tagOf node))).rest? = none := hp
    rw [run_of_inl hstep, visit_arriving, walkValue_obj hp rfl hstop]
    split
    · rw [hfields _ (Visit.weight_fields_le _ table node) around [] _ hvisited]
      rfl
    · rw [resume_of_none hvisited]

theorem itemsRun_nil : ItemsRun table visitor [] := by
  intro around before p hp
  rw [walkItems, List.append_nil, resume_of_none hp]
  rfl

theorem itemsRun_cons {v : Json} {after : List Json} (hv : ValueRuns table visitor v)
    (hafter : ItemsRun table visitor after) : ItemsRun table visitor (v :: after) := by
  intro around before p hp
  rw [walkItems, atItems, hv _ p hp]
  generalize walkValue table visitor p v = done
  obtain ⟨v', p'⟩ := done
  cases hp' : p'.rest? with
  | none =>
      rw [resume_of_none hp', run_leaving_items, hafter around (v' :: before) p' hp']
      simp
  | some rest =>
      rw [resume_of_some hp']
      simp only [walkItems_of_some hp']
      rw [resume_of_some rfl]
      simp [Surround.plug, Surround.rest, List.reverseAux_eq]

theorem fieldsRun_nil : FieldsRun table visitor [] := by
  intro around before p hp
  rw [walkFields, List.append_nil, resume_of_none hp]
  rfl

theorem fieldsRun_cons {name : Text} {v : Json} {after : Fields}
    (hv : ValueRuns table visitor v) (hafter : FieldsRun table visitor after) :
    FieldsRun table visitor ((name, v) :: after) := by
  intro around before p hp
  rw [walkFields, atFields]
  by_cases hchild : Node.isChild (name, v) = true
  · rw [if_pos hchild, if_pos hchild, hv _ p hp]
    generalize walkValue table visitor p v = done
    obtain ⟨v', p'⟩ := done
    cases hp' : p'.rest? with
    | none =>
        rw [resume_of_none hp', run_leaving_fields,
          hafter around ((name, v') :: before) p' hp']
        simp
    | some rest =>
        rw [resume_of_some hp']
        simp only [walkFields_of_some hp']
        rw [resume_of_some rfl]
        simp [Surround.plug, Surround.rest, List.reverseAux_eq]
  · rw [if_neg hchild, if_neg hchild, run_leaving_fields,
      hafter around ((name, v) :: before) p hp]
    simp

theorem run_cases : TreeCases (ValueRuns table visitor) (ItemsRun table visitor)
    (FieldsRun table visitor) where
  scalar _ := valueRuns_of_scalar
  arr _ := valueRuns_arr
  obj _ := valueRuns_obj
  noItems := itemsRun_nil
  item _ _ := itemsRun_cons
  noFields := fieldsRun_nil
  field _ _ _ := fieldsRun_cons

theorem run_start (values : List Json) :
    (Walk.start (.arr values)).run table visitor =
      ⟨.arr (walkItems table visitor Progress.start values).1,
        (walkItems table visitor Progress.start values).2.count,
        (walkItems table visitor Progress.start values).2.nodes,
        (walkItems table visitor Progress.start values).2.rest?⟩ := by
  have hrun : (Walk.start (.arr values)).run table visitor =
      resume table visitor [] (walkValue table visitor Progress.start (.arr values)) :=
    run_cases.value_of (.arr values) [] Progress.start rfl
  rw [hrun, resume_nil, walkValue_arr rfl]

theorem walkAll_eq_walkItems (annotator : Annotator) (values : List Json) :
    annotator.walkAll values =
      let (items, p) := walkItems annotator.table annotator.visitor Progress.start values
      (items, ⟨.arr items, p.count, p.nodes, p.rest?⟩) := by
  simp only [Annotator.walkAll, run_start]

end

end TreeOffsets.Proofs.WalkRecursion
