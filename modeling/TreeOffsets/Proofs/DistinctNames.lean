import TreeOffsets.Json.Readable
import TreeOffsets.Json.Reader
import TreeOffsets.Tree.Located
import TreeOffsets.Proofs.LocatedTree

namespace TreeOffsets.Proofs.DistinctNames

open TreeOffsets.Json
open TreeOffsets.Json.Token
open TreeOffsets.Proofs.LocatedTree
open TreeOffsets.Proofs.TreeInduction

theorem hasDistinctNames_scalar {v : Json} (hv : v.isContainer = false) : v.HasDistinctNames := by
  cases v with
  | arr items => cases hv
  | obj fields => cases hv
  | _ => exact trivial

theorem hasDistinctNames_arr {items : List Json} :
    (Json.arr items).HasDistinctNames ↔ ∀ v ∈ items, v.HasDistinctNames := itemsMeet_iff _ items

theorem hasDistinctNames_obj {fields : Fields} :
    (Json.obj fields).HasDistinctNames ↔
      (Fields.names fields).Nodup ∧ ∀ field ∈ fields, field.2.HasDistinctNames :=
  and_congr_right' (fieldsMeet_iff _ fields)

theorem mem_put {name : Text} {v : Json} {fields : Fields} {field : Text × Json}
    (h : field ∈ Fields.put name v fields) : field = (name, v) ∨ field ∈ fields := by
  induction fields with
  | nil => exact .inl (List.mem_singleton.mp h)
  | cons other fields ih =>
      rw [Fields.put] at h
      split at h
      · rcases List.mem_cons.mp h with hnew | hold
        · exact .inl hnew
        · exact .inr (List.mem_cons_of_mem _ hold)
      · rcases List.mem_cons.mp h with hfirst | hrest
        · exact .inr (hfirst ▸ List.mem_cons_self)
        · exact (ih hrest).imp_right (List.mem_cons_of_mem _)

theorem nodup_names_put {fields : Fields} (h : (Fields.names fields).Nodup) (name : Text)
    (v : Json) : (Fields.names (Fields.put name v fields)).Nodup := by
  by_cases hname : name ∈ Fields.names fields
  · rwa [Fields.names_put_of_mem v hname]
  · rw [Fields.names_put_of_not_mem v hname]
    have hsingle : [name].Nodup := List.nodup_cons.mpr ⟨List.not_mem_nil, List.nodup_nil⟩
    refine List.nodup_append.mpr ⟨h, hsingle, fun other hother last hlast heq => ?_⟩
    rw [List.mem_singleton] at hlast
    exact hname (hlast ▸ heq ▸ hother)

theorem hasDistinctNames_put {fields : Fields} {v : Json}
    (h : (Json.obj fields).HasDistinctNames) (hv : v.HasDistinctNames) (name : Text) :
    (Json.obj (Fields.put name v fields)).HasDistinctNames := by
  rw [hasDistinctNames_obj] at h ⊢
  refine ⟨nodup_names_put h.1 name v, fun field hfield => ?_⟩
  rcases mem_put hfield with rfl | hfield
  · exact hv
  · exact h.2 field hfield

theorem hasDistinctNames_of_value? {fields : Fields} {name : Text} {v : Json}
    (h : (Json.obj fields).HasDistinctNames) (hv : Fields.value? fields name = some v) :
    v.HasDistinctNames := by
  obtain ⟨before, after, hfields, -⟩ := List.lookup_eq_some_iff.mp hv
  refine (hasDistinctNames_obj.mp h).2 (name, v) ?_
  rw [hfields]
  exact List.mem_append_right _ List.mem_cons_self

def IsPlain : Token → Prop
  | .scalar v => v.isContainer = false
  | _ => True

theorem isPlain_word? {t : Text} {found : Token × Text} (h : word? t = some found) :
    IsPlain found.1 := by
  obtain ⟨⟨word, v⟩, hmem, hentry⟩ := List.exists_of_findSome?_eq_some h
  have hwords : ∀ entry ∈ words, entry.2.isContainer = false := by decide
  simp only [Option.ite_none_right_eq_some, Option.some.injEq] at hentry
  rw [← hentry.2]
  exact hwords _ hmem

theorem isPlain_integer (negative : Bool) (digits : Text) : IsPlain (integer negative digits) := by
  unfold integer
  split
  · exact trivial
  · rfl

theorem isPlain_unsigned? {negative : Bool} {t : Text} {found : Token × Text}
    (h : unsigned? negative t = some found) : IsPlain found.1 := by
  simp only [unsigned?] at h
  split at h
  · cases h
  · split at h
    · cases h
      rfl
    · split at h
      · cases h
        exact isPlain_integer negative _
      · cases h
        rfl

theorem isPlain_number? {t : Text} {found : Token × Text} (h : number? t = some found) :
    IsPlain found.1 := by
  cases t with
  | nil => cases h
  | cons c t =>
      rw [number?] at h
      split at h
      · exact isPlain_unsigned? h
      · exact isPlain_unsigned? h

theorem isPlain_mark? {c : CodePoint} {token : Token} (h : Token.mark? c = some token) :
    IsPlain token := by
  unfold Token.mark? at h
  repeat'
    split at h
    next =>
      cases h
      exact trivial
  cases h

theorem isPlain_scan (c : CodePoint) (t : Text) : IsPlain (scan c t).1 := by
  unfold scan
  split
  · next token hmark => exact isPlain_mark? hmark
  · split
    · split <;> exact trivial
    · cases hword : word? (c :: t) with
      | some found => exact isPlain_word? hword
      | none =>
          cases hnumber : number? (c :: t) with
          | some found => exact isPlain_number? hnumber
          | none => exact trivial

theorem isPlain_of_mem_lexFrom {done : List (Token × Text)} {t : Text}
    (hdone : ∀ entry ∈ done, IsPlain entry.1) : ∀ entry ∈ lexFrom done t, IsPlain entry.1 := by
  fun_induction lexFrom done t with
  | case1 done t hblank =>
      exact fun entry hentry => hdone entry (List.mem_reverse.mp hentry)
  | case2 done t c tail hblank found hlast =>
      intro entry hentry
      rcases List.mem_cons.mp (List.mem_reverse.mp hentry) with rfl | hentry
      · exact isPlain_scan c tail
      · exact hdone entry hentry
  | case3 done t c tail hblank found hlast ih =>
      exact ih (List.forall_mem_cons.mpr ⟨isPlain_scan c tail, hdone⟩)

/-- A list or an object that has begun holds values with distinct names, and has them itself. -/
def FrameIsDistinct : Frame → Prop
  | .list done => ∀ v ∈ done, v.HasDistinctNames
  | .object done _ => (Json.obj done).HasDistinctNames

def ModeIsDistinct : Mode → Prop
  | .name done => (Json.obj done).HasDistinctNames
  | .colon done _ => (Json.obj done).HasDistinctNames
  | .after v => v.HasDistinctNames
  | _ => True

/-- All that has been read so far has distinct names. -/
structure IsDistinct (r : Reading) : Prop where
  mode : ModeIsDistinct r.mode
  frames : ∀ frame ∈ r.frames, FrameIsDistinct frame

section

variable {r next : Reading} {token : Token} {here : Text} {frames : List Frame}

theorem isDistinct_beginValue (hframes : ∀ frame ∈ frames, FrameIsDistinct frame)
    (htoken : IsPlain token) (h : Reading.beginValue frames here token = .ok next) :
    IsDistinct next := by
  cases token <;> cases h
  · exact ⟨trivial, hframes⟩
  · exact ⟨trivial, hframes⟩
  · exact ⟨trivial, hframes⟩
  · exact ⟨hasDistinctNames_scalar htoken, hframes⟩

theorem isDistinct_beginName {done : Fields} (hdone : (Json.obj done).HasDistinctNames)
    (hframes : ∀ frame ∈ frames, FrameIsDistinct frame)
    (h : Reading.beginName done frames here token = .ok next) : IsDistinct next := by
  cases token <;> cases h
  exact ⟨hdone, hframes⟩

theorem isDistinct_continueAfter {v : Json} (hv : v.HasDistinctNames)
    (hframes : ∀ frame ∈ frames, FrameIsDistinct frame)
    (h : Reading.continueAfter v frames here token = .ok next) : IsDistinct next := by
  cases frames with
  | nil => cases h
  | cons frame below =>
      rw [List.forall_mem_cons] at hframes
      obtain ⟨hframe, hbelow⟩ := hframes
      cases frame with
      | list done =>
          have hdone : ∀ w ∈ v :: done, w.HasDistinctNames := List.forall_mem_cons.mpr ⟨hv, hframe⟩
          cases token <;> cases h
          · refine ⟨hasDistinctNames_arr.mpr fun w hw => ?_, hbelow⟩
            exact hdone w (List.mem_reverse.mp hw)
          · exact ⟨trivial, List.forall_mem_cons.mpr ⟨hdone, hbelow⟩⟩
      | object done name =>
          have hdone := hasDistinctNames_put hframe hv name
          cases token <;> cases h
          · exact ⟨hdone, hbelow⟩
          · exact ⟨hdone, hbelow⟩

theorem isDistinct_step (hr : IsDistinct r) (htoken : IsPlain token)
    (h : r.step token here = .ok next) : IsDistinct next := by
  obtain ⟨mode, frames⟩ := r
  obtain ⟨hmode, hframes⟩ := hr
  cases mode with
  | value => exact isDistinct_beginValue hframes htoken h
  | firstItem =>
      have hnew : ∀ frame ∈ Frame.list [] :: frames, FrameIsDistinct frame :=
        List.forall_mem_cons.mpr ⟨fun v hv => absurd hv List.not_mem_nil, hframes⟩
      by_cases hclose : token = .closeList
      · subst hclose
        cases h
        exact ⟨trivial, hframes⟩
      · rw [Reading.step_firstItem hclose] at h
        exact isDistinct_beginValue hnew htoken h
  | firstName =>
      have hnew : (Json.obj []).HasDistinctNames := ⟨List.nodup_nil, trivial⟩
      by_cases hclose : token = .closeObject
      · subst hclose
        cases h
        exact ⟨hnew, hframes⟩
      · rw [Reading.step_firstName hclose] at h
        exact isDistinct_beginName hnew hframes h
  | name done => exact isDistinct_beginName hmode hframes h
  | colon done name =>
      cases token with
      | colon =>
          cases h
          exact ⟨trivial, List.forall_mem_cons.mpr ⟨hmode, hframes⟩⟩
      | _ => cases h
  | after v => exact isDistinct_continueAfter hmode hframes h

theorem hasDistinctNames_of_run {tokens : List (Token × Text)} {v : Json} (hr : IsDistinct r)
    (htokens : ∀ entry ∈ tokens, IsPlain entry.1) (h : r.run tokens = .ok v) :
    v.HasDistinctNames := by
  induction tokens generalizing r with
  | nil =>
      obtain ⟨mode, frames⟩ := r
      cases mode with
      | after w =>
          cases frames with
          | nil =>
              cases h
              exact hr.mode
          | cons frame below => cases h
      | _ => cases h
  | cons entry tokens ih =>
      obtain ⟨token, here⟩ := entry
      rw [List.forall_mem_cons] at htokens
      rw [Reading.run] at h
      split at h
      · next next hnext => exact ih (isDistinct_step hr htokens.1 hnext) htokens.2 h
      · cases h

end

/-- A value that is read has no object with a name twice. -/
theorem hasDistinctNames_of_read {t : Text} {v : Json} (h : Json.read t = .ok v) :
    v.HasDistinctNames := by
  have hstart : IsDistinct Reading.start := ⟨trivial, fun frame hframe => by cases hframe⟩
  have htokens : ∀ entry ∈ lex t, IsPlain entry.1 :=
    isPlain_of_mem_lexFrom fun entry hentry => absurd hentry List.not_mem_nil
  rw [Json.read] at h
  split at h
  · cases h
  · split at h
    · next w hrun =>
        cases h
        exact hasDistinctNames_of_run hstart htokens hrun
    · cases h

theorem hasDistinctNames_locate {node : Fields} (h : (Json.obj node).HasDistinctNames)
    (table : LineTable) : (Json.obj (Node.locate table node)).HasDistinctNames := by
  unfold Node.locate
  split
  · exact hasDistinctNames_put (hasDistinctNames_put h (hasDistinctNames_scalar rfl) _)
      (hasDistinctNames_scalar rfl) _
  · exact h

theorem located_distinct_cases (table : LineTable) : TreeCases
    (fun v => v.HasDistinctNames → (v.located table).HasDistinctNames)
    (fun items => (∀ v ∈ items, v.HasDistinctNames) →
      ∀ v ∈ locatedItems table items, v.HasDistinctNames)
    (fun fields => (∀ field ∈ fields, field.2.HasDistinctNames) →
      ∀ field ∈ locatedFields table fields, field.2.HasDistinctNames) where
  scalar := by
    intro v hv h
    cases v <;> simp_all [Json.located, Json.isContainer]
  arr := by
    intro items hitems h
    rw [Json.located, hasDistinctNames_arr]
    exact hitems (hasDistinctNames_arr.mp h)
  obj := by
    intro node hfields h
    have hlocate := hasDistinctNames_locate h table
    rw [Json.located]
    split
    · exact hlocate
    · rw [hasDistinctNames_obj] at hlocate ⊢
      rw [names_locatedFields]
      exact ⟨hlocate.1, hfields _ (Node.weight_locate_le table node) hlocate.2⟩
  noItems := by
    intro _ v hv
    rw [locatedItems] at hv
    cases hv
  item := by
    intro v items hv hitems h
    rw [List.forall_mem_cons] at h
    rw [locatedItems]
    exact List.forall_mem_cons.mpr ⟨hv h.1, hitems h.2⟩
  noFields := by
    intro _ field hfield
    rw [locatedFields] at hfield
    cases hfield
  field := by
    intro name v fields hv hfields h
    rw [List.forall_mem_cons] at h
    rw [locatedFields]
    refine List.forall_mem_cons.mpr ⟨?_, hfields h.2⟩
    dsimp only
    split
    · exact hv h.1
    · exact h.1

theorem hasDistinctNames_located {v : Json} (h : v.HasDistinctNames) (table : LineTable) :
    (v.located table).HasDistinctNames := (located_distinct_cases table).value_of v h

end TreeOffsets.Proofs.DistinctNames
