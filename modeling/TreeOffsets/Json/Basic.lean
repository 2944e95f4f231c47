import TreeOffsets.Text.Basic
import TreeOffsets.Double.Basic

namespace TreeOffsets

inductive Json where
  | null
  | bool (b : Bool)
  | int (n : Int)
  | float (x : Double)
  | str (t : Text)
  | arr (items : List Json)
  | obj (fields : List (Text × Json))

instance : Inhabited Json := ⟨.null⟩

abbrev Fields := List (Text × Json)

namespace Fields

def value? (fields : Fields) (name : Text) : Option Json := fields.lookup name

def has (fields : Fields) (name : Text) : Bool := fields.any fun field => field.1 == name

/-- Gives a name a value, in its place if it is there and at the end if it is new. -/
def put (name : Text) (v : Json) : Fields → Fields
  | [] => [(name, v)]
  | (other, w) :: rest => if other = name then (name, v) :: rest else (other, w) :: put name v rest

def names (fields : Fields) : List Text := fields.map Prod.fst

theorem value?_put_self (name : Text) (v : Json) (fields : Fields) :
    value? (put name v fields) name = some v := by
  induction fields with
  | nil => exact List.lookup_cons_self
  | cons field rest ih =>
    obtain ⟨other, w⟩ := field
    unfold put
    split
    · exact List.lookup_cons_self
    · next hne =>
      have hbeq : (name == other) = false := beq_eq_false_iff_ne.mpr (Ne.symm hne)
      simpa only [value?, List.lookup_cons, hbeq] using ih

theorem value?_put_of_ne {name other : Text} (hne : other ≠ name) (v : Json) (fields : Fields) :
    value? (put name v fields) other = value? fields other := by
  have hbeq : (other == name) = false := beq_eq_false_iff_ne.mpr hne
  induction fields with
  | nil => simp only [put, value?, List.lookup_cons, hbeq]
  | cons field rest ih =>
    obtain ⟨key, w⟩ := field
    unfold put
    split
    · next hkey =>
      subst hkey
      simp only [value?, List.lookup_cons, hbeq]
    · simp only [value?, List.lookup_cons] at ih ⊢
      rw [ih]

theorem names_cons (field : Text × Json) (fields : Fields) :
    names (field :: fields) = field.1 :: names fields := rfl

theorem names_put_of_mem {name : Text} (v : Json) {fields : Fields} (h : name ∈ names fields) :
    names (put name v fields) = names fields := by
  induction fields with
  | nil => cases h
  | cons field rest ih =>
    obtain ⟨other, w⟩ := field
    unfold put
    split
    · next heq => rw [names_cons, names_cons, heq]
    · next hne =>
      rw [names_cons, names_cons]
      rw [names_cons, List.mem_cons] at h
      rw [ih (h.resolve_left (Ne.symm hne))]

theorem names_put_of_not_mem {name : Text} (v : Json) {fields : Fields}
    (h : name ∉ names fields) : names (put name v fields) = names fields ++ [name] := by
  induction fields with
  | nil => rfl
  | cons field rest ih =>
    obtain ⟨other, w⟩ := field
    rw [names_cons, List.mem_cons, not_or] at h
    unfold put
    rw [if_neg (Ne.symm h.1), names_cons, names_cons, ih h.2, List.cons_append]

theorem sizeOf_snd_lt {field : Text × Json} {fields : Fields} (h : field ∈ fields) :
    sizeOf field.2 < sizeOf fields := by
  have hfield := List.sizeOf_lt_of_mem h
  have hvalue : sizeOf field = 1 + sizeOf field.1 + sizeOf field.2 := rfl
  omega

end Fields

namespace Json

inductive Kind where
  | null | bool | int | float | str | arr | obj
  deriving DecidableEq

def kind : Json → Kind
  | null => .null
  | bool _ => .bool
  | int _ => .int
  | float _ => .float
  | str _ => .str
  | arr _ => .arr
  | obj _ => .obj

def Kind.name : Kind → String
  | .null => "NoneType"
  | .bool => "bool"
  | .int => "int"
  | .float => "float"
  | .str => "str"
  | .arr => "list"
  | .obj => "dict"

/-- Lists and objects hold other values; the rest do not. -/
def isContainer : Json → Bool
  | arr _ => true
  | obj _ => true
  | _ => false

/-- Null, false, zero and whatever is empty count as absent. -/
def isTruthy : Json → Bool
  | null => false
  | bool b => b
  | int n => n != 0
  | float x => x.isNonzero
  | str t => !t.isEmpty
  | arr items => !items.isEmpty
  | obj fields => !fields.isEmpty

/-- A value, or a default in place of one that counts as absent. -/
def orElse (v default : Json) : Json := if v.isTruthy then v else default

def ofString (s : String) : Json := .str (Text.ofString s)

end Json

end TreeOffsets
