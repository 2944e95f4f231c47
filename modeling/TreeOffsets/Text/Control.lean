import TreeOffsets.Text.Basic

namespace TreeOffsets

namespace CodePoint

/-- The digits and marks that may stand in a control sequence. -/
def isParameter (c : CodePoint) : Bool :=
  decide (0x30 ≤ c.val ∧ c.val ≤ 0x39) || c == ofChar ';' || c == ofChar '?'

def isLatinLetter (c : CodePoint) : Bool :=
  decide (0x41 ≤ c.val ∧ c.val ≤ 0x5A) || decide (0x61 ≤ c.val ∧ c.val ≤ 0x7A)

end CodePoint

namespace Text

/-- The text after the control sequence that it begins with. -/
def afterControl? : Text → Option Text
  | escape :: bracket :: t =>
    if escape = CodePoint.ofChar '\x1b' ∧ bracket = CodePoint.ofChar '[' then
      match t.dropWhile CodePoint.isParameter with
      | c :: rest => if c.isLatinLetter then some rest else none
      | [] => none
    else none
  | _ => none

theorem length_afterControl?_lt {t rest : Text} (h : afterControl? t = some rest) :
    rest.length < t.length := by
  unfold afterControl? at h
  split at h
  · next t =>
    split at h
    · have hdrop := (List.dropWhile_suffix (l := t) CodePoint.isParameter).length_le
      split at h
      · next hfound =>
        split at h
        · cases h
          rw [hfound] at hdrop
          simp only [List.length_cons] at hdrop ⊢
          omega
        · exact nomatch h
      · exact nomatch h
    · exact nomatch h
  · exact nomatch h

/-- A text without the control sequences in it, which are looked for from its start. -/
def withoutControls (t : Text) : Text :=
  match _after : afterControl? t with
  | some rest => withoutControls rest
  | none =>
    match t with
    | [] => []
    | c :: rest => c :: withoutControls rest
termination_by t.length
decreasing_by
  · exact length_afterControl?_lt _after
  · exact Nat.lt_succ_self _

end Text

end TreeOffsets
