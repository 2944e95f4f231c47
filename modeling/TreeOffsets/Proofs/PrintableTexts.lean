import TreeOffsets.Json.Printer
import TreeOffsets.Proofs.NumberTokens

namespace TreeOffsets.Proofs.PrintableTexts

open TreeOffsets.Double
open TreeOffsets.Json
open TreeOffsets.Json.Token
open TreeOffsets.Proofs.DecimalDigits
open TreeOffsets.Proofs.NumberTokens

/-- A text of ASCII code points that are no controls. -/
def IsPrintable (t : Text) : Prop := ∀ c ∈ t, 0x20 ≤ c.val ∧ c.val < 0x7F

instance (t : Text) : Decidable (IsPrintable t) := by unfold IsPrintable; infer_instance

theorem isPrintable_nil : IsPrintable [] := fun _ h => absurd h List.not_mem_nil

theorem isPrintable_append {s t : Text} (hs : IsPrintable s) (ht : IsPrintable t) :
    IsPrintable (s ++ t) := List.forall_mem_append.mpr ⟨hs, ht⟩

theorem isPrintable_cons {c : CodePoint} {t : Text} (hc : 0x20 ≤ c.val ∧ c.val < 0x7F)
    (ht : IsPrintable t) : IsPrintable (c :: t) := List.forall_mem_cons.mpr ⟨hc, ht⟩

theorem isPrintable_of_subset {s t : Text} (h : s ⊆ t) (ht : IsPrintable t) : IsPrintable s :=
  fun c hc => ht c (h hc)

theorem isPrintable_of_digits {t : Text} (h : ∀ c ∈ t, isDigit c = true) : IsPrintable t := by
  intro c hc
  have hdigit := h c hc
  simp only [isDigit, decide_eq_true_eq] at hdigit
  omega

theorem isPrintable_ofNat (n : Nat) : IsPrintable (Text.ofNat n) :=
  isPrintable_of_digits fun _ => isDigit_of_mem_ofNat

theorem isPrintable_ofInt (n : Int) : IsPrintable (Text.ofInt n) := by
  cases n with
  | ofNat n => exact isPrintable_ofNat n
  | negSucc n => exact isPrintable_cons (by decide) (isPrintable_ofNat (n + 1))

theorem isPrintable_zeros (count : Nat) : IsPrintable (zeros count) :=
  isPrintable_of_digits fun _ => isDigit_of_mem_zeros

theorem isPrintable_significant (d : Decimal) : IsPrintable (significant d) := by
  obtain ⟨count, hcount⟩ := exists_zeros d
  refine isPrintable_of_subset (fun c hc => ?_) (isPrintable_ofNat d.digits)
  rw [hcount]
  exact List.mem_append_left _ hc

theorem isPrintable_positional {digits : Text} (h : IsPrintable digits) (leading : Int) :
    IsPrintable (positional digits leading) := by
  have hzero : IsPrintable (Text.ofString "0.") := by decide
  have hend : IsPrintable (Text.ofString ".0") := by decide
  have hpoint : IsPrintable (Text.ofString ".") := by decide
  unfold positional
  split
  · exact isPrintable_append (isPrintable_append hzero (isPrintable_zeros _)) h
  · dsimp only
    split
    · exact isPrintable_append (isPrintable_append h (isPrintable_zeros _)) hend
    · exact isPrintable_append
        (isPrintable_append (isPrintable_of_subset (List.take_subset _ _) h) hpoint)
        (isPrintable_of_subset (List.drop_subset _ _) h)

theorem isPrintable_exponentText (e : Int) : IsPrintable (exponentText e) := by
  refine isPrintable_cons ?_ (isPrintable_append (isPrintable_zeros _) (isPrintable_ofNat _))
  split <;> decide

theorem isPrintable_scientific {digits : Text} (h : IsPrintable digits) (leading : Int) :
    IsPrintable (scientific digits leading) := by
  have hpoint : IsPrintable (Text.ofString ".") := by decide
  have hletter : IsPrintable (Text.ofString "e") := by decide
  have hdrop := isPrintable_of_subset (List.drop_subset 1 digits) h
  have hfraction : IsPrintable
      (if digits.length ≤ 1 then [] else Text.ofString "." ++ digits.drop 1) := by
    split
    · exact isPrintable_nil
    · exact isPrintable_append hpoint hdrop
  exact isPrintable_append
    (isPrintable_append
      (isPrintable_append (isPrintable_of_subset (List.take_subset _ _) h) hfraction) hletter)
    (isPrintable_exponentText leading)

theorem isPrintable_layout (d : Decimal) : IsPrintable (layout d) := by
  unfold layout
  split
  · decide
  · split
    · exact isPrintable_positional (isPrintable_significant d) _
    · exact isPrintable_scientific (isPrintable_significant d) _

theorem isPrintable_toText (x : Double) : IsPrintable (x.toText doubleNames) := by
  match x with
  | .nan => decide
  | .infinity false => decide
  | .infinity true => decide
  | .finite false rank => exact isPrintable_layout _
  | .finite true rank => exact isPrintable_cons (by decide) (isPrintable_layout _)

theorem isPrintable_hexDigit (n : Nat) :
    0x20 ≤ (Text.hexDigit n).val ∧ (Text.hexDigit n).val < 0x7F := by
  have hall : ∀ d : Fin 16, 0x20 ≤ (CodePoint.ofChar (Nat.digitChar d.val)).val
      ∧ (CodePoint.ofChar (Nat.digitChar d.val)).val < 0x7F := by decide
  exact hall ⟨n % 16, Nat.mod_lt _ (by decide)⟩

theorem isPrintable_hex (width n : Nat) : IsPrintable (Text.hex width n) := by
  induction width generalizing n with
  | zero => exact isPrintable_nil
  | succ width ih =>
      exact isPrintable_append (ih _)
        (isPrintable_cons (isPrintable_hexDigit n) isPrintable_nil)

theorem isPrintable_numberEscape (c : CodePoint) : IsPrintable (numberEscape c) := by
  have hletter : IsPrintable (Text.ofString "\\u") := by decide
  intro d hd
  obtain ⟨u, -, hu⟩ := List.mem_flatMap.mp hd
  exact isPrintable_append hletter (isPrintable_hex 4 u.val) d hu

theorem isPrintable_of_namedEscape? {c : CodePoint} {escape : String}
    (h : namedEscape? c = some escape) : IsPrintable (Text.ofString escape) ∧ c.val < 0x80 := by
  unfold namedEscape? at h
  repeat'
    split at h
    next hc =>
      cases h
      exact ⟨by decide, by rw [hc]; decide⟩
  cases h

/-- A code point stands for itself, or it is ASCII and has an escape. -/
theorem rawPoint_cases (c : CodePoint) :
    rawPoint c = [c] ∧ 0x20 ≤ c.val ∨ IsPrintable (rawPoint c) ∧ c.val < 0x80 := by
  unfold rawPoint
  split
  · next escape hescape => exact .inr (isPrintable_of_namedEscape? hescape)
  · split
    · next hc => exact .inr ⟨isPrintable_numberEscape c, by omega⟩
    · next hc => exact .inl ⟨rfl, Nat.not_lt.mp hc⟩

theorem isPrintable_asciiPoint (c : CodePoint) : IsPrintable (asciiPoint c) := by
  unfold asciiPoint
  split
  · next escape hescape => exact (isPrintable_of_namedEscape? hescape).1
  · split
    · next hc => exact List.forall_mem_singleton.mpr hc
    · exact isPrintable_numberEscape c

theorem isPrintable_quote (t : Text) : IsPrintable (quote asciiPoint t) := by
  have hmark : IsPrintable [CodePoint.ofChar '"'] := by decide
  refine isPrintable_append (isPrintable_cons (by decide) fun d hd => ?_) hmark
  obtain ⟨c, -, hc⟩ := List.mem_flatMap.mp hd
  exact isPrintable_asciiPoint c d hc

theorem isPrintable_scalarText (v : Json) : IsPrintable (scalarText asciiPoint v) := by
  match v with
  | .null => decide
  | .bool true => decide
  | .bool false => decide
  | .int n => exact isPrintable_ofInt n
  | .float x => exact isPrintable_toText x
  | .str t => exact isPrintable_quote t
  | .arr _ => exact isPrintable_nil
  | .obj _ => exact isPrintable_nil

end TreeOffsets.Proofs.PrintableTexts
