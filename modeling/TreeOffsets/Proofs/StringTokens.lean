import TreeOffsets.Json.Printer
import TreeOffsets.Json.Token.Lexer

namespace TreeOffsets.Proofs.StringTokens

open TreeOffsets.Json
open TreeOffsets.Json.Token

def quoteMark : CodePoint := CodePoint.ofChar '"'

def backslash : CodePoint := CodePoint.ofChar '\\'

section

variable {opening done rest : Text} {half : Bool}

theorem scanString_quoteMark :
    scanString opening done half (quoteMark :: rest) = .ok (done.reverse, rest) := by
  rw [scanString.eq_def]
  exact if_pos rfl

theorem scanString_plain {c : CodePoint} (hquote : c ≠ quoteMark) (hslash : c ≠ backslash)
    (hc : 0x20 ≤ c.val) :
    scanString opening done half (c :: rest) = scanString opening (c :: done) false rest := by
  rw [scanString.eq_def]
  exact (if_neg hquote).trans ((if_neg hslash).trans (if_neg (Nat.not_lt.mpr hc)))

theorem scanString_short {e p : CodePoint} (he : e ≠ CodePoint.ofChar 'u')
    (hp : shortEscape? e = some p) :
    scanString opening done half (backslash :: e :: rest) =
      scanString opening (p :: done) false rest := by
  rw [scanString.eq_def]
  simp only [backslash, if_neg he, hp]
  rfl

theorem hexValue?_hexDigit (n : Nat) :
    hexValue? (Text.hexDigit n) = some ⟨n % 16, Nat.mod_lt _ (by decide)⟩ := by
  have hall : ∀ d : Fin 16, hexValue? (CodePoint.ofChar (Nat.digitChar d.val)) = some d := by
    decide
  exact hall ⟨n % 16, Nat.mod_lt _ (by decide)⟩

theorem hexPoint?_hexDigits (u : CodeUnit) :
    hexPoint? (Text.hexDigit (u.val / 16 / 16 / 16)) (Text.hexDigit (u.val / 16 / 16))
      (Text.hexDigit (u.val / 16)) (Text.hexDigit u.val) = some u.toCodePoint := by
  have hu := u.val_lt
  simp only [hexPoint?, hexValue?_hexDigit, Option.bind_eq_bind, Option.bind_some,
    Option.pure_def, CodeUnit.toCodePoint]
  congr 1
  refine CodePoint.ext ?_
  dsimp only
  omega

def unitEscape (u : CodeUnit) : Text := Text.ofString "\\u" ++ Text.hex 4 u.val

theorem scanString_unitEscape (u : CodeUnit) (next : CodePoint) :
    scanString opening done half (unitEscape u ++ next :: rest) =
      scanString opening (addEscaped u.toCodePoint half done) (decide u.toCodePoint.IsHigh)
        (next :: rest) := by
  have htext : unitEscape u ++ next :: rest =
      backslash :: CodePoint.ofChar 'u' :: Text.hexDigit (u.val / 16 / 16 / 16) ::
        Text.hexDigit (u.val / 16 / 16) :: Text.hexDigit (u.val / 16) :: Text.hexDigit u.val ::
          next :: rest := rfl
  rw [htext, scanString.eq_def]
  simp only [hexPoint?_hexDigits]
  rfl

end

/-- A code point is read back from the way it is written in a string. -/
def ReadsBack (point : CodePoint → Text) (c : CodePoint) : Prop :=
  ∀ (opening done rest : Text) (half : Bool) (next : CodePoint),
    scanString opening done half (point c ++ next :: rest) =
      scanString opening (c :: done) false (next :: rest)

theorem exists_of_namedEscape? {c : CodePoint} {escape : String}
    (h : namedEscape? c = some escape) :
    ∃ e, Text.ofString escape = [backslash, e] ∧ e ≠ CodePoint.ofChar 'u'
      ∧ shortEscape? e = some c := by
  unfold namedEscape? at h
  split at h
  · next hc => exact ⟨CodePoint.ofChar '"', by cases h; rfl, by decide, by rw [hc]; rfl⟩
  split at h
  · next hc => exact ⟨backslash, by cases h; rfl, by decide, by rw [hc]; rfl⟩
  split at h
  · next hc => exact ⟨CodePoint.ofChar 'n', by cases h; rfl, by decide, by rw [hc]; rfl⟩
  split at h
  · next hc => exact ⟨CodePoint.ofChar 'r', by cases h; rfl, by decide, by rw [hc]; rfl⟩
  split at h
  · next hc => exact ⟨CodePoint.ofChar 't', by cases h; rfl, by decide, by rw [hc]; rfl⟩
  split at h
  · next hc =>
      exact ⟨CodePoint.ofChar 'f', by cases h; rfl, by decide,
        congrArg some (CodePoint.ext hc.symm)⟩
  split at h
  · next hc =>
      exact ⟨CodePoint.ofChar 'b', by cases h; rfl, by decide,
        congrArg some (CodePoint.ext hc.symm)⟩
  · cases h

theorem ne_of_namedEscape?_eq_none {c : CodePoint} (h : namedEscape? c = none) :
    c ≠ quoteMark ∧ c ≠ backslash := by
  constructor
  · rintro rfl
    cases h
  · rintro rfl
    cases h

theorem readsBack_of_named {point : CodePoint → Text} {c : CodePoint} {escape : String}
    (hescape : namedEscape? c = some escape) (hpoint : point c = Text.ofString escape) :
    ReadsBack point c := by
  intro opening done rest half next
  obtain ⟨e, htext, hu, hshort⟩ := exists_of_namedEscape? hescape
  rw [hpoint, htext]
  exact scanString_short hu hshort

theorem readsBack_of_plain {point : CodePoint → Text} {c : CodePoint}
    (hescape : namedEscape? c = none) (hpoint : point c = [c]) (hc : 0x20 ≤ c.val) :
    ReadsBack point c := by
  intro opening done rest half next
  obtain ⟨hquote, hslash⟩ := ne_of_namedEscape?_eq_none hescape
  rw [hpoint]
  exact scanString_plain hquote hslash hc

theorem addEscaped_of_not_low {c : CodePoint} (h : ¬c.IsLow) (half : Bool) (done : Text) :
    addEscaped c half done = c :: done := by
  cases done with
  | nil => rfl
  | cons last done => rw [addEscaped, if_neg fun hboth => h hboth.2]

theorem readsBack_of_narrow {point : CodePoint → Text} {c : CodePoint}
    (hpoint : point c = numberEscape c) (hsurrogate : ¬c.IsSurrogate) (hc : c.val < 0x10000) :
    ReadsBack point c := by
  intro opening done rest half next
  rw [CodePoint.isSurrogate_iff, not_or] at hsurrogate
  have hescape : numberEscape c = unitEscape ⟨c.val, hc⟩ := by
    rw [numberEscape, CodePoint.units, dif_pos hc, List.flatMap_singleton]
    rfl
  have hunit : (⟨c.val, hc⟩ : CodeUnit).toCodePoint = c := rfl
  rw [hpoint, hescape, scanString_unitEscape, hunit, addEscaped_of_not_low hsurrogate.2,
    decide_eq_false hsurrogate.1]

/-- The escapes of both units of a code point are read as that one code point. -/
theorem readsBack_of_wide {point : CodePoint → Text} {c : CodePoint}
    (hpoint : point c = numberEscape c) (hc : 0x10000 ≤ c.val) : ReadsBack point c := by
  intro opening done rest half next
  obtain ⟨high, low, hunits, hhigh, hlow, hpair⟩ := CodePoint.exists_units_of_wide hc
  have hescape : numberEscape c = unitEscape high ++ unitEscape low := by
    rw [numberEscape, hunits]
    rfl
  obtain ⟨first, after, hafter⟩ : ∃ first after,
      unitEscape low ++ next :: rest = first :: after :=
    List.exists_cons_of_ne_nil (List.append_ne_nil_of_right_ne_nil _ (List.cons_ne_nil _ _))
  rw [hpoint, hescape, List.append_assoc, hafter, scanString_unitEscape, ← hafter,
    addEscaped_of_not_low hhigh.not_isLow, decide_eq_true hhigh, scanString_unitEscape, addEscaped,
    if_pos ⟨rfl, hlow⟩, hpair, decide_eq_false hlow.not_isHigh]

/-- Any code point is read back from a string with only the necessary escapes. -/
theorem readsBack_rawPoint (c : CodePoint) : ReadsBack rawPoint c := by
  cases hescape : namedEscape? c with
  | some escape => exact readsBack_of_named hescape (by rw [rawPoint, hescape])
  | none =>
      by_cases hc : c.val < 0x20
      · refine readsBack_of_narrow (by rw [rawPoint, hescape]; exact if_pos hc) ?_ (by omega)
        unfold CodePoint.IsSurrogate
        omega
      · exact readsBack_of_plain hescape (by rw [rawPoint, hescape]; exact if_neg hc)
          (Nat.not_lt.mp hc)

/-- A scalar value is read back from an ASCII string. A surrogate is not, if the other half of a
pair stands next to it. -/
theorem readsBack_asciiPoint {c : CodePoint} (hc : ¬c.IsSurrogate) : ReadsBack asciiPoint c := by
  cases hescape : namedEscape? c with
  | some escape => exact readsBack_of_named hescape (by rw [asciiPoint, hescape])
  | none =>
      by_cases hplain : 0x20 ≤ c.val ∧ c.val < 0x7F
      · exact readsBack_of_plain hescape (by rw [asciiPoint, hescape]; exact if_pos hplain)
          hplain.1
      · have hpoint : asciiPoint c = numberEscape c := by
          rw [asciiPoint, hescape]
          exact if_neg hplain
        by_cases hnarrow : c.val < 0x10000
        · exact readsBack_of_narrow hpoint hc hnarrow
        · exact readsBack_of_wide hpoint (Nat.not_lt.mp hnarrow)

theorem scanString_flatMap {point : CodePoint → Text} {t : Text}
    (h : ∀ c ∈ t, ReadsBack point c) (opening done rest : Text) (half : Bool) :
    scanString opening done half (t.flatMap point ++ quoteMark :: rest) =
      .ok (done.reverse ++ t, rest) := by
  induction t generalizing done half with
  | nil => rw [List.flatMap_nil, List.nil_append, scanString_quoteMark, List.append_nil]
  | cons c t ih =>
      have hc := h c List.mem_cons_self
      have ht := fun done half => ih (fun d hd => h d (List.mem_cons_of_mem _ hd)) done half
      obtain ⟨next, after, hafter⟩ : ∃ next after,
          t.flatMap point ++ quoteMark :: rest = next :: after :=
        List.exists_cons_of_ne_nil (List.append_ne_nil_of_right_ne_nil _ (List.cons_ne_nil _ _))
      rw [List.flatMap_cons, List.append_assoc, hafter, hc, ← hafter, ht, List.reverse_cons,
        List.append_assoc, List.singleton_append]

theorem scan_quote {point : CodePoint → Text} {t : Text} (h : ∀ c ∈ t, ReadsBack point c)
    (rest : Text) :
    scan quoteMark (t.flatMap point ++ quoteMark :: rest) = (.str t, rest) := by
  have hmark : mark? quoteMark = none := rfl
  simp only [scan, hmark, scanString_flatMap h]
  rfl

end TreeOffsets.Proofs.StringTokens
