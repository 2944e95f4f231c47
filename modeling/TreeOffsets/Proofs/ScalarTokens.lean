import TreeOffsets.Json.Readable
import TreeOffsets.Proofs.NumberTokens
import TreeOffsets.Proofs.StringTokens

namespace TreeOffsets.Proofs.ScalarTokens

open TreeOffsets.Double
open TreeOffsets.Json
open TreeOffsets.Json.Token
open TreeOffsets.Proofs.NumberTokens
open TreeOffsets.Proofs.Rounding
open TreeOffsets.Proofs.StringTokens

/-- A text begins with a token, and the rest is what follows it. -/
def Begins (t : Text) (token : Token) (rest : Text) : Prop :=
  ∃ c tail, t = c :: tail ∧ isBlank c = false ∧ scan c tail = (token, rest)

variable {rest : Text}

theorem isDigit_of_unsigned? {negative : Bool} {c : CodePoint} {t : Text} {found : Token × Text}
    (h : unsigned? negative (c :: t) = some found) : isDigit c = true := by
  by_contra hdigit
  have hzero : c ≠ CodePoint.ofChar '0' := by
    rintro rfl
    exact hdigit rfl
  simp [unsigned?, whole?, hzero, hdigit] at h

/-- A digit begins nothing but a number. -/
structure BeginsNumber (c : CodePoint) : Prop where
  notBlank : isBlank c = false
  noMark : mark? c = none
  noQuote : c ≠ CodePoint.ofChar '"'
  noSign : c ≠ CodePoint.ofChar '-'
  noWord : ∀ entry ∈ words, entry.1.head? ≠ some c

theorem beginsNumber_of_isDigit {c : CodePoint} (h : isDigit c = true) : BeginsNumber c := by
  simp only [isDigit, decide_eq_true_eq] at h
  have hne : ∀ d : Char, d.toNat < 0x30 ∨ 0x39 < d.toNat → c ≠ CodePoint.ofChar d := by
    intro d hd hc
    rw [CodePoint.eq_ofChar_iff] at hc
    omega
  refine ⟨?_, ?_, hne '"' (by decide), hne '-' (by decide), ?_⟩
  · simp [isBlank, hne ' ' (by decide), hne '\t' (by decide), hne '\n' (by decide),
      hne '\r' (by decide)]
  · simp [mark?, hne '[' (by decide), hne ']' (by decide), hne '\x7b' (by decide),
      hne '\x7d' (by decide), hne ',' (by decide), hne ':' (by decide)]
  · have hwords : ∀ entry ∈ words, ∀ d, entry.1.head? = some d → isDigit d = false := by decide
    intro entry hentry hhead
    have hdigit := hwords entry hentry c hhead
    simp only [isDigit, decide_eq_false_iff_not] at hdigit
    exact hdigit h

theorem head?_eq_of_isPrefixOf {word t : Text} (hword : word ≠ [])
    (h : word.isPrefixOf t = true) : t.head? = word.head? := by
  obtain ⟨tail, rfl⟩ := List.isPrefixOf_iff_prefix.mp h
  obtain ⟨c, word, rfl⟩ := List.exists_cons_of_ne_nil hword
  rfl

theorem word?_eq_none {c : CodePoint} (h : ∀ entry ∈ words, entry.1.head? ≠ some c) (t : Text) :
    word? (c :: t) = none := by
  rw [word?, List.findSome?_eq_none_iff]
  rintro ⟨word, v⟩ hentry
  refine if_neg fun hprefix => h _ hentry ?_
  exact (head?_eq_of_isPrefixOf (word_ne_nil _ hentry) hprefix).symm

theorem begins_unsigned {t : Text} {token : Token} (h : unsigned? false t = some (token, rest)) :
    Begins t token rest := by
  cases t with
  | nil => cases h
  | cons c t =>
      have hc := beginsNumber_of_isDigit (isDigit_of_unsigned? h)
      refine ⟨c, t, rfl, hc.notBlank, ?_⟩
      simp only [scan, hc.noMark, if_neg hc.noQuote, word?_eq_none hc.noWord, Option.orElse_none,
        number?, if_neg hc.noSign, h, Option.getD_some]

theorem begins_negative {t : Text} {token : Token} (h : unsigned? true t = some (token, rest)) :
    Begins (CodePoint.ofChar '-' :: t) token rest := by
  cases t with
  | nil => cases h
  | cons c t =>
      have hletter : c ≠ CodePoint.ofChar 'I' := by
        rintro rfl
        cases isDigit_of_unsigned? h
      have hword : word? (CodePoint.ofChar '-' :: c :: t) = none := by
        simp +decide [word?, words, Text.ofString, Ne.symm hletter]
      refine ⟨CodePoint.ofChar '-', c :: t, rfl, rfl, ?_⟩
      have hmark : mark? (CodePoint.ofChar '-') = none := rfl
      have hquote : CodePoint.ofChar '-' ≠ CodePoint.ofChar '"' := by decide
      simp only [scan, hmark, if_neg hquote, hword, Option.orElse_none, number?, if_pos, h,
        Option.getD_some]

theorem begins_ofInt {n : Int} (hn : Decimal.digitCount n.natAbs ≤ digitLimit)
    (hrest : EndsNumber rest) : Begins (Text.ofInt n ++ rest) (.scalar (.int n)) rest := by
  cases n with
  | ofNat n =>
      have hread := unsigned?_ofNat false (n := n) hn hrest
      rw [if_neg Bool.false_ne_true] at hread
      exact begins_unsigned hread
  | negSucc n =>
      have hread := unsigned?_ofNat true (n := n + 1) hn hrest
      rw [if_pos rfl, Nat.cast_succ, ← Int.negSucc_eq] at hread
      exact begins_negative hread

theorem begins_nan (rest : Text) :
    Begins (Text.ofString "NaN" ++ rest) (.scalar (.float .nan)) rest := ⟨_, _, rfl, rfl, rfl⟩

theorem begins_infinity (rest : Text) :
    Begins (Text.ofString "Infinity" ++ rest) (.scalar (.float (.infinity false))) rest :=
  ⟨_, _, rfl, rfl, rfl⟩

theorem begins_negativeInfinity (rest : Text) :
    Begins (Text.ofString "-Infinity" ++ rest) (.scalar (.float (.infinity true))) rest :=
  ⟨_, _, rfl, rfl, rfl⟩

theorem begins_toText (x : Double) (hrest : EndsNumber rest) :
    Begins (x.toText doubleNames ++ rest) (.scalar (.float x)) rest := by
  cases x with
  | nan => exact begins_nan rest
  | infinity negative =>
      cases negative with
      | false => exact begins_infinity rest
      | true => exact begins_negativeInfinity rest
  | finite negative rank =>
      have hround := ofDecimal_sign (ofDecimal_shortest rank) negative
      have hread := readsAs_layout negative (shortest rank) rest hrest
      rw [hround] at hread
      cases negative with
      | false =>
          rw [toText]
          exact begins_unsigned hread
      | true =>
          rw [toText, List.cons_append]
          exact begins_negative hread

theorem begins_quote {point : CodePoint → Text} {t : Text} (h : ∀ c ∈ t, ReadsBack point c)
    (rest : Text) : Begins (quote point t ++ rest) (.str t) rest := by
  have htext : quote point t ++ rest = quoteMark :: (t.flatMap point ++ quoteMark :: rest) := by
    simp [quote, quoteMark]
  exact ⟨quoteMark, _, htext, rfl, scan_quote h rest⟩

def tokenOf : Json → Token
  | .str t => .str t
  | v => .scalar v

/-- What is asked of a value that is read back: so are the code points of its strings and names. -/
def readable (point : CodePoint → Text) : Rule where
  str t := ∀ c ∈ t, ReadsBack point c
  names names := ∀ name ∈ names, ∀ c ∈ name, ReadsBack point c

theorem begins_scalarText {point : CodePoint → Text} {v : Json} (hv : v.isContainer = false)
    (hshort : v.HasShortIntegers) (hpoint : v.Meets (readable point)) (hrest : EndsNumber rest) :
    Begins (scalarText point v ++ rest) (tokenOf v) rest := by
  cases v with
  | null => exact ⟨_, _, rfl, rfl, rfl⟩
  | bool b =>
      cases b with
      | false => exact ⟨_, _, rfl, rfl, rfl⟩
      | true => exact ⟨_, _, rfl, rfl, rfl⟩
  | int n => exact begins_ofInt hshort hrest
  | float x => exact begins_toText x hrest
  | str t => exact begins_quote hpoint rest
  | arr items => cases hv
  | obj fields => cases hv

end TreeOffsets.Proofs.ScalarTokens
