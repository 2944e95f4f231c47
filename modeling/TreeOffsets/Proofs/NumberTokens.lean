import Mathlib.Data.List.TakeWhile
import TreeOffsets.Json.Token.Lexer
import TreeOffsets.Proofs.Rounding

namespace TreeOffsets.Proofs.NumberTokens

open TreeOffsets.Double
open TreeOffsets.Json
open TreeOffsets.Json.Token
open TreeOffsets.Proofs.DecimalDigits
open TreeOffsets.Proofs.Rounding

def NoDigit (rest : Text) : Prop := ∀ c, rest.head? = some c → isDigit c = false

/-- A text does not go on with a number. -/
structure EndsNumber (rest : Text) : Prop where
  noDigit : NoDigit rest
  noPoint : rest.head? ≠ some (CodePoint.ofChar '.')
  noLower : rest.head? ≠ some (CodePoint.ofChar 'e')
  noUpper : rest.head? ≠ some (CodePoint.ofChar 'E')

theorem noDigit_cons {c : CodePoint} (h : isDigit c = false) (rest : Text) :
    NoDigit (c :: rest) := by
  rintro d ⟨⟩
  exact h

variable {rest : Text}

theorem takeWhile_digits {digits : Text} (h : ∀ c ∈ digits, isDigit c = true)
    (hrest : NoDigit rest) : (digits ++ rest).takeWhile isDigit = digits := by
  rw [List.takeWhile_append_of_pos h]
  cases rest with
  | nil => rw [List.takeWhile_nil, List.append_nil]
  | cons c rest =>
      rw [List.takeWhile_cons_of_neg (by simp [hrest c rfl]), List.append_nil]

theorem dropWhile_digits {digits : Text} (h : ∀ c ∈ digits, isDigit c = true)
    (hrest : NoDigit rest) : (digits ++ rest).dropWhile isDigit = rest := by
  rw [List.dropWhile_append_of_pos h]
  cases rest with
  | nil => rfl
  | cons c rest => rw [List.dropWhile_cons_of_neg (by simp [hrest c rfl])]

theorem whole?_zero (rest : Text) :
    whole? (CodePoint.ofChar '0' :: rest) = some ([CodePoint.ofChar '0'], rest) := rfl

theorem whole?_digits {c : CodePoint} {digits : Text} (hc : isDigit c = true)
    (hzero : c ≠ CodePoint.ofChar '0') (h : ∀ d ∈ digits, isDigit d = true)
    (hrest : NoDigit rest) : whole? (c :: digits ++ rest) = some (c :: digits, rest) := by
  rw [List.cons_append, whole?, if_neg hzero, if_pos hc, takeWhile_digits h hrest,
    dropWhile_digits h hrest]

theorem fraction?_eq_none (h : rest.head? ≠ some (CodePoint.ofChar '.')) :
    fraction? rest = none := by
  match rest with
  | [] => rfl
  | [_] => rfl
  | c :: d :: rest =>
      have hc : c ≠ CodePoint.ofChar '.' := fun hc => h (congrArg some hc)
      rw [fraction?, if_neg fun hboth => hc hboth.1]

theorem fraction?_digits {digits : Text} (hne : digits ≠ [])
    (h : ∀ d ∈ digits, isDigit d = true) (hrest : NoDigit rest) :
    fraction? (CodePoint.ofChar '.' :: digits ++ rest) = some (digits, rest) := by
  cases digits with
  | nil => exact absurd rfl hne
  | cons c digits =>
      have hdigits : ∀ d ∈ digits, isDigit d = true := fun d hd =>
        h d (List.mem_cons_of_mem _ hd)
      rw [List.cons_append, List.cons_append, fraction?,
        if_pos ⟨rfl, h c List.mem_cons_self⟩, takeWhile_digits hdigits hrest,
        dropWhile_digits hdigits hrest]

theorem exponent?_eq_none (hlower : rest.head? ≠ some (CodePoint.ofChar 'e'))
    (hupper : rest.head? ≠ some (CodePoint.ofChar 'E')) : exponent? rest = none := by
  match rest with
  | [] => rfl
  | [_] => rfl
  | c :: d :: rest =>
      have hc : ¬(c = CodePoint.ofChar 'e' ∨ c = CodePoint.ofChar 'E') := by
        rintro (rfl | rfl)
        · exact hlower rfl
        · exact hupper rfl
      rw [exponent?, if_neg hc]

theorem exponentDigits?_digits (negative : Bool) {digits : Text} (hne : digits ≠ [])
    (h : ∀ d ∈ digits, isDigit d = true) (hrest : NoDigit rest) :
    exponentDigits? negative (digits ++ rest) =
      some (if negative then -(digitsValue digits : Int) else digitsValue digits, rest) := by
  cases digits with
  | nil => exact absurd rfl hne
  | cons c digits =>
      have hdigits : ∀ d ∈ digits, isDigit d = true := fun d hd =>
        h d (List.mem_cons_of_mem _ hd)
      rw [List.cons_append, exponentDigits?, if_pos (h c List.mem_cons_self),
        takeWhile_digits hdigits hrest, dropWhile_digits hdigits hrest]

theorem isDigit_of_mem_zeros {count : Nat} {c : CodePoint} (h : c ∈ zeros count) :
    isDigit c = true := by
  rw [List.eq_of_mem_replicate h]
  rfl

theorem exponent?_exponentText (e : Int) (hrest : NoDigit rest) :
    exponent? (CodePoint.ofChar 'e' :: exponentText e ++ rest) = some (e, rest) := by
  have hdigits : ∀ c ∈ zeros (2 - (Text.ofNat e.natAbs).length) ++ Text.ofNat e.natAbs,
      isDigit c = true := by
    intro c hc
    rcases List.mem_append.mp hc with hzero | hdigit
    · exact isDigit_of_mem_zeros hzero
    · exact isDigit_of_mem_ofNat hdigit
  have hne : zeros (2 - (Text.ofNat e.natAbs).length) ++ Text.ofNat e.natAbs ≠ [] := by
    have hlength := digitCount_pos e.natAbs
    rw [← length_ofNat] at hlength
    exact List.append_ne_nil_of_right_ne_nil _ (List.ne_nil_of_length_pos hlength)
  have hvalue : digitsValue (zeros (2 - (Text.ofNat e.natAbs).length) ++ Text.ofNat e.natAbs) =
      e.natAbs := by
    rw [digitsValue_append, digitsValue_zeros, digitsValue_ofNat, Nat.zero_mul, Nat.zero_add]
  by_cases hsign : e < 0
  · have htext : exponentText e = CodePoint.ofChar '-' ::
        (zeros (2 - (Text.ofNat e.natAbs).length) ++ Text.ofNat e.natAbs) := by
      rw [exponentText, if_pos hsign]
    rw [htext, List.cons_append, List.cons_append, exponent?, if_pos (.inl rfl), if_pos rfl,
      exponentDigits?_digits true hne hdigits hrest, hvalue, if_pos rfl]
    congr 2
    omega
  · have htext : exponentText e = CodePoint.ofChar '+' ::
        (zeros (2 - (Text.ofNat e.natAbs).length) ++ Text.ofNat e.natAbs) := by
      rw [exponentText, if_neg hsign]
    rw [htext, List.cons_append, List.cons_append, exponent?, if_pos (.inl rfl),
      if_neg (by decide), if_pos rfl, exponentDigits?_digits false hne hdigits hrest, hvalue,
      if_neg Bool.false_ne_true]
    congr 2
    omega

section

variable {t whole fraction afterWhole : Text} {negative : Bool}

theorem unsigned?_eq_integer (hwhole : whole? t = some (whole, rest)) (hrest : EndsNumber rest) :
    unsigned? negative t = some (integer negative whole, rest) := by
  simp only [unsigned?, hwhole, fraction?_eq_none hrest.noPoint, Option.getD_none,
    exponent?_eq_none hrest.noLower hrest.noUpper, List.isEmpty_nil, if_true]

theorem unsigned?_eq_fraction (hwhole : whole? t = some (whole, afterWhole))
    (hfraction : fraction? afterWhole = some (fraction, rest)) (hne : fraction ≠ [])
    (hrest : EndsNumber rest) :
    unsigned? negative t = some (.scalar (.float
      (ofDecimal negative ⟨digitsValue (whole ++ fraction), -fraction.length⟩)), rest) := by
  have hempty : fraction.isEmpty = false := by simpa using hne
  simp only [unsigned?, hwhole, hfraction, Option.getD_some,
    exponent?_eq_none hrest.noLower hrest.noUpper, hempty, Bool.false_eq_true, if_false]

theorem unsigned?_eq_exponent {afterFraction : Text} {e : Int}
    (hwhole : whole? t = some (whole, afterWhole))
    (hfraction : (fraction? afterWhole).getD ([], afterWhole) = (fraction, afterFraction))
    (hexponent : exponent? afterFraction = some (e, rest)) :
    unsigned? negative t = some (.scalar (.float
      (ofDecimal negative ⟨digitsValue (whole ++ fraction), e - fraction.length⟩)), rest) := by
  simp only [unsigned?, hwhole, hfraction, hexponent]

end

theorem whole?_ofNat (n : Nat) (hrest : NoDigit rest) :
    whole? (Text.ofNat n ++ rest) = some (Text.ofNat n, rest) := by
  rcases Nat.eq_zero_or_pos n with rfl | hn
  · exact whole?_zero rest
  · obtain ⟨c, digits, hdigits, hc, hzero⟩ := exists_ofNat_eq_cons hn
    have hall : ∀ d ∈ digits, isDigit d = true := fun d hd =>
      isDigit_of_mem_ofNat (hdigits ▸ List.mem_cons_of_mem c hd)
    rw [hdigits, whole?_digits hc hzero hall hrest]

theorem unsigned?_ofNat (negative : Bool) {n : Nat} (hn : Decimal.digitCount n ≤ digitLimit)
    (hrest : EndsNumber rest) :
    unsigned? negative (Text.ofNat n ++ rest) =
      some (.scalar (.int (if negative then -(n : Int) else n)), rest) := by
  rw [unsigned?_eq_integer (whole?_ofNat n hrest.noDigit) hrest, integer, length_ofNat,
    if_neg (Nat.not_lt.mpr hn), digitsValue_ofNat]

/-- Digits that do not begin with a zero. -/
structure IsLeading (digits : Text) : Prop where
  isDigit : ∀ c ∈ digits, isDigit c = true
  nonzero : ∃ c rest, digits = c :: rest ∧ c ≠ CodePoint.ofChar '0'

theorem IsLeading.length_pos {digits : Text} (h : IsLeading digits) : 0 < digits.length := by
  obtain ⟨c, rest, rfl, -⟩ := h.nonzero
  exact Nat.succ_pos _

theorem exists_zeros (d : Decimal) :
    ∃ count, Text.ofNat d.digits = significant d ++ zeros count := by
  have hsplit := congrArg List.reverse (List.takeWhile_append_dropWhile
    (p := fun c => c == CodePoint.ofChar '0') (l := (Text.ofNat d.digits).reverse))
  have hzeros : ∀ c ∈ (Text.ofNat d.digits).reverse.takeWhile fun c => c == CodePoint.ofChar '0',
      c = CodePoint.ofChar '0' := by
    intro c hc
    have hbeq := List.mem_takeWhile_imp (p := fun c => c == CodePoint.ofChar '0') hc
    exact eq_of_beq hbeq
  rw [List.reverse_append, List.reverse_reverse, List.eq_replicate_of_mem hzeros,
    List.reverse_replicate] at hsplit
  exact ⟨_, hsplit.symm⟩

theorem isLeading_significant {d : Decimal} (hd : 0 < d.digits) : IsLeading (significant d) := by
  obtain ⟨count, hcount⟩ := exists_zeros d
  obtain ⟨c, digits, hdigits, -, hzero⟩ := exists_ofNat_eq_cons hd
  refine ⟨fun e he => isDigit_of_mem_ofNat (n := d.digits) ?_, ?_⟩
  · rw [hcount]
    exact List.mem_append_left _ he
  · cases hsignificant : significant d with
    | nil =>
        have hvalue := digitsValue_ofNat d.digits
        rw [hcount, hsignificant, List.nil_append, digitsValue_zeros] at hvalue
        omega
    | cons e rest =>
        rw [hcount, hsignificant, List.cons_append] at hdigits
        cases hdigits
        exact ⟨c, rest, rfl, hzero⟩

/-- A decimal rounds as its significant digits do, where the first of them stands for the same
power. -/
theorem ofDecimal_significant (negative : Bool) (d : Decimal) :
    ofDecimal negative ⟨digitsValue (significant d), d.leading + 1 - (significant d).length⟩ =
      ofDecimal negative d := by
  obtain ⟨count, hcount⟩ := exists_zeros d
  have hvalue := digitsValue_ofNat d.digits
  have hlength := length_ofNat d.digits
  rw [hcount, digitsValue_append, digitsValue_zeros, Nat.add_zero, zeros,
    List.length_replicate] at hvalue
  rw [hcount, zeros, List.length_append, List.length_replicate] at hlength
  have hshift := ofDecimal_mul_pow negative (digitsValue (significant d)) count d.exponent
  rw [hvalue] at hshift
  rw [hshift]
  congr 2
  rw [Decimal.leading, ← hlength]
  omega

def ReadsAs (negative : Bool) (t : Text) (d : Decimal) : Prop :=
  ∀ rest, EndsNumber rest →
    unsigned? negative (t ++ rest) = some (.scalar (.float (ofDecimal negative d)), rest)

section

variable {negative : Bool} {digits : Text} {leading : Int}

theorem whole?_leading (h : IsLeading digits) (hrest : NoDigit rest) :
    whole? (digits ++ rest) = some (digits, rest) := by
  obtain ⟨c, tail, rfl, hzero⟩ := h.nonzero
  exact whole?_digits (h.isDigit c List.mem_cons_self) hzero
    (fun d hd => h.isDigit d (List.mem_cons_of_mem _ hd)) hrest

theorem readsAs_of_fraction (negative : Bool) {whole fraction : Text}
    (hwhole : ∀ rest, NoDigit rest → whole? (whole ++ rest) = some (whole, rest))
    (hne : fraction ≠ []) (hfraction : ∀ c ∈ fraction, isDigit c = true) :
    ReadsAs negative (whole ++ Text.ofString "." ++ fraction)
      ⟨digitsValue (whole ++ fraction), -fraction.length⟩ := by
  intro rest hrest
  have hpoint : Text.ofString "." = [CodePoint.ofChar '.'] := rfl
  rw [hpoint, List.append_assoc, List.append_assoc, List.singleton_append]
  exact unsigned?_eq_fraction (hwhole _ (noDigit_cons rfl _))
    (fraction?_digits hne hfraction hrest.noDigit) hne hrest

theorem ReadsAs.congr {t : Text} {d e : Decimal} (h : ReadsAs negative t d)
    (heq : ofDecimal negative d = ofDecimal negative e) : ReadsAs negative t e :=
  fun rest hrest => heq ▸ h rest hrest

theorem readsAs_zero (negative : Bool) (e : Int) :
    ReadsAs negative (Text.ofString "0.0") ⟨0, e⟩ := by
  have hread : ReadsAs negative (Text.ofString "0" ++ Text.ofString "." ++ Text.ofString "0")
      ⟨digitsValue (Text.ofString "0" ++ Text.ofString "0"), -(1 : Nat)⟩ :=
    readsAs_of_fraction negative (fun rest _ => whole?_zero rest) (by decide) (by decide)
  refine hread.congr ?_
  rw [ofDecimal_zero]
  exact ofDecimal_zero negative _

theorem readsAs_positional (h : IsLeading digits) :
    ReadsAs negative (positional digits leading)
      ⟨digitsValue digits, leading + 1 - digits.length⟩ := by
  have hlength := h.length_pos
  unfold positional
  split
  · next hleading =>
      have hne : zeros (-leading - 1).toNat ++ digits ≠ [] :=
        List.append_ne_nil_of_right_ne_nil _ (List.ne_nil_of_length_pos hlength)
      have hall : ∀ c ∈ zeros (-leading - 1).toNat ++ digits, isDigit c = true := by
        intro c hc
        rcases List.mem_append.mp hc with hzero | hdigit
        · exact isDigit_of_mem_zeros hzero
        · exact h.isDigit c hdigit
      have hread : ReadsAs negative
          (Text.ofString "0" ++ Text.ofString "." ++ (zeros (-leading - 1).toNat ++ digits))
          ⟨digitsValue (Text.ofString "0" ++ (zeros (-leading - 1).toNat ++ digits)),
            -(zeros (-leading - 1).toNat ++ digits).length⟩ :=
        readsAs_of_fraction negative (fun rest _ => whole?_zero rest) hne hall
      rw [List.append_assoc]
      refine hread.congr ?_
      have hzero : digitsValue (Text.ofString "0") = 0 := rfl
      rw [digitsValue_append, digitsValue_append, digitsValue_zeros, hzero, Nat.zero_mul,
        Nat.zero_mul, Nat.zero_add, Nat.zero_add, List.length_append, zeros,
        List.length_replicate]
      congr 2
      omega
  · next hleading =>
      dsimp only
      split
      · next hshort =>
          have hwhole : ∀ rest, NoDigit rest →
              whole? (digits ++ zeros (leading.toNat + 1 - digits.length) ++ rest) =
                some (digits ++ zeros (leading.toNat + 1 - digits.length), rest) := by
            intro rest hrest
            refine whole?_leading ⟨?_, ?_⟩ hrest
            · intro c hc
              rcases List.mem_append.mp hc with hdigit | hzero
              · exact h.isDigit c hdigit
              · exact isDigit_of_mem_zeros hzero
            · obtain ⟨c, tail, rfl, hzero⟩ := h.nonzero
              exact ⟨c, _, rfl, hzero⟩
          have hzeroes : Text.ofString "0" ≠ [] ∧ ∀ c ∈ Text.ofString "0", isDigit c = true := by
            decide
          have hread := readsAs_of_fraction negative hwhole hzeroes.1 hzeroes.2
          rw [List.append_assoc] at hread
          refine hread.congr ?_
          have hzero : digitsValue (Text.ofString "0") = 0 := rfl
          have hone : (Text.ofString "0").length = 1 := rfl
          rw [digitsValue_append, digitsValue_append, digitsValue_zeros, hzero, Nat.add_zero,
            Nat.add_zero, hone, Nat.mul_assoc, ← Nat.pow_add, ofDecimal_mul_pow, zeros,
            List.length_replicate]
          congr 2
          omega
      · next hlong =>
          have hpos : 0 < leading.toNat + 1 := Nat.succ_pos _
          have hwhole : ∀ rest, NoDigit rest →
              whole? (digits.take (leading.toNat + 1) ++ rest) =
                some (digits.take (leading.toNat + 1), rest) := by
            intro rest hrest
            refine whole?_leading ⟨fun c hc => h.isDigit c (List.mem_of_mem_take hc), ?_⟩ hrest
            obtain ⟨c, tail, rfl, hzero⟩ := h.nonzero
            exact ⟨c, _, rfl, hzero⟩
          have hne : digits.drop (leading.toNat + 1) ≠ [] := by
            rw [Ne, List.drop_eq_nil_iff]
            omega
          have hread := readsAs_of_fraction negative hwhole hne
            fun c hc => h.isDigit c (List.mem_of_mem_drop hc)
          rw [List.take_append_drop, List.length_drop] at hread
          refine hread.congr ?_
          congr 2
          omega

theorem readsAs_scientific (h : IsLeading digits) :
    ReadsAs negative (scientific digits leading)
      ⟨digitsValue digits, leading + 1 - digits.length⟩ := by
  intro rest hrest
  obtain ⟨c, tail, rfl, hzero⟩ := h.nonzero
  have hletter : Text.ofString "e" = [CodePoint.ofChar 'e'] := rfl
  have hpoint : Text.ofString "." = [CodePoint.ofChar '.'] := rfl
  have hfirst : IsLeading [c] := by
    refine ⟨fun d hd => h.isDigit d ?_, c, [], rfl, hzero⟩
    rw [List.mem_singleton.mp hd]
    exact List.mem_cons_self
  have hwhole : ∀ rest, NoDigit rest → whole? ([c] ++ rest) = some ([c], rest) :=
    fun rest => whole?_leading hfirst
  have hexponent := exponent?_exponentText leading hrest.noDigit
  have hafter : NoDigit (CodePoint.ofChar 'e' :: exponentText leading ++ rest) :=
    noDigit_cons rfl _
  cases tail with
  | nil =>
      have htext : scientific [c] leading ++ rest =
          [c] ++ (CodePoint.ofChar 'e' :: exponentText leading ++ rest) := by
        simp [scientific, hletter]
      have hfraction : fraction? (CodePoint.ofChar 'e' :: exponentText leading ++ rest) = none :=
        fraction?_eq_none (by simp [CodePoint.eq_ofChar_iff])
      rw [htext, unsigned?_eq_exponent (hwhole _ hafter)
        (by rw [hfraction, Option.getD_none]) hexponent]
      simp
  | cons d tail =>
      have hdigits : ∀ e ∈ d :: tail, isDigit e = true := fun e he =>
        h.isDigit e (List.mem_cons_of_mem _ he)
      have htext : scientific (c :: d :: tail) leading ++ rest =
          [c] ++ (CodePoint.ofChar '.' :: (d :: tail) ++
            (CodePoint.ofChar 'e' :: exponentText leading ++ rest)) := by
        simp [scientific, hletter, hpoint]
      have hpointed : NoDigit (CodePoint.ofChar '.' :: (d :: tail) ++
          (CodePoint.ofChar 'e' :: exponentText leading ++ rest)) := noDigit_cons rfl _
      have hfraction := fraction?_digits (List.cons_ne_nil d tail) hdigits hafter
      rw [htext, unsigned?_eq_exponent (hwhole _ hpointed)
        (by rw [hfraction, Option.getD_some]) hexponent, List.singleton_append]
      have hshift : leading - ((d :: tail).length : Int) =
          leading + 1 - ((c :: d :: tail).length : Int) := by
        rw [List.length_cons (a := c), Nat.cast_succ]
        omega
      rw [hshift]

end

/-- The layout of a decimal is read as that decimal. -/
theorem readsAs_layout (negative : Bool) (d : Decimal) : ReadsAs negative (layout d) d := by
  unfold layout
  split
  · next hzero =>
      obtain ⟨digits, e⟩ := d
      dsimp only at hzero
      subst hzero
      exact readsAs_zero negative e
  · next hpos =>
      have hleading := isLeading_significant (Nat.pos_of_ne_zero hpos)
      have hround := ofDecimal_significant negative d
      split
      · exact (readsAs_positional hleading).congr hround
      · exact (readsAs_scientific hleading).congr hround

end TreeOffsets.Proofs.NumberTokens
