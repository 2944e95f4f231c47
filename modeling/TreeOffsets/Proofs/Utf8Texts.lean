import TreeOffsets.Text.Utf8

namespace TreeOffsets.Proofs.Utf8Texts

open TreeOffsets.Text

theorem utf8_one {c : CodePoint} (h : c.val < 0x80) : c.utf8 = [UInt8.ofNat c.val] := if_pos h

theorem utf8_two {c : CodePoint} (hlow : 0x80 ≤ c.val) (h : c.val < 0x800) :
    c.utf8 = [UInt8.ofNat (0xC0 + c.val / 0x40), UInt8.ofNat (0x80 + c.val % 0x40)] := by
  rw [CodePoint.utf8, if_neg (by omega), if_pos h]

theorem utf8_three {c : CodePoint} (hlow : 0x800 ≤ c.val) (h : c.val < 0x10000) :
    c.utf8 = [UInt8.ofNat (0xE0 + c.val / 0x1000), UInt8.ofNat (0x80 + c.val / 0x40 % 0x40),
      UInt8.ofNat (0x80 + c.val % 0x40)] := by
  rw [CodePoint.utf8, if_neg (by omega), if_neg (by omega), if_pos h]

theorem utf8_four {c : CodePoint} (hlow : 0x10000 ≤ c.val) :
    c.utf8 = [UInt8.ofNat (0xF0 + c.val / 0x40000), UInt8.ofNat (0x80 + c.val / 0x1000 % 0x40),
      UInt8.ofNat (0x80 + c.val / 0x40 % 0x40), UInt8.ofNat (0x80 + c.val % 0x40)] := by
  rw [CodePoint.utf8, if_neg (by omega), if_neg (by omega), if_neg (by omega)]

theorem toNat_ofNat {n : Nat} (h : n < 0x100) : (UInt8.ofNat n).toNat = n :=
  UInt8.toNat_ofNat_of_lt' h

theorem isTail_ofNat (n : Nat) : IsTail (UInt8.ofNat (0x80 + n % 0x40)) := by
  have h := toNat_ofNat (n := 0x80 + n % 0x40) (by omega)
  unfold IsTail
  omega

/-- Reading begins with the code point that the bytes begin with. -/
def ReadsFirst (c : CodePoint) : Prop :=
  ∀ (start : Nat) (done : Text) (rest : Bytes),
    decodeFrom start done (c.utf8 ++ rest) = decodeFrom (start + c.utf8.length) (c :: done) rest

theorem readsFirst_one {c : CodePoint} (h : c.val < 0x80) : ReadsFirst c := by
  intro start done rest
  have ha := toNat_ofNat (n := c.val) (by omega)
  rw [utf8_one h, List.singleton_append, decodeFrom, dif_pos (by omega), List.length_singleton]
  congr 2
  exact CodePoint.ext ha

theorem readsFirst_two {c : CodePoint} (hlow : 0x80 ≤ c.val) (h : c.val < 0x800) :
    ReadsFirst c := by
  intro start done rest
  have ha := toNat_ofNat (n := 0xC0 + c.val / 0x40) (by omega)
  have hb := toNat_ofNat (n := 0x80 + c.val % 0x40) (by omega)
  have hsecond : IsSecond (UInt8.ofNat (0xC0 + c.val / 0x40))
      (UInt8.ofNat (0x80 + c.val % 0x40)) :=
    ⟨isTail_ofNat _, by omega, by omega, by omega, by omega⟩
  rw [utf8_two hlow h, List.cons_append, List.singleton_append, decodeFrom, dif_neg (by omega),
    dif_neg (by omega)]
  simp only [dif_pos hsecond]
  rw [if_pos (by omega)]
  congr 2
  refine CodePoint.ext ?_
  simp only [two]
  omega

theorem readsFirst_three {c : CodePoint} (hc : ¬c.IsSurrogate) (hlow : 0x800 ≤ c.val)
    (h : c.val < 0x10000) : ReadsFirst c := by
  intro start done rest
  have ha := toNat_ofNat (n := 0xE0 + c.val / 0x1000) (by omega)
  have hb := toNat_ofNat (n := 0x80 + c.val / 0x40 % 0x40) (by omega)
  have hd := toNat_ofNat (n := 0x80 + c.val % 0x40) (by omega)
  -- A surrogate would have three bytes, of which the second may not follow the first.
  unfold CodePoint.IsSurrogate at hc
  have hsecond : IsSecond (UInt8.ofNat (0xE0 + c.val / 0x1000))
      (UInt8.ofNat (0x80 + c.val / 0x40 % 0x40)) :=
    ⟨isTail_ofNat _, by omega, by omega, by omega, by omega⟩
  rw [utf8_three hlow h, List.cons_append, List.cons_append, List.singleton_append, decodeFrom,
    dif_neg (by omega), dif_neg (by omega)]
  simp only [dif_pos hsecond, if_pos (isTail_ofNat _)]
  rw [if_neg (by omega), dif_pos (by omega)]
  congr 2
  refine CodePoint.ext ?_
  simp only [three]
  omega

theorem readsFirst_four {c : CodePoint} (hlow : 0x10000 ≤ c.val) : ReadsFirst c := by
  intro start done rest
  have hval := c.val_lt
  have ha := toNat_ofNat (n := 0xF0 + c.val / 0x40000) (by omega)
  have hb := toNat_ofNat (n := 0x80 + c.val / 0x1000 % 0x40) (by omega)
  have hd := toNat_ofNat (n := 0x80 + c.val / 0x40 % 0x40) (by omega)
  have he := toNat_ofNat (n := 0x80 + c.val % 0x40) (by omega)
  have hsecond : IsSecond (UInt8.ofNat (0xF0 + c.val / 0x40000))
      (UInt8.ofNat (0x80 + c.val / 0x1000 % 0x40)) :=
    ⟨isTail_ofNat _, by omega, by omega, by omega, by omega⟩
  rw [utf8_four hlow, List.cons_append, List.cons_append, List.cons_append, List.singleton_append,
    decodeFrom, dif_neg (by omega), dif_neg (by omega)]
  simp only [dif_pos hsecond, if_pos (isTail_ofNat _)]
  rw [if_neg (by omega), dif_neg (by omega)]
  congr 2
  refine CodePoint.ext ?_
  dsimp only
  omega

theorem readsFirst {c : CodePoint} (hc : ¬c.IsSurrogate) : ReadsFirst c := by
  rcases Nat.lt_or_ge c.val 0x80 with h1 | h1
  · exact readsFirst_one h1
  · rcases Nat.lt_or_ge c.val 0x800 with h2 | h2
    · exact readsFirst_two h1 h2
    · rcases Nat.lt_or_ge c.val 0x10000 with h3 | h3
      · exact readsFirst_three hc h2 h3
      · exact readsFirst_four h3

theorem decodeFrom_flatMap_utf8 {t : Text} (h : t.IsScalar) (start : Nat) (done : Text) :
    decodeFrom start done (t.flatMap CodePoint.utf8) = .ok (done.reverse ++ t) := by
  induction t generalizing start done with
  | nil => rw [List.flatMap_nil, decodeFrom, List.append_nil]
  | cons c t ih =>
      have hc : ¬c.IsSurrogate := h c List.mem_cons_self
      have ht : Text.IsScalar t := fun d hd => h d (List.mem_cons_of_mem _ hd)
      rw [List.flatMap_cons, readsFirst hc, ih ht, List.reverse_cons, List.append_assoc,
        List.singleton_append]

/-- Bytes are those of a text of scalar values. -/
def Spells (bytes : Bytes) (t : Text) : Prop :=
  t.IsScalar ∧ bytes = t.flatMap CodePoint.utf8

theorem spells_nil : Spells [] [] := ⟨fun _ h => absurd h List.not_mem_nil, rfl⟩

theorem Spells.cons {c : CodePoint} {first rest : Bytes} {t : Text} (hc : ¬c.IsSurrogate)
    (hfirst : first = c.utf8) (h : Spells rest t) : Spells (first ++ rest) (c :: t) := by
  obtain ⟨hscalar, rfl⟩ := h
  subst hfirst
  refine ⟨?_, (List.flatMap_cons ..).symm⟩
  intro d hd
  rcases List.mem_cons.mp hd with rfl | hmem
  · exact hc
  · exact hscalar d hmem

theorem Spells.append {first rest : Bytes} {s t : Text} (hs : Spells first s)
    (ht : Spells rest t) : Spells (first ++ rest) (s ++ t) := by
  obtain ⟨hs, rfl⟩ := hs
  obtain ⟨ht, rfl⟩ := ht
  exact ⟨List.forall_mem_append.mpr ⟨hs, ht⟩, List.flatMap_append.symm⟩

theorem eq_ofNat_of_toNat {b : UInt8} {n : Nat} (h : b.toNat = n) : b = UInt8.ofNat n := by
  rw [← h, UInt8.ofNat_toNat]

theorem one_spec {a : UInt8} (h : a.toNat < 0x80) (hval : a.toNat < 0x110000) :
    ¬(⟨a.toNat, hval⟩ : CodePoint).IsSurrogate ∧ [a] = (⟨a.toNat, hval⟩ : CodePoint).utf8 := by
  refine ⟨fun hsurrogate => ?_, ?_⟩
  · unfold CodePoint.IsSurrogate at hsurrogate
    dsimp only at hsurrogate
    omega
  · rw [utf8_one h, UInt8.ofNat_toNat]

theorem two_spec {a b : UInt8} (hlead : ¬(a.toNat < 0xC2 ∨ 0xF4 < a.toNat))
    (hb : IsSecond a b) (ha : a.toNat < 0xE0) :
    ¬(two a b).IsSurrogate ∧ [a, b] = (two a b).utf8 := by
  obtain ⟨⟨hb1, hb2⟩, -⟩ := hb
  have hval : (two a b).val = a.toNat % 0x20 * 0x40 + b.toNat % 0x40 := rfl
  refine ⟨fun hsurrogate => ?_, ?_⟩
  · unfold CodePoint.IsSurrogate at hsurrogate
    omega
  · rw [utf8_two (by omega) (by omega), ← eq_ofNat_of_toNat (b := a) (by omega),
      ← eq_ofNat_of_toNat (b := b) (by omega)]

theorem three_spec {a b c : UInt8} (hb : IsSecond a b) (hlow : ¬a.toNat < 0xE0)
    (ha : a.toNat < 0xF0) (hc : IsTail c) :
    ¬(three a b c).IsSurrogate ∧ [a, b, c] = (three a b c).utf8 := by
  obtain ⟨⟨hb1, hb2⟩, hshort, hsurr, -⟩ := hb
  obtain ⟨hc1, hc2⟩ := hc
  have hval : (three a b c).val =
      a.toNat % 0x10 * 0x1000 + b.toNat % 0x40 * 0x40 + c.toNat % 0x40 := rfl
  refine ⟨fun hsurrogate => ?_, ?_⟩
  · unfold CodePoint.IsSurrogate at hsurrogate
    omega
  · rw [utf8_three (by omega) (by omega), ← eq_ofNat_of_toNat (b := a) (by omega),
      ← eq_ofNat_of_toNat (b := b) (by omega), ← eq_ofNat_of_toNat (b := c) (by omega)]

theorem four_spec {a b c d : UInt8} (hb : IsSecond a b) (hlow : ¬a.toNat < 0xF0)
    (ha : a.toNat ≤ 0xF4) (hc : IsTail c) (hd : IsTail d) :
    let p : CodePoint := ⟨_, four_lt (c := c) (d := d) ha (Nat.not_lt.mp hlow) hb⟩
    ¬p.IsSurrogate ∧ [a, b, c, d] = p.utf8 := by
  intro p
  have hval : p.val = a.toNat % 0x8 * 0x40000 + b.toNat % 0x40 * 0x1000 + c.toNat % 0x40 * 0x40
    + d.toNat % 0x40 := rfl
  clear_value p
  obtain ⟨⟨hb1, hb2⟩, -, -, hshort, -⟩ := hb
  obtain ⟨hc1, hc2⟩ := hc
  obtain ⟨hd1, hd2⟩ := hd
  have hlarge : 0x10000 ≤ p.val := by omega
  refine ⟨fun hsurrogate => ?_, ?_⟩
  · unfold CodePoint.IsSurrogate at hsurrogate
    omega
  · rw [utf8_four hlarge, ← eq_ofNat_of_toNat (b := a) (by omega),
      ← eq_ofNat_of_toNat (b := b) (by omega), ← eq_ofNat_of_toNat (b := c) (by omega),
      ← eq_ofNat_of_toNat (b := d) (by omega)]

theorem exists_spells_of_decodeFrom {start : Nat} {done t : Text} {bytes : Bytes}
    (h : decodeFrom start done bytes = .ok t) : ∃ s, t = done.reverse ++ s ∧ Spells bytes s := by
  fun_induction decodeFrom start done bytes with
  | case1 start done =>
      cases h
      exact ⟨[], (List.append_nil _).symm, spells_nil⟩
  | case2 start done a rest ha ih =>
      obtain ⟨s, rfl, hs⟩ := ih h
      obtain ⟨hc, hbytes⟩ := one_spec ha (by omega)
      exact ⟨_ :: s, by simp, hs.cons hc hbytes⟩
  | case5 start done a ha hlead b rest hb hshort ih =>
      obtain ⟨s, rfl, hs⟩ := ih h
      obtain ⟨hc, hbytes⟩ := two_spec hlead hb hshort
      exact ⟨_ :: s, by simp, hs.cons hc hbytes⟩
  | case7 start done a ha hlead b hb hlow c rest hc hshort ih =>
      obtain ⟨s, rfl, hs⟩ := ih h
      obtain ⟨hc, hbytes⟩ := three_spec hb hlow hshort hc
      exact ⟨_ :: s, by simp, hs.cons hc hbytes⟩
  | case9 start done a ha hlead b hb hlow c hc hlong d rest hd ih =>
      obtain ⟨s, rfl, hs⟩ := ih h
      obtain ⟨hc, hbytes⟩ := four_spec hb hlong (by omega) hc hd
      exact ⟨_ :: s, by simp, hs.cons hc hbytes⟩
  | _ => cases h

/-- Bytes are read as a text exactly if they are those of a text of scalar values. -/
theorem decode_eq_ok_iff {bytes : Bytes} {t : Text} :
    Text.decode bytes = .ok t ↔ Spells bytes t := by
  constructor
  · intro h
    obtain ⟨s, rfl, hs⟩ := exists_spells_of_decodeFrom h
    exact hs
  · rintro ⟨hscalar, rfl⟩
    exact decodeFrom_flatMap_utf8 hscalar 0 []

theorem surrogateRun?_eq_none_iff (start : Nat) (t : Text) :
    surrogateRun? start t = none ↔ t.IsScalar := by
  induction t generalizing start with
  | nil => simp [surrogateRun?, Text.IsScalar]
  | cons c t ih =>
      rw [surrogateRun?]
      split
      · next hc =>
          simp only [reduceCtorEq, false_iff]
          intro h
          exact h c List.mem_cons_self hc
      · next hc =>
          rw [ih]
          simp [Text.IsScalar, hc]

/-- A text has bytes exactly if it is made of scalar values. -/
theorem encode_eq_ok_iff {t : Text} {bytes : Bytes} :
    Text.encode t = .ok bytes ↔ Spells bytes t := by
  unfold Text.encode Spells
  rw [← surrogateRun?_eq_none_iff 0 t]
  cases surrogateRun? 0 t with
  | some fault => simp
  | none => simp [eq_comm]

end TreeOffsets.Proofs.Utf8Texts
