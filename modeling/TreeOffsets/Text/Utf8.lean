import TreeOffsets.Text.Basic

namespace TreeOffsets

abbrev Bytes := List UInt8

/-- The bytes of a code point. A surrogate gets the three bytes of its number; `Text.encode`
refuses it beforehand. -/
def CodePoint.utf8 (c : CodePoint) : Bytes :=
  if c.val < 0x80 then [UInt8.ofNat c.val]
  else if c.val < 0x800 then
    [UInt8.ofNat (0xC0 + c.val / 0x40), UInt8.ofNat (0x80 + c.val % 0x40)]
  else if c.val < 0x10000 then
    [UInt8.ofNat (0xE0 + c.val / 0x1000), UInt8.ofNat (0x80 + c.val / 0x40 % 0x40),
      UInt8.ofNat (0x80 + c.val % 0x40)]
  else
    [UInt8.ofNat (0xF0 + c.val / 0x40000), UInt8.ofNat (0x80 + c.val / 0x1000 % 0x40),
      UInt8.ofNat (0x80 + c.val / 0x40 % 0x40), UInt8.ofNat (0x80 + c.val % 0x40)]

/-- A run of surrogates, which have no bytes. -/
structure EncodeFault where
  first : CodePoint
  start : Nat
  count : Nat
  deriving DecidableEq

inductive DecodeProblem where
  /-- No code point starts with this byte. -/
  | invalidStart
  /-- A code point has begun, and the next byte does not go on with it. -/
  | invalidContinuation
  /-- A code point has begun, and there are no more bytes. -/
  | unexpectedEnd
  deriving DecidableEq

/-- The first bytes of a file that are no part of a text. -/
structure DecodeFault where
  problem : DecodeProblem
  start : Nat
  first : UInt8
  count : Nat
  deriving DecidableEq

namespace EncodeFault

def message (f : EncodeFault) : Text :=
  if f.count ≤ 1 then
    Text.ofString "'utf-8' codec can't encode character '\\u" ++ Text.hex 4 f.first.val
      ++ Text.ofString "' in position " ++ Text.ofNat f.start
      ++ Text.ofString ": surrogates not allowed"
  else
    Text.ofString "'utf-8' codec can't encode characters in position " ++ Text.ofNat f.start
      ++ Text.ofString "-" ++ Text.ofNat (f.start + f.count - 1)
      ++ Text.ofString ": surrogates not allowed"

end EncodeFault

namespace DecodeFault

def reason : DecodeProblem → String
  | .invalidStart => "invalid start byte"
  | .invalidContinuation => "invalid continuation byte"
  | .unexpectedEnd => "unexpected end of data"

def message (f : DecodeFault) : Text :=
  (if f.count ≤ 1 then
    Text.ofString "'utf-8' codec can't decode byte 0x" ++ Text.hex 2 f.first.toNat
      ++ Text.ofString " in position " ++ Text.ofNat f.start
  else
    Text.ofString "'utf-8' codec can't decode bytes in position " ++ Text.ofNat f.start
      ++ Text.ofString "-" ++ Text.ofNat (f.start + f.count - 1))
  ++ Text.ofString ": " ++ Text.ofString (reason f.problem)

end DecodeFault

namespace Text

/-- The first run of surrogates in a text that begins at place `start`. -/
def surrogateRun? (start : Nat) : Text → Option EncodeFault
  | [] => none
  | c :: t =>
    if c.IsSurrogate then
      some ⟨c, start, (t.takeWhile fun d => decide d.IsSurrogate).length + 1⟩
    else surrogateRun? (start + 1) t

def encode (t : Text) : Except EncodeFault Bytes :=
  match surrogateRun? 0 t with
  | some fault => .error fault
  | none => .ok (t.flatMap CodePoint.utf8)

def IsTail (b : UInt8) : Prop := 0x80 ≤ b.toNat ∧ b.toNat < 0xC0

instance (b : UInt8) : Decidable (IsTail b) := by unfold IsTail; infer_instance

/-- The second byte `b` of a code point whose first byte is `a`: a tail that makes the code point
neither shorter to write, nor a surrogate, nor too large. -/
def IsSecond (a b : UInt8) : Prop :=
  IsTail b ∧ (a.toNat = 0xE0 → 0xA0 ≤ b.toNat) ∧ (a.toNat = 0xED → b.toNat < 0xA0)
    ∧ (a.toNat = 0xF0 → 0x90 ≤ b.toNat) ∧ (a.toNat = 0xF4 → b.toNat < 0x90)

instance (a b : UInt8) : Decidable (IsSecond a b) := by unfold IsSecond; infer_instance

def two (a b : UInt8) : CodePoint :=
  ⟨a.toNat % 0x20 * 0x40 + b.toNat % 0x40, by omega⟩

def three (a b c : UInt8) : CodePoint :=
  ⟨a.toNat % 0x10 * 0x1000 + b.toNat % 0x40 * 0x40 + c.toNat % 0x40, by omega⟩

theorem four_lt {a b c d : UInt8} (ha : a.toNat ≤ 0xF4) (hlow : 0xF0 ≤ a.toNat)
    (hb : IsSecond a b) :
    a.toNat % 0x8 * 0x40000 + b.toNat % 0x40 * 0x1000 + c.toNat % 0x40 * 0x40 + d.toNat % 0x40
      < 0x110000 := by
  obtain ⟨⟨h1, h2⟩, -, -, -, h3⟩ := hb
  by_cases h : a.toNat = 0xF4
  · have := h3 h
    omega
  · omega

/-- Reads the bytes from place `start` on; `done` is the text read so far, last code point first. -/
def decodeFrom (start : Nat) (done : Text) : Bytes → Except DecodeFault Text
  | [] => .ok done.reverse
  | a :: afterA =>
    if h : a.toNat < 0x80 then decodeFrom (start + 1) (⟨a.toNat, by omega⟩ :: done) afterA
    else if hlead : a.toNat < 0xC2 ∨ 0xF4 < a.toNat then .error ⟨.invalidStart, start, a, 1⟩
    else match afterA with
    | [] => .error ⟨.unexpectedEnd, start, a, 1⟩
    | b :: afterB =>
      if hb : IsSecond a b then
        if a.toNat < 0xE0 then decodeFrom (start + 2) (two a b :: done) afterB
        else match afterB with
        | [] => .error ⟨.unexpectedEnd, start, a, 2⟩
        | c :: afterC =>
          if IsTail c then
            if hfour : a.toNat < 0xF0 then decodeFrom (start + 3) (three a b c :: done) afterC
            else match afterC with
            | [] => .error ⟨.unexpectedEnd, start, a, 3⟩
            | d :: afterD =>
              if IsTail d then
                decodeFrom (start + 4)
                  (⟨_, four_lt (c := c) (d := d) (by omega) (by omega) hb⟩ :: done) afterD
              else .error ⟨.invalidContinuation, start, a, 3⟩
          else .error ⟨.invalidContinuation, start, a, 2⟩
      else .error ⟨.invalidContinuation, start, a, 1⟩

def decode (bytes : Bytes) : Except DecodeFault Text := decodeFrom 0 [] bytes

end Text

end TreeOffsets
