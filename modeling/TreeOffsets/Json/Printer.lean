import TreeOffsets.Text.Utf16
import TreeOffsets.Json.Basic
import TreeOffsets.Double.Layout

/-!
A value has two layouts. The compact one is a single line. The indented one gives every item and
every field a line of its own, and is made of chunks: a file is written chunk by chunk, so a chunk
that cannot be encoded leaves those before it in the file. Strings are written in one of two ways,
with only the necessary escapes or in printable ASCII.
-/

namespace TreeOffsets

namespace Json

def doubleNames : Double.Names := ⟨"NaN", "Infinity", "-Infinity"⟩

/-- The escape of a code point by its number, in UTF-16 units. -/
def numberEscape (c : CodePoint) : Text :=
  c.units.flatMap fun u => Text.ofString "\\u" ++ Text.hex 4 u.val

def namedEscape? (c : CodePoint) : Option String :=
  if c = CodePoint.ofChar '"' then some "\\\""
  else if c = CodePoint.ofChar '\\' then some "\\\\"
  else if c = CodePoint.ofChar '\n' then some "\\n"
  else if c = CodePoint.ofChar '\r' then some "\\r"
  else if c = CodePoint.ofChar '\t' then some "\\t"
  else if c.val = 0x0C then some "\\f"
  else if c.val = 0x08 then some "\\b"
  else none

/-- A code point in a string with only the necessary escapes: quote, backslash and whatever is
below U+0020. -/
def rawPoint (c : CodePoint) : Text :=
  match namedEscape? c with
  | some escape => Text.ofString escape
  | none => if c.val < 0x20 then numberEscape c else [c]

/-- A code point in an ASCII string: only U+0020 to U+007E stand for themselves. -/
def asciiPoint (c : CodePoint) : Text :=
  match namedEscape? c with
  | some escape => Text.ofString escape
  | none => if 0x20 ≤ c.val ∧ c.val < 0x7F then [c] else numberEscape c

def quote (point : CodePoint → Text) (t : Text) : Text :=
  CodePoint.ofChar '"' :: t.flatMap point ++ [CodePoint.ofChar '"']

/-- The text of a value that is no container; containers are laid out by `compact` and
`chunks`. -/
def scalarText (point : CodePoint → Text) : Json → Text
  | null => Text.ofString "null"
  | bool true => Text.ofString "true"
  | bool false => Text.ofString "false"
  | int n => Text.ofInt n
  | float x => x.toText doubleNames
  | str t => quote point t
  | arr _ => []
  | obj _ => []

def compact (point : CodePoint → Text) : Json → Text
  | arr items =>
    Text.ofString "[" ++ (Text.ofString ", ").intercalate (items.map fun v => compact point v)
      ++ Text.ofString "]"
  | obj fields =>
    Text.ofString "\x7b"
      ++ (Text.ofString ", ").intercalate
        (fields.map fun field => quote point field.1 ++ Text.ofString ": " ++ compact point field.2)
      ++ Text.ofString "\x7d"
  | v => scalarText point v
termination_by v => v
decreasing_by
  · have := List.sizeOf_lt_of_mem ‹v ∈ items›
    simp
    omega
  · have := Fields.sizeOf_snd_lt ‹field ∈ fields›
    simp
    omega

def indentWidth : Nat := 2

def newLine (depth : Nat) : Text :=
  CodePoint.newline :: List.replicate (indentWidth * depth) (CodePoint.ofChar ' ')

/-- A piece of a document that is written at once. An integer is kept apart from the text before
it, because only the writer knows whether it has too many digits. -/
inductive Chunk where
  | plain (t : Text)
  | integer (before : Text) (n : Int)

def Chunk.spelled : Chunk → Text
  | plain t => t
  | integer before n => before ++ Text.ofInt n

/-- The chunk of a value that is no container, and of what stands before it. -/
def scalarChunk (before : Text) : Json → Chunk
  | int n => .integer before n
  | v => .plain (before ++ scalarText rawPoint v)

/-- The chunks of an item: what stands before it is a part of its own chunk if it is no
container. -/
def itemChunks (before : Text) (v : Json) (inner : List Chunk) : List Chunk :=
  if v.isContainer then .plain before :: inner else [scalarChunk before v]

def fieldChunks (name : Text) (inner : List Chunk) : List Chunk :=
  .plain (quote rawPoint name) :: .plain (Text.ofString ": ") :: inner

/-- The chunks of a value whose lines are at a depth. -/
def chunks (depth : Nat) : Json → List Chunk
  | arr [] => [.plain (Text.ofString "[]")]
  | arr (first :: rest) =>
    itemChunks (Text.ofString "[" ++ newLine (depth + 1)) first (chunks (depth + 1) first)
      ++ (rest.flatMap fun v =>
        itemChunks (Text.ofString "," ++ newLine (depth + 1)) v (chunks (depth + 1) v))
      ++ [.plain (newLine depth), .plain (Text.ofString "]")]
  | obj [] => [.plain (Text.ofString "\x7b\x7d")]
  | obj (first :: rest) =>
    .plain (Text.ofString "\x7b") :: .plain (newLine (depth + 1))
      :: fieldChunks first.1 (chunks (depth + 1) first.2)
      ++ (rest.flatMap fun field =>
        .plain (Text.ofString "," ++ newLine (depth + 1))
          :: fieldChunks field.1 (chunks (depth + 1) field.2))
      ++ [.plain (newLine depth), .plain (Text.ofString "\x7d")]
  | v => [scalarChunk [] v]
termination_by v => v
decreasing_by
  · simp
    omega
  · have := List.sizeOf_lt_of_mem ‹v ∈ rest›
    simp
    omega
  · have : sizeOf first = 1 + sizeOf first.1 + sizeOf first.2 := rfl
    simp
    omega
  · have := Fields.sizeOf_snd_lt ‹field ∈ rest›
    simp
    omega

theorem chunks_of_scalar {v : Json} (hv : v.isContainer = false) (depth : Nat) :
    chunks depth v = [scalarChunk [] v] := by
  cases v <;> simp_all [chunks, isContainer]

theorem spelled_scalarChunk (before : Text) (v : Json) :
    (scalarChunk before v).spelled = before ++ scalarText rawPoint v := by
  cases v <;> rfl

def indented (v : Json) : Text := (chunks 0 v).flatMap Chunk.spelled

end Json

end TreeOffsets
