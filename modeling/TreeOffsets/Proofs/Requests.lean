import TreeOffsets.Parse.Parser
import TreeOffsets.Proofs.PrintableTexts
import TreeOffsets.Proofs.ReadBack

namespace TreeOffsets.Proofs.Requests

open TreeOffsets.Json
open TreeOffsets.Proofs.PrintableTexts
open TreeOffsets.Proofs.ReadBack
open TreeOffsets.Proofs.ScalarTokens
open TreeOffsets.Proofs.StringTokens
open TreeOffsets.Proofs.TreeInduction

def inlineGaps : Gaps := ⟨[], [CodePoint.ofChar ' '], []⟩

theorem areBlank_inlineGaps : inlineGaps.AreBlank :=
  ⟨fun _ h => absurd h List.not_mem_nil, List.forall_mem_singleton.mpr rfl,
    fun _ h => absurd h List.not_mem_nil⟩

theorem intercalate_append (closing : CodePoint) (part : Text) (parts : List Text) :
    (Text.ofString ", ").intercalate (part :: parts) ++ [closing] =
      part ++ inlineGaps.after closing parts := by
  induction parts generalizing part with
  | nil => rw [List.intercalate_singleton, Gaps.after, inlineGaps, List.nil_append]
  | cons next parts ih =>
      have hcomma : Text.ofString ", " = [CodePoint.ofChar ',', CodePoint.ofChar ' '] := rfl
      rw [List.intercalate_cons_cons, List.append_assoc, ih, Gaps.after, hcomma, List.append_assoc]
      rfl

theorem enclose_eq (opening closing : CodePoint) (parts : List Text) :
    [opening] ++ (Text.ofString ", ").intercalate parts ++ [closing] =
      inlineGaps.enclose opening closing parts := by
  cases parts with
  | nil => rfl
  | cons part parts =>
      rw [List.append_assoc, intercalate_append]
      rfl

theorem compact_scalar {v : Json} (hv : v.isContainer = false) (point : CodePoint → Text) :
    compact point v = scalarText point v := by
  cases v <;> simp_all [compact, isContainer]

theorem compact_arr (point : CodePoint → Text) (items : List Json) :
    compact point (.arr items) =
      inlineGaps.enclose (CodePoint.ofChar '[') (CodePoint.ofChar ']')
        (items.map (compact point)) := by
  rw [compact]
  exact enclose_eq _ _ _

theorem compact_obj (point : CodePoint → Text) (fields : Fields) :
    compact point (.obj fields) =
      inlineGaps.enclose (CodePoint.ofChar '\x7b') (CodePoint.ofChar '\x7d')
        (fields.map (fieldText point (compact point))) := by
  rw [compact]
  exact enclose_eq _ _ _

/-- Everything is on one line, with a blank after each comma. -/
def compactLayout (point : CodePoint → Text) : Layout where
  point := point
  gaps := fun _ => inlineGaps
  text := fun _ => compact point
  blank := fun _ => areBlank_inlineGaps
  scalar := fun _ _ hv => compact_scalar hv point
  arr := fun _ items => compact_arr point items
  obj := fun _ fields => compact_obj point fields

theorem isPrintable_after {closing : CodePoint} (hclosing : IsPrintable [closing])
    {parts : List Text} (h : ∀ part ∈ parts, IsPrintable part) :
    IsPrintable (inlineGaps.after closing parts) := by
  induction parts with
  | nil => exact hclosing
  | cons part parts ih =>
      obtain ⟨hpart, hparts⟩ := List.forall_mem_cons.mp h
      have hblank : IsPrintable [CodePoint.ofChar ' '] := by decide
      exact isPrintable_cons (by decide)
        (isPrintable_append hblank (isPrintable_append hpart (ih hparts)))

theorem isPrintable_enclose {opening closing : CodePoint} (hopening : IsPrintable [opening])
    (hclosing : IsPrintable [closing]) {parts : List Text}
    (h : ∀ part ∈ parts, IsPrintable part) :
    IsPrintable (inlineGaps.enclose opening closing parts) := by
  cases parts with
  | nil => exact isPrintable_append hopening hclosing
  | cons part parts =>
      obtain ⟨hpart, hparts⟩ := List.forall_mem_cons.mp h
      have hafter := isPrintable_append hpart (isPrintable_after hclosing hparts)
      exact isPrintable_append hopening hafter

/-- Any value is written in printable ASCII, surrogates included. -/
theorem isPrintable_compact (v : Json) : IsPrintable (compact asciiPoint v) := by
  induction v using value_of_members with
  | scalar v hv =>
      rw [compact_scalar hv]
      exact isPrintable_scalarText v
  | arr items hitems =>
      rw [compact_arr]
      exact isPrintable_enclose (by decide) (by decide) (List.forall_mem_map.mpr hitems)
  | obj fields hfields =>
      have hcolon : IsPrintable (Text.ofString ": ") := by decide
      rw [compact_obj]
      refine isPrintable_enclose (by decide) (by decide)
        (List.forall_mem_map.mpr fun field hfield => ?_)
      exact isPrintable_append (isPrintable_append (isPrintable_quote field.1) hcolon)
        (hfields field hfield)

theorem weakens_readable_asciiPoint :
    Weakens { str := Text.IsScalar, names := fun names => ∀ name ∈ names, Text.IsScalar name }
      (readable asciiPoint) where
  str := fun _ h c hc => readsBack_asciiPoint (h c hc)
  int := fun _ _ => trivial
  names := fun _ h name hname c hc => readsBack_asciiPoint (h name hname c hc)

theorem read_compact {v : Json} (hscalar : v.IsScalar) (hshort : v.HasShortIntegers)
    (hnames : v.HasDistinctNames) : Json.read (compact asciiPoint v) = .ok v :=
  (compactLayout asciiPoint).read_text hshort (weakens_readable_asciiPoint.meets hscalar) hnames

theorem meets_request {rule : Rule} {source moduleDir : Text} {options : Json}
    (hnames : rule.names [Text.ofString "source", Text.ofString "options",
      Text.ofString "moduleDir"])
    (hsource : rule.str source) (hoptions : options.Meets rule) (hmoduleDir : rule.str moduleDir) :
    (ExternalParser.request source options moduleDir).Meets rule :=
  ⟨hnames, hsource, hoptions, hmoduleDir, trivial⟩

/-- Options that are given as strings and a truth value are as a rule asks if the strings and the
three names are. -/
theorem meets_toJson_of_strings {rule : Rule} {sourceType : Text} {tokens : Bool}
    {plugins : List Text}
    (hnames : rule.names [Text.ofString "sourceType", Text.ofString "tokens",
      Text.ofString "plugins"])
    (hsourceType : rule.str sourceType) (hplugins : ∀ plugin ∈ plugins, rule.str plugin) :
    Meets rule
      (ParserOptions.toJson ⟨.str sourceType, .bool tokens, plugins.map Json.str⟩) := by
  have hitems : itemsMeet rule (plugins.map Json.str) :=
    (itemsMeet_iff rule _).mpr (List.forall_mem_map.mpr hplugins)
  exact ⟨hnames, hsourceType, trivial, hitems, trivial⟩

/-- The one request for a source is printable ASCII, and an object of the source, the options and
the directory is read from it, code point for code point. What is asked of integers and of names
is only about options that are more than strings and truth values. -/
theorem parseText_request {parser : Parser} {text : Text} (response : Response)
    (htext : text.IsScalar) (hmoduleDir : parser.moduleDir.IsScalar)
    (hscalar : parser.options.toJson.IsScalar) (hshort : parser.options.toJson.HasShortIntegers)
    (hnames : parser.options.toJson.HasDistinctNames) :
    ∃ call, (parser.parseText response text).calls = [call]
      ∧ IsPrintable call.input
      ∧ Json.read call.input =
        .ok (.obj [(Text.ofString "source", .str text),
          (Text.ofString "options", .obj [
            (Text.ofString "sourceType", parser.options.sourceType),
            (Text.ofString "tokens", parser.options.tokens),
            (Text.ofString "plugins", .arr parser.options.plugins)]),
          (Text.ofString "moduleDir", .str parser.moduleDir)]) := by
  rw [Parser.parseText_of_hasShortIntegers response text hshort]
  refine ⟨_, rfl, isPrintable_compact _, ?_⟩
  exact read_compact (meets_request (by decide) htext hscalar hmoduleDir)
    (meets_request trivial trivial hshort trivial)
    (meets_request (by decide) trivial hnames trivial)

def quotedParser : Parser where
  path := Text.ofString "in.js"
  options := ⟨.str (Text.ofString "script"), .bool true,
    [Text.ofString "jsx", Text.ofString "é\n😀"].map Json.str⟩
  moduleDir := Text.ofString "/opt/\"b\\"

/-- Controls, both ends of the surrogates' gap, and two code points side by side that take two units
each. -/
def quotedText : Text := Text.ofString "\u0000\u007f\ud7ff😀😀\ue000"

theorem parseText_request_quotedText :
    quotedText.IsScalar
      ∧ quotedParser.moduleDir.IsScalar ∧ quotedParser.options.toJson.IsScalar
      ∧ quotedParser.options.toJson.HasShortIntegers
      ∧ quotedParser.options.toJson.HasDistinctNames
      ∧ ∃ call, (quotedParser.parseText .notFound quotedText).calls = [call]
        ∧ IsPrintable call.input
        ∧ Json.read call.input =
          .ok (.obj [(Text.ofString "source", .str quotedText),
            (Text.ofString "options", quotedParser.options.toJson),
            (Text.ofString "moduleDir", .str (Text.ofString "/opt/\"b\\"))]) := by
  have htext : quotedText.IsScalar := by decide
  have hmoduleDir : quotedParser.moduleDir.IsScalar := by decide
  have hscalar : quotedParser.options.toJson.IsScalar :=
    meets_toJson_of_strings (by decide) (by decide) (by decide)
  have hshort : quotedParser.options.toJson.HasShortIntegers :=
    meets_toJson_of_strings trivial trivial fun _ _ => trivial
  have hnames : quotedParser.options.toJson.HasDistinctNames :=
    meets_toJson_of_strings (by decide) trivial fun _ _ => trivial
  exact ⟨htext, hmoduleDir, hscalar, hshort, hnames,
    parseText_request .notFound htext hmoduleDir hscalar hshort hnames⟩

end TreeOffsets.Proofs.Requests
