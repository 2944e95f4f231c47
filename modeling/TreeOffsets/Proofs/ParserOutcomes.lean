import TreeOffsets.Cli.Run
import TreeOffsets.Proofs.ParserPlaces
import TreeOffsets.Proofs.WrittenFiles

namespace TreeOffsets.Proofs.ParserOutcomes

open TreeOffsets.Proofs.DecimalDigits
open TreeOffsets.Proofs.IndentedDocuments
open TreeOffsets.Proofs.LocatedTree
open TreeOffsets.Proofs.ParserPlaces
open TreeOffsets.Proofs.Utf8Texts
open TreeOffsets.Proofs.WrittenFiles

/-- A path leads to a file with the bytes of a text. -/
def Holds (disk : Disk) (path t : Text) : Prop :=
  ∃ bytes, disk.read path = .ok bytes ∧ Spells bytes t

theorem readText_eq_ok_iff {disk : Disk} {path t : Text} :
    Results.readText disk path = .ok t ↔ Holds disk path t := by
  unfold Results.readText Holds
  cases disk.read path with
  | error fault => simp
  | ok bytes => simp [mapError_eq_ok_iff, decode_eq_ok_iff]

theorem Holds.unique {disk : Disk} {path s t : Text} (hs : Holds disk path s)
    (ht : Holds disk path t) : s = t := by
  cases (readText_eq_ok_iff.mpr hs).symm.trans (readText_eq_ok_iff.mpr ht)
  rfl

/-- The script host starts and succeeds, and what it prints is a value. -/
def Reports (response : Response) (report : Json) : Prop :=
  ∃ completion, response = .completed completion ∧ completion.returnCode = 0
    ∧ Json.read completion.stdout = .ok report

theorem Reports.unique {response : Response} {report other : Json} (h : Reports response report)
    (hother : Reports response other) : report = other := by
  obtain ⟨completion, rfl, -, hread⟩ := h
  obtain ⟨_, hcompletion, -, hagain⟩ := hother
  cases hcompletion
  cases hread.symm.trans hagain
  rfl

theorem report_eq_ok_iff {call : Call} (hcheck : call.check = true) {response : Response}
    {report : Json} : ExternalParser.report call response = .ok report ↔
      Reports response report := by
  unfold ExternalParser.report Reports
  cases response with
  | notFound => simp [Call.result]
  | completed completion =>
      by_cases hcode : completion.returnCode = 0
      · simp [Call.result, hcode, mapError_eq_ok_iff]
      · simp [Call.result, hcheck, hcode]

theorem has_eq_isSome (fields : Fields) (name : Text) :
    Fields.has fields name = (Fields.value? fields name).isSome := by
  induction fields with
  | nil => rfl
  | cons field fields ih =>
      obtain ⟨other, v⟩ := field
      rw [Fields.value?, List.lookup_cons, Fields.has, List.any_cons, BEq.comm]
      cases name == other with
      | true => rfl
      | false => exact ih

/-- A report is an object with an error, which is an object that stands for a complaint. -/
def Complains (report : Json) (complaint : Complaint) : Prop :=
  ∃ fields error, report = .obj fields
    ∧ Fields.value? fields (Text.ofString "error") = some (.obj error)
    ∧ Complaint.ofReport (.obj error) = .ok complaint

/-- A report is an object without an error and with a result, which is not null. -/
def Presents (report result : Json) : Prop :=
  ∃ fields, report = .obj fields ∧ Fields.value? fields (Text.ofString "error") = none
    ∧ Fields.value? fields (Text.ofString "result") = some result ∧ result ≠ .null

theorem located_eq_null_iff (table : LineTable) (result : Json) :
    result.located table = .null ↔ result = .null := by
  cases result <;> simp [Json.located]

theorem make_tree {tree : Json} (h : tree ≠ .null) :
    Outcome.make (.value tree) (.value .null) = .ok (.success (.value tree)) := by
  cases tree <;> first | rfl | exact absurd rfl h

section

variable {t : Text}

theorem member_obj {fields : Fields} {name : Text} {v : Json}
    (h : Fields.value? fields name = some v) : (Json.obj fields).member name = .ok v := by
  simp only [Json.member, h]

theorem outcomeOf_of_error {fields : Fields} {error : Json}
    (h : Fields.value? fields (Text.ofString "error") = some error) :
    Parser.outcomeOf t (.obj fields) =
      match Complaint.ofReport error with
      | .error fault => .error (.shape fault)
      | .ok complaint => .ok (.failure (.complaint complaint)) := by
  have hmentions : (Json.obj fields).mentions (Text.ofString "error") = .ok true := by
    rw [Json.mentions, has_eq_isSome, h, Option.isSome_some]
  simp only [Parser.outcomeOf, hmentions, member_obj h]
  rfl

theorem outcomeOf_of_no_error {fields : Fields}
    (h : Fields.value? fields (Text.ofString "error") = none) :
    Parser.outcomeOf t (.obj fields) =
      match (Json.obj fields).member (Text.ofString "result") with
      | .error fault => .error (.shape fault)
      | .ok result =>
        (Outcome.make (.value (result.located (LineTable.ofText .utf16 t)))
          (.value .null)).mapError .outcome := by
  have hmentions : (Json.obj fields).mentions (Text.ofString "error") = .ok false := by
    rw [Json.mentions, has_eq_isSome, h, Option.isSome_none]
  cases hresult : (Json.obj fields).member (Text.ofString "result") with
  | error fault => simp only [Parser.outcomeOf, hmentions, hresult]
  | ok result => simp only [Parser.outcomeOf, hmentions, hresult, annotateTree_eq]

theorem outcomeOf_of_no_object {report : Json} (h : ∀ fields, report ≠ .obj fields) :
    ∃ fault, Parser.outcomeOf t report = .error fault := by
  unfold Parser.outcomeOf
  cases report with
  | obj fields => exact absurd rfl (h fields)
  | arr items =>
      simp only [Json.mentions]
      split <;> simp_all [Json.member, Except.bind]
  | str s =>
      simp only [Json.mentions]
      split <;> simp_all [Json.member, Except.bind]
  | _ => exact ⟨_, rfl⟩

theorem outcomeOf_of_complains {report : Json} {complaint : Complaint}
    (h : Complains report complaint) :
    Parser.outcomeOf t report = .ok (.failure (.complaint complaint)) := by
  obtain ⟨fields, error, rfl, hvalue, hcomplaint⟩ := h
  rw [outcomeOf_of_error hvalue, hcomplaint]

theorem outcomeOf_of_presents {report result : Json} (h : Presents report result) :
    Parser.outcomeOf t report =
      .ok (.success (.value (result.located (LineTable.ofText .utf16 t)))) := by
  obtain ⟨fields, rfl, hvalue, hresult, hnull⟩ := h
  have htree := make_tree (mt (located_eq_null_iff (LineTable.ofText .utf16 t) result).mp hnull)
  rw [outcomeOf_of_no_error hvalue, member_obj hresult]
  exact mapError_eq_ok_iff.mpr htree

theorem exists_of_outcomeOf {report : Json} {outcome : Outcome}
    (h : Parser.outcomeOf t report = .ok outcome) :
    (∃ complaint, Complains report complaint ∧ outcome = .failure (.complaint complaint))
      ∨ ∃ result, Presents report result
        ∧ outcome = .success (.value (result.located (LineTable.ofText .utf16 t))) := by
  by_cases hobject : ∃ fields, report = .obj fields
  · obtain ⟨fields, rfl⟩ := hobject
    cases herror : Fields.value? fields (Text.ofString "error") with
    | some error =>
        rw [outcomeOf_of_error herror] at h
        cases error with
        | obj error =>
            cases h
            exact .inl ⟨_, ⟨fields, error, rfl, herror, rfl⟩, rfl⟩
        | _ => cases h
    | none =>
        cases hresult : Fields.value? fields (Text.ofString "result") with
        | none =>
            simp only [outcomeOf_of_no_error herror, Json.member, hresult, reduceCtorEq] at h
        | some result =>
            by_cases hnull : result = .null
            · subst hnull
              simp only [outcomeOf_of_no_error herror, member_obj hresult,
                (located_eq_null_iff _ .null).mpr rfl] at h
              cases h
            · have hpresents : Presents (.obj fields) result :=
                ⟨fields, rfl, herror, hresult, hnull⟩
              cases h.symm.trans (outcomeOf_of_presents hpresents)
              exact .inr ⟨result, hpresents, rfl⟩
  · obtain ⟨fault, hfault⟩ := outcomeOf_of_no_object fun fields hfields =>
      hobject ⟨fields, hfields⟩
    cases h.symm.trans hfault

end

theorem parse_of_holds {parser : Parser} {disk : Disk} {t : Text}
    (h : Holds disk parser.path t) (response : Response) :
    (parser.parse disk response).1 = parser.parseText response t := by
  have hread := readText_eq_ok_iff.mpr h
  simp only [Parser.parse, Parser.readSource, hread]
  rfl

theorem parse_of_not_holds {parser : Parser} {disk : Disk}
    (h : ∀ t, ¬Holds disk parser.path t) (response : Response) :
    ∃ fault, (parser.parse disk response).1 = ⟨[], .error fault⟩ := by
  cases hread : Results.readText disk parser.path with
  | ok t => exact absurd (readText_eq_ok_iff.mp hread) (h t)
  | error fault =>
      refine ⟨fault, ?_⟩
      simp only [Parser.parse, Parser.readSource, hread]
      rfl

theorem parseText_eq_ok_iff {parser : Parser} {response : Response} {t : Text}
    {outcome : Outcome} : (parser.parseText response t).result = .ok outcome ↔
      parser.options.toJson.HasShortIntegers
        ∧ ∃ report, Reports response report ∧ Parser.outcomeOf t report = .ok outcome := by
  have hreport : ∀ report, ExternalParser.report
      (ExternalParser.parseCall t parser.options.toJson parser.moduleDir) response = .ok report ↔
        Reports response report := fun report => report_eq_ok_iff rfl
  by_cases hshort : parser.options.toJson.HasShortIntegers
  · rw [Parser.parseText_of_hasShortIntegers response t hshort, and_iff_right hshort]
    dsimp only
    split
    · next fault hfault =>
        simp only [reduceCtorEq, false_iff, not_exists, ← hreport, hfault]
        simp
    · next report hok =>
        simp only [← hreport, hok, Except.ok.injEq, exists_eq_left']
  · rw [Parser.parseText_of_not_hasShortIntegers response t hshort]
    exact iff_of_false (fun h => by cases h) fun h => hshort h.1

theorem parse_eq_ok_iff {parser : Parser} {disk : Disk} {response : Response}
    {outcome : Outcome} : (parser.parse disk response).1.result = .ok outcome ↔
      parser.options.toJson.HasShortIntegers
        ∧ ∃ t report, Holds disk parser.path t ∧ Reports response report
          ∧ Parser.outcomeOf t report = .ok outcome := by
  by_cases hholds : ∃ t, Holds disk parser.path t
  · obtain ⟨t, ht⟩ := hholds
    rw [parse_of_holds ht, parseText_eq_ok_iff]
    refine and_congr_right fun _ => ?_
    constructor
    · rintro ⟨report, hreport, houtcome⟩
      exact ⟨t, report, ht, hreport, houtcome⟩
    · rintro ⟨s, report, hs, hreport, houtcome⟩
      obtain rfl := hs.unique ht
      exact ⟨report, hreport, houtcome⟩
  · obtain ⟨fault, hfault⟩ := parse_of_not_holds (not_exists.mp hholds) response
    rw [hfault]
    refine iff_of_false (by simp) ?_
    rintro ⟨-, t, report, ht, -⟩
    exact hholds ⟨t, ht⟩

def ReportsError (response : Response) : Prop :=
  ∃ fields error, Reports response (.obj fields)
    ∧ Fields.value? fields (Text.ofString "error") = some (.obj error)

def ReportsResult (response : Response) : Prop :=
  ∃ fields result, Reports response (.obj fields)
    ∧ Fields.value? fields (Text.ofString "error") = none
    ∧ Fields.value? fields (Text.ofString "result") = some result ∧ result ≠ .null

theorem exists_failure_iff {parser : Parser} {disk : Disk} {response : Response} :
    (∃ error, (parser.parse disk response).1.result = .ok (.failure error)) ↔
      parser.options.toJson.HasShortIntegers
        ∧ (∃ t, Holds disk parser.path t) ∧ ReportsError response := by
  simp only [parse_eq_ok_iff]
  constructor
  · rintro ⟨error, hshort, t, report, ht, hreport, houtcome⟩
    rcases exists_of_outcomeOf houtcome with
      ⟨complaint, ⟨fields, reported, rfl, hvalue, -⟩, -⟩ | ⟨result, -, houtcome⟩
    · exact ⟨hshort, ⟨t, ht⟩, fields, reported, hreport, hvalue⟩
    · cases houtcome
  · rintro ⟨hshort, ⟨t, ht⟩, fields, error, hreport, hvalue⟩
    exact ⟨_, hshort, t, _, ht, hreport, outcomeOf_of_complains ⟨fields, error, rfl, hvalue, rfl⟩⟩

theorem exists_success_iff {parser : Parser} {disk : Disk} {response : Response} :
    (∃ tree, (parser.parse disk response).1.result = .ok (.success tree)) ↔
      parser.options.toJson.HasShortIntegers
        ∧ (∃ t, Holds disk parser.path t) ∧ ReportsResult response := by
  simp only [parse_eq_ok_iff]
  constructor
  · rintro ⟨tree, hshort, t, report, ht, hreport, houtcome⟩
    rcases exists_of_outcomeOf houtcome with
      ⟨complaint, -, houtcome⟩ | ⟨result, ⟨fields, rfl, herror, hresult, hnull⟩, -⟩
    · cases houtcome
    · exact ⟨hshort, ⟨t, ht⟩, fields, result, hreport, herror, hresult, hnull⟩
  · rintro ⟨hshort, ⟨t, ht⟩, fields, result, hreport, herror, hresult, hnull⟩
    exact ⟨_, hshort, t, _, ht, hreport,
      outcomeOf_of_presents ⟨fields, rfl, herror, hresult, hnull⟩⟩

theorem exists_fault_of_neither {parser : Parser} {disk : Disk} {response : Response}
    (h : ¬(parser.options.toJson.HasShortIntegers ∧ (∃ t, Holds disk parser.path t)
      ∧ (ReportsError response ∨ ReportsResult response))) :
    ∃ fault, (parser.parse disk response).1.result = .error fault := by
  cases hresult : (parser.parse disk response).1.result with
  | error fault => exact ⟨fault, rfl⟩
  | ok outcome =>
      cases outcome with
      | failure error =>
          have hfailure := exists_failure_iff.mp ⟨error, hresult⟩
          exact absurd ⟨hfailure.1, hfailure.2.1, .inl hfailure.2.2⟩ h
      | success tree =>
          have hsuccess := exists_success_iff.mp ⟨tree, hresult⟩
          exact absurd ⟨hsuccess.1, hsuccess.2.1, .inr hsuccess.2.2⟩ h

theorem calls_parse_of_not_hasShortIntegers {parser : Parser}
    (h : ¬parser.options.toJson.HasShortIntegers) (disk : Disk) (response : Response) :
    (parser.parse disk response).1.calls = [] := by
  by_cases hholds : ∃ t, Holds disk parser.path t
  · obtain ⟨t, ht⟩ := hholds
    rw [parse_of_holds ht, Parser.parseText_of_not_hasShortIntegers response t h]
  · obtain ⟨fault, hfault⟩ := parse_of_not_holds (not_exists.mp hholds) response
    rw [hfault]

theorem run_of_fault {disk : Disk} {response : Response} {arguments : List Text} {path : Text}
    {fault : Fault} (harguments : Arguments.read arguments = .ok (.path path))
    (hfault : (Parser.parse { path } disk response).1.result = .error fault) :
    Command.run disk response arguments =
      { ending := .fault fault, calls := (Parser.parse { path } disk response).1.calls, disk } := by
  simp only [Command.run, harguments, Command.runPath, hfault]

/-- A parse calls the external parser once if its source is readable, and never else. It fails
exactly if the source is readable and the host reports an error that is an object, succeeds exactly
if the source is readable and the host reports a result that is not null and no error, and has a
fault in every other case: giving nodes their offsets has none. Options with an integer that is too
long to be written are such a case, without a call. A command whose parse has a fault ends with it
and leaves the disk as it is. -/
theorem parse_outcomes (parser : Parser) (disk : Disk) (response : Response) :
    let parsed := (parser.parse disk response).1
    let options := parser.options.toJson
    (options.HasShortIntegers →
        (∀ t, Holds disk parser.path t →
            parsed.calls = [ExternalParser.parseCall t options parser.moduleDir])
          ∧ ((∃ error, parsed.result = .ok (.failure error)) ↔
            (∃ t, Holds disk parser.path t) ∧ ReportsError response)
          ∧ ((∃ tree, parsed.result = .ok (.success tree)) ↔
            (∃ t, Holds disk parser.path t) ∧ ReportsResult response))
      ∧ (¬options.HasShortIntegers → parsed.calls = [])
      ∧ ((¬∃ t, Holds disk parser.path t) → parsed.calls = [])
      ∧ (¬(options.HasShortIntegers ∧ (∃ t, Holds disk parser.path t)
          ∧ (ReportsError response ∨ ReportsResult response)) →
        ∃ fault, parsed.result = .error fault)
      ∧ (∀ t tree, (Annotator.annotate { table := LineTable.ofText .utf16 t } tree .null).1.fault?
        = none)
      ∧ ∀ arguments path fault, Arguments.read arguments = .ok (.path path) →
        (Parser.parse { path } disk response).1.result = .error fault →
        (Command.run disk response arguments).disk = disk
          ∧ (Command.run disk response arguments).ending = .fault fault := by
  refine ⟨fun hshort => ⟨fun t ht => ?_, ?_, ?_⟩,
    fun hlong => calls_parse_of_not_hasShortIntegers hlong disk response, fun hnone => ?_,
    exists_fault_of_neither, fun t tree => ?_, fun arguments path fault hpath hfault => ?_⟩
  · rw [parse_of_holds ht, Parser.parseText_of_hasShortIntegers response t hshort]
  · rw [exists_failure_iff, and_iff_right hshort]
  · rw [exists_success_iff, and_iff_right hshort]
  · obtain ⟨fault, hfault⟩ := parse_of_not_holds (not_exists.mp hnone) response
    rw [hfault]
  · rw [annotate_standard tree (.inl rfl)]
  · rw [run_of_fault hpath hfault]
    exact ⟨rfl, rfl⟩

def sourceDisk : Disk := Disk.empty.store (Text.ofString "in.js") [0x61]

theorem holds_of_read {disk : Disk} (h : disk.read (Text.ofString "in.js") = .ok [0x61]) :
    Holds disk (Text.ofString "in.js") (Text.ofString "a") := ⟨_, h, by decide, by decide⟩

def emptyError : Json := .obj [(Text.ofString "error", .obj [])]

def withPlugin (plugin : Json) : ParserOptions :=
  { ParserOptions.standard with plugins := [plugin] }

theorem not_hasShortIntegers_withPlugin {n : Nat} (h : 10 ^ Json.digitLimit ≤ n) :
    ¬(withPlugin (.int n)).toJson.HasShortIntegers := by
  intro hshort
  simp only [withPlugin, ParserOptions.toJson, Json.HasShortIntegers, Json.Meets, fieldsMeet,
    itemsMeet, and_true] at hshort
  exact absurd hshort.2.2.2 (Nat.not_le.mpr (lt_digitCount_of_pow_le h))

def longInteger : Nat := 10 ^ Json.digitLimit

theorem not_hasShortIntegers_longInteger :
    ¬(withPlugin (.int longInteger)).toJson.HasShortIntegers :=
  not_hasShortIntegers_withPlugin (by rw [longInteger])

def parserWith (options : ParserOptions) : Parser := { path := Text.ofString "in.js", options }

/-- A reported error is a failure after one call. Options that cannot be written are a fault without
any. -/
theorem parse_outcomes_emptyError :
    let response : Response := .completed { stdout := emptyError.indented }
    let parsed := ((parserWith ParserOptions.standard).parse sourceDisk response).1
    let refused := ((parserWith (withPlugin (.int longInteger))).parse sourceDisk response).1
    parsed.calls = [ExternalParser.parseCall (Text.ofString "a") ParserOptions.standard.toJson
        ExternalParser.defaultModuleDir]
      ∧ (∃ error, parsed.result = .ok (.failure error))
      ∧ refused.calls = []
      ∧ ∃ fault, refused.result = .error fault := by
  intro response parsed refused
  have hholds : Holds sourceDisk (Text.ofString "in.js") (Text.ofString "a") :=
    holds_of_read (by decide)
  have hreports : ReportsError response :=
    ⟨_, _, ⟨_, rfl, rfl, read_indented (by decide) (by decide)⟩, rfl⟩
  obtain ⟨hcalls, hfailure, -⟩ :=
    (parse_outcomes (parserWith ParserOptions.standard) sourceDisk response).1
      ParserOptions.hasShortIntegers_standard
  obtain ⟨-, hnocalls, -, hfault, -⟩ :=
    parse_outcomes (parserWith (withPlugin (.int longInteger))) sourceDisk response
  exact ⟨hcalls _ hholds, hfailure.mpr ⟨⟨_, hholds⟩, hreports⟩,
    hnocalls not_hasShortIntegers_longInteger,
    hfault fun h => not_hasShortIntegers_longInteger h.1⟩

end TreeOffsets.Proofs.ParserOutcomes
