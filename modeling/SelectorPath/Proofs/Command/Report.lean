import SelectorPath.Command.Report
import SelectorPath.Proofs.Json
import SelectorPath.Proofs.Listing
import SelectorPath.Proofs.Live

/-! Reports, selector by selector. The console is cleared before each selector, so the entry of one
does not depend on the others, and the report on a list is put together from the reports on its
selectors alone. The formats show the same outcomes: what the lines say is in the JSON output too,
and the JSON output can be read back. -/

namespace SelectorPath.Command

/-! ### Entries -/

/-- What the warnings of an outcome print on a console that remembers nothing. -/
def shown {α : Type} (colour : Bool) (outcome : Outcome α) : String :=
  (Console.observe { colour } outcome).1

theorem shown_xpath_of_error {selector : String} {error : SelectorError} (colour : Bool)
    (h : (SelectorList.parse selector).result = .error error) :
    shown colour (xpath selector) = shown colour (SelectorList.parse selector) := by
  simp only [shown, Console.observe]
  rw [warnings_xpath_of_error h]

/-- Making the query only adds warnings to those of reading the selector. -/
theorem exists_shown_xpath_of_ok {selector : String} {selectors : SelectorList} (colour : Bool)
    (h : (SelectorList.parse selector).result = .ok selectors) :
    ∃ rest, shown colour (xpath selector) = shown colour (SelectorList.parse selector) ++ rest := by
  refine ⟨((Console.warnAll { colour } (SelectorList.parse selector).warnings).2.warnAll
    selectors.union.warnings).1, ?_⟩
  simp only [shown, Console.observe]
  rw [warnings_xpath_of_ok h, Console.warnAll_append]

namespace Entry

variable {α β : Type}

/-- What the console remembers has no part in the entry of a selector, and its colour is kept. -/
def Forgetful (work : Console → String → Entry α × Console) : Prop :=
  ∀ console selector, (work console selector).1 = (work console.clear selector).1 ∧
    (work console selector).2.colour = console.colour

/-- Whatever one selector leaves on the console, the next starts as from a cleared one. -/
theorem ofSelectors_eq_map {work : Console → String → Entry α × Console} (h : Forgetful work)
    (console : Console) (selectors : List String) :
    ofSelectors work console selectors =
      selectors.map fun selector => (work console.clear selector).1 := by
  induction selectors generalizing console with
  | nil => rfl
  | cons selector rest ih =>
    obtain ⟨hentry, hcolour⟩ := h console selector
    have hclear : (work console selector).2.clear = console.clear := by
      rw [Console.clear, hcolour, Console.clear]
    show (work console selector).1 :: ofSelectors work (work console selector).2 rest = _
    rw [ih, hclear, hentry]
    rfl

theorem forgetful_ofOutcome (outcome : String → Outcome β)
    (entry : Bool → String → String → Except SelectorError β → Entry α) :
    Forgetful fun console selector =>
      ofOutcome console (outcome selector) (entry console.colour selector) :=
  fun console _ => ⟨rfl, Console.colour_warnAll console.clear _⟩

theorem ofSelectors_ofOutcome (outcome : String → Outcome β)
    (entry : Bool → String → String → Except SelectorError β → Entry α) (colour : Bool)
    (selectors : List String) :
    ofSelectors (fun console selector =>
        ofOutcome console (outcome selector) (entry console.colour selector)) { colour } selectors =
      selectors.map fun selector =>
        entry colour selector (shown colour (outcome selector)) (outcome selector).result :=
  ofSelectors_eq_map (forgetful_ofOutcome outcome entry) { colour } selectors

end Entry

namespace Report

theorem ofSelectors_lines (colour : Bool) (selectors : List String) :
    ofSelectors .lines colour selectors =
      ofEntries String.join (selectors.map fun selector =>
        .queryLine colour selector (shown colour (xpath selector)) (xpath selector).result) :=
  congrArg (ofEntries String.join)
    (Entry.ofSelectors_ofOutcome xpath Entry.queryLine colour selectors)

theorem ofSelectors_json (colour : Bool) (selectors : List String) :
    ofSelectors .json colour selectors =
      ofEntries renderJson (selectors.map fun selector =>
        .queryJson selector (shown colour (xpath selector)) (xpath selector).result) :=
  congrArg (ofEntries renderJson)
    (Entry.ofSelectors_ofOutcome xpath (fun _ => Entry.queryJson) colour selectors)

theorem ofSelectors_compounds (colour : Bool) (selectors : List String) :
    ofSelectors .compounds colour selectors =
      ofEntries renderJson (selectors.map fun selector =>
        .compoundsJson colour selector (shown colour (SelectorList.parse selector))
          (SelectorList.parse selector).result) :=
  congrArg (ofEntries renderJson)
    (Entry.ofSelectors_ofOutcome SelectorList.parse Entry.compoundsJson colour selectors)

theorem parse?_renderJson (items : List Json) :
    Json.parse? (renderJson items) = some (.array items) :=
  Json.parse?_pretty (.array items)

/-! ### Reports put together -/

/-- The items of an output that is a JSON array. -/
def items? (stdout : String) : Option (List Json) :=
  match Json.parse? stdout with
  | some (.array items) => some items
  | _ => none

theorem items?_renderJson (items : List Json) : items? (renderJson items) = some items := by
  rw [items?, parse?_renderJson]

/-- Lines are joined as text, and the other formats as arrays. -/
def Joins (format : Format) (parts : List String) (whole : String) : Prop :=
  match format with
  | .lines => whole = String.join parts
  | .json | .compounds =>
    ∃ arrays, parts.mapM items? = some arrays ∧ items? whole = some arrays.flatten

/-- The report on a list of selectors is put together, in order, from the reports on each alone. -/
structure Separable (format : Format) (report : List String → Report) : Prop where
  stdout (selectors : List String) :
    Joins format (selectors.map fun s => (report [s]).stdout) (report selectors).stdout
  stderr (selectors : List String) :
    (report selectors).stderr = String.join (selectors.map fun s => (report [s]).stderr)
  status (selectors : List String) :
    (report selectors).status = 0 ↔ ∀ s ∈ selectors, (report [s]).status = 0

theorem status_ofEntries_eq_zero_iff {α : Type} {render : List α → String}
    {entries : List (Entry α)} :
    (ofEntries render entries).status = 0 ↔ ∀ entry ∈ entries, entry.failed = false := by
  simp [ofEntries]

/-- Entries that are made one by one leave only the joining of the outputs to the format. -/
theorem separable_ofEntries {α : Type} {render : List α → String} {format : Format}
    {entry : String → Entry α}
    (h : ∀ selectors : List String,
      Joins format (selectors.map fun s => render (entry s).output.toList)
        (render (selectors.flatMap fun s => (entry s).output.toList))) :
    Separable format fun selectors => ofEntries render (selectors.map entry) where
  stdout selectors := by
    have houtput (selectors : List String) :
        (ofEntries render (selectors.map entry)).stdout =
          render (selectors.flatMap fun s => (entry s).output.toList) := by
      rw [ofEntries, List.filterMap_eq_flatMap_toList, List.flatMap_map]
    simpa only [houtput, List.flatMap_singleton] using h selectors
  stderr selectors := by simp [ofEntries, Function.comp_def]
  status selectors := by simp [status_ofEntries_eq_zero_iff]

theorem separable_join (entry : String → Entry String) :
    Separable .lines fun selectors => ofEntries String.join (selectors.map entry) := by
  refine separable_ofEntries fun selectors => ?_
  show String.join (selectors.flatMap _) = String.join (selectors.map _)
  induction selectors with
  | nil => rfl
  | cons s selectors ih =>
    rw [List.flatMap_cons, String.join_append, ih, List.map_cons, String.join_cons]

theorem joins_renderJson {format : Format} (h : format ≠ .lines) (items : String → List Json)
    (selectors : List String) :
    Joins format (selectors.map fun s => renderJson (items s))
      (renderJson (selectors.flatMap items)) := by
  have harrays : ∃ arrays, (selectors.map fun s => renderJson (items s)).mapM items? = some arrays ∧
      items? (renderJson (selectors.flatMap items)) = some arrays.flatten := by
    refine ⟨selectors.map items, ?_, ?_⟩
    · rw [← mapM_map_eq_some items?_renderJson (selectors.map items), List.map_map]
      rfl
    · rw [items?_renderJson, List.flatMap_def]
  cases format with
  | lines => exact absurd rfl h
  | json => exact harrays
  | compounds => exact harrays

theorem separable_ofSelectors (format : Format) (colour : Bool) :
    Separable format (ofSelectors format colour) := by
  cases format with
  | lines =>
    rw [funext (ofSelectors_lines colour)]
    exact separable_join _
  | json =>
    rw [funext (ofSelectors_json colour)]
    exact separable_ofEntries (joins_renderJson (by decide) _)
  | compounds =>
    rw [funext (ofSelectors_compounds colour)]
    exact separable_ofEntries (joins_renderJson (by decide) _)

end Report

/-- The option that asks for a format. -/
def Format.options : Format → List String
  | .lines => []
  | .json => ["--json"]
  | .compounds => ["--rules"]

/-- The arguments that ask for the report on selectors, whatever these look like. -/
def invocation (format : Format) (colour : Bool) (selectors : List String) : List String :=
  format.options ++ (if colour then [] else ["--no-color"]) ++ "--" :: selectors

theorem respond_invocation (contents : Source → Except ReadFailure ByteArray) (format : Format)
    (colour : Bool) (selector : String) (rest : List String) :
    respond contents (invocation format colour (selector :: rest)) =
      .ofSelectors format colour (selector :: rest) := by
  have hjson : Word.ofString "--json" = .flag .json := rfl
  have hcompounds : Word.ofString "--rules" = .flag .compounds := rfl
  have hplain : Word.ofString "--no-color" = .flag .plain := rfl
  have hend : Word.ofString "--" = .endOfOptions := rfl
  cases format <;> cases colour <;>
    simp [invocation, Format.options, respond, Request.ofArguments, Request.take, hjson, hcompounds,
      hplain, hend, Options.withFlag?, Options.withSelectors, Request.ofOptions, run,
      Options.source?, Options.format, Options.colour]

namespace Report

/-- In every format the command answers as if it were run on each selector by itself. Nothing that
one selector warns about, or is refused for, has a part in what is said of another. -/
theorem respond_separable (contents : Source → Except ReadFailure ByteArray) (format : Format)
    (colour : Bool) :
    Separable format (ofSelectors format colour) ∧
      ∀ selector rest, respond contents (invocation format colour (selector :: rest)) =
        ofSelectors format colour (selector :: rest) :=
  ⟨separable_ofSelectors format colour, respond_invocation contents format colour⟩

/-! ### Formats -/

theorem status_json (colour : Bool) (selectors : List String) :
    (ofSelectors .json colour selectors).status = (ofSelectors .lines colour selectors).status := by
  have hfailed (selector warnings : String) (result : Except SelectorError String) :
      (Entry.queryJson selector warnings result).failed =
        (Entry.queryLine colour selector warnings result).failed := by
    cases result <;> rfl
  rw [ofSelectors_json, ofSelectors_lines]
  simp only [ofEntries, List.any_map, Function.comp_def, hfailed]

/-- A selector that has a query can be read. -/
theorem status_compounds {colour : Bool} {selectors : List String}
    (h : (ofSelectors .lines colour selectors).status = 0) :
    (ofSelectors .compounds colour selectors).status = 0 := by
  rw [ofSelectors_lines, status_ofEntries_eq_zero_iff, List.forall_mem_map] at h
  rw [ofSelectors_compounds, status_ofEntries_eq_zero_iff, List.forall_mem_map]
  intro selector hmem
  have hline := h selector hmem
  cases hparse : (SelectorList.parse selector).result with
  | ok selectors => rfl
  | error error =>
    rw [result_xpath_of_error hparse] at hline
    cases hline

/-- The report on a selector that is alone is its entry. -/
theorem ofEntries_singleton {α : Type} (render : List α → String) (entry : Entry α) :
    ofEntries render [entry] =
      ⟨render entry.output.toList, entry.stderr, if entry.failed then 1 else 0⟩ := by
  obtain ⟨_ | output, stderr, failed⟩ := entry <;> simp [ofEntries]

/-- How the lines on a selector and the JSON report on it go together. The warnings are the same.
A query is the text of the line, and an error stands at the end of a line that only the lines
have. -/
inductive Corresponds (colour : Bool) (selector : String) : Report → Report → Prop
  | query {lines json : Report} (query : String)
      (result : (xpath selector).result = .ok query)
      (lines_eq : lines = ⟨query ++ "\n", json.stderr, 0⟩)
      (json_eq : Json.parse? json.stdout =
        some (.array [.object [("selector", .string selector), ("xpath", .string query)]])) :
      Corresponds colour selector lines json
  | error {lines json : Report} (error : SelectorError)
      (result : (xpath selector).result = .error error)
      (lines_eq : lines = ⟨"", json.stderr ++
        (Console.styled colour .bold (Console.styled colour .red "error") ++ ": " ++ selector ++
          ": " ++ error.message ++ "\n"), 1⟩)
      (json_eq : Json.parse? json.stdout =
        some (.array [.object [("selector", .string selector),
          ("error", .string error.message)]])) :
      Corresponds colour selector lines json

theorem corresponds_alone (colour : Bool) (selector : String) :
    Corresponds colour selector (ofSelectors .lines colour [selector])
      (ofSelectors .json colour [selector]) := by
  simp only [ofSelectors_lines, ofSelectors_json, List.map_cons, List.map_nil, ofEntries_singleton]
  cases h : (xpath selector).result with
  | ok query =>
    exact .query query h (by simp [Entry.queryLine, Entry.queryJson]) (parse?_renderJson _)
  | error error =>
    exact .error error h (by simp [Entry.queryLine, Entry.queryJson, Entry.errorLine])
      (parse?_renderJson _)

/-- A selector that cannot be read is refused with the same words in both formats. -/
theorem stderr_compounds_of_error {selector : String} {error : SelectorError} (colour : Bool)
    (h : (SelectorList.parse selector).result = .error error) :
    (ofSelectors .compounds colour [selector]).stderr =
      (ofSelectors .lines colour [selector]).stderr := by
  simp only [ofSelectors_lines, ofSelectors_compounds, List.map_cons, List.map_nil,
    ofEntries_singleton, h, result_xpath_of_error h, shown_xpath_of_error colour h]
  rfl

theorem exists_stderr_lines (colour : Bool) (selector : String) :
    ∃ rest, (ofSelectors .lines colour [selector]).stderr =
      (ofSelectors .compounds colour [selector]).stderr ++ rest := by
  cases hparse : (SelectorList.parse selector).result with
  | error error =>
    exact ⟨"", by rw [stderr_compounds_of_error colour hparse, String.append_empty]⟩
  | ok selectors =>
    obtain ⟨rest, hrest⟩ := exists_shown_xpath_of_ok colour hparse
    simp only [ofSelectors_lines, ofSelectors_compounds, List.map_cons, List.map_nil,
      ofEntries_singleton, hparse, Entry.compoundsJson, hrest]
    -- The query can still be refused, and then the line that tells it comes after the warnings.
    cases hquery : (xpath selector).result with
    | ok query => exact ⟨rest, rfl⟩
    | error error =>
      exact ⟨rest ++ Entry.errorLine colour selector error, String.append_assoc ..⟩

/-- The formats agree on which selectors are refused, on the queries and on the errors. Listing the
compounds takes fewer steps, and so it may only be quieter. -/
theorem formats_agree (colour : Bool) (selectors : List String) :
    (ofSelectors .json colour selectors).status = (ofSelectors .lines colour selectors).status ∧
      ((ofSelectors .lines colour selectors).status = 0 →
        (ofSelectors .compounds colour selectors).status = 0) ∧
      ∀ selector,
        Corresponds colour selector (ofSelectors .lines colour [selector])
            (ofSelectors .json colour [selector]) ∧
          (∃ rest, (ofSelectors .lines colour [selector]).stderr =
            (ofSelectors .compounds colour [selector]).stderr ++ rest) ∧
          ∀ error, (SelectorList.parse selector).result = .error error →
            (ofSelectors .compounds colour [selector]).stderr =
              (ofSelectors .lines colour [selector]).stderr :=
  ⟨status_json colour selectors, status_compounds, fun selector =>
    ⟨corresponds_alone colour selector, exists_stderr_lines colour selector,
      fun _ => stderr_compounds_of_error colour⟩⟩

/-! ### Reading the output -/

/-- What the JSON report says of a selector beside its text. -/
def answer : Except SelectorError String → String × Json
  | .ok query => ("xpath", .string query)
  | .error error => ("error", .string error.message)

theorem output_queryJson (selector warnings : String) (result : Except SelectorError String) :
    (Entry.queryJson selector warnings result).output =
      some (.object [("selector", .string selector), answer result]) := by
  cases result <;> rfl

/-- An entry gives a selector word for word, and a listing that can be read back as what the
selector is read as. -/
def Lists (selector : String) (entry : Json) : Prop :=
  ∃ selectors, (SelectorList.parse selector).result = .ok selectors ∧
    entry = .object [("selector", .string selector),
      ("members", .array (selectors.map Selector.json))] ∧
    SelectorList.ofJson? (.array (selectors.map Selector.json)) = some selectors

theorem lists_compoundsJson (colour : Bool) (warnings : String → String) (selectors : List String) :
    List.Forall₂ Lists (selectors.filter fun s => (SelectorList.parse s).result.isOk)
      (selectors.filterMap fun s =>
        (Entry.compoundsJson colour s (warnings s) (SelectorList.parse s).result).output) := by
  induction selectors with
  | nil => exact .nil
  | cons s rest ih =>
    cases h : (SelectorList.parse s).result with
    | ok members =>
      rw [List.filter_cons_of_pos (by rw [h]; rfl), List.filterMap_cons_some (by rw [h]; rfl)]
      exact .cons ⟨members, h, rfl, SelectorList.ofJson?_array members⟩ ih
    | error error =>
      rw [List.filter_cons_of_neg (by rw [h]; exact Bool.false_ne_true),
        List.filterMap_cons_none (by rw [h]; rfl)]
      exact ih

/-- The JSON reports can be read back. The one has for each selector its text, and its query or its
error. The other has, for each selector that can be read, its text and its compounds, where `null`
stands for what is not there and for nothing else. -/
theorem parse?_stdout (colour : Bool) (selectors : List String) :
    Json.parse? (ofSelectors .json colour selectors).stdout =
        some (.array (selectors.map fun s =>
          .object [("selector", .string s), answer (xpath s).result])) ∧
      (∃ entries,
        Json.parse? (ofSelectors .compounds colour selectors).stdout = some (.array entries) ∧
        List.Forall₂ Lists (selectors.filter fun s => (SelectorList.parse s).result.isOk)
          entries) ∧
      ∀ value, Json.ofOption value = .null ↔ value = none := by
  refine ⟨?_, ?_, Json.ofOption_eq_null_iff⟩
  · rw [ofSelectors_json, ofEntries, parse?_renderJson, List.filterMap_map]
    simp only [Function.comp_def, output_queryJson]
    rw [List.filterMap_eq_map']
  · rw [ofSelectors_compounds, ofEntries, List.filterMap_map]
    exact ⟨_, parse?_renderJson _, lists_compoundsJson colour _ selectors⟩

end Report

end SelectorPath.Command
