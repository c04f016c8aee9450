import Briefr.Blocklist.UrlExport
import Briefr.Library.Csv
import Briefr.Python.Datetime

namespace Briefr.Blocklist

open Briefr.Python Briefr.Library Briefr.Library.StableSort

variable {Factor : Type}

/-- `utcnow_str()`. -/
def utcnowStr (date : Date) (hour minute second : ℕ) : Text :=
  dateText date ++ ' ' :: (twoDigits hour ++ ':' :: (twoDigits minute ++ ':' :: twoDigits second))

def CsvRow.cells (row : CsvRow) : List Text :=
  [row.type, row.value, row.source, row.confidence, row.firstSeen, row.malware, row.threatType]

/-- The text of `to_csv`. -/
def csvText (payload : Payload Factor) (mode : ExportMode) : Text :=
  Csv.write ((toCsv payload mode).map CsvRow.cells)

def matching (payload : Payload Factor) (mode : ExportMode) : List (Record Factor) :=
  payload.domains.filter fun record ↦ recordMatchesMode record mode

/-- The fields that a row shows, as they are in the record; a list is joined. -/
def Record.fields (record : Record Factor) : List Text :=
  [record.iocType.text, record.exactIoc, [';'].intercalate record.sources, record.confidence.text, record.firstSeen,
    [';'].intercalate record.malware, [';'].intercalate record.threatType]

/-- A spreadsheet takes what starts with it for a formula. -/
def isFormula (c : Char) : Bool := c ∈ ['=', '+', '-', '@']

def isMargin (c : Char) : Bool := c == '\t' || c == '\r'

/-- The cell is no formula, also after tabs and carriage returns. -/
def Inert (cell : Text) : Prop := (cell.dropWhile isMargin).head?.any isFormula = false

instance (cell : Text) : Decidable (Inert cell) := inferInstanceAs (Decidable (_ = _))

/-- The text starts as an escaped one does. -/
def marked (value : Text) : Bool := value.head? == some '\'' && value.tail.head?.any isFormula

/-- The cell without the prefix of an escaped one. -/
def unescape (cell : Text) : Text := if marked cell then cell.tail else cell

/-- The parsed CSV has the header and one row for each matching record, no cell is a formula, and the cells without
the escape are the record's fields. -/
def CsvFaithful (payload : Payload Factor) (mode : ExportMode) : Prop :=
  ∃ rows, Csv.parse (csvText payload mode) = some (csvHeader.cells :: rows) ∧
    (∀ row ∈ csvHeader.cells :: rows, ∀ cell ∈ row, Inert cell) ∧
    rows.map (List.map unescape) = (matching payload mode).map Record.fields

/-- The lines of a text, each ended by a newline. -/
def lines (text : Text) : List Text := (text.splitOn '\n').dropLast

def isComment (line : Text) : Bool := line.head? == some '#'

def exportedValue (mode : ExportMode) (record : Record Factor) : Text :=
  match mode with
  | .urls => record.exactIoc
  | _ => record.domain

def eligibleLine (n : ℕ) : Text := "# eligible: ".toList ++ (toString n).toList

section
variable [Interp]

def dataLines (payload : Payload Factor) (mode : ExportMode) : List Text :=
  (lines (toTxt payload mode)).filter fun line ↦ !isComment line

/-- The lines that are no comments are the values of the matching records, and the header has their number. -/
structure TxtFaithful (payload : Payload Factor) (mode : ExportMode) : Prop where
  values : (dataLines payload mode).Perm ((matching payload mode).map (exportedValue mode))
  eligible : (lines (toTxt payload mode))[3]? = some (eligibleLine (dataLines payload mode).length)

end

/-- The field comes back from its cell and is no formula there although nothing escapes it. -/
def Plain (field : Text) : Prop := Inert field ∧ marked field = false

/-- What the CSV needs of a record. -/
structure CellsClean (record : Record Factor) : Prop where
  exactIoc : marked record.exactIoc = false
  sources : Plain ([';'].intercalate record.sources)
  firstSeen : Plain record.firstSeen
  malware : Plain ([';'].intercalate record.malware)
  threatType : Plain ([';'].intercalate record.threatType)

/-- What the TXT needs of a value. -/
structure LineClean (value : Text) : Prop where
  given : value ≠ []
  oneLine : '\n' ∉ value
  data : isComment value = false

theorem escape_of_formula {value : Text} (h : value.head?.any isFormula = true) :
    escapeSpreadsheetValue value = '\'' :: value := if_pos h

theorem escape_of_not {value : Text} (h : value.head?.any isFormula = false) : escapeSpreadsheetValue value = value := by
  refine if_neg ?_
  change ¬value.head?.any isFormula = true
  rw [h]
  exact Bool.false_ne_true

theorem unescape_eq_self_iff {field : Text} : unescape field = field ↔ marked field = false := by
  rw [unescape]
  cases hm : marked field with
  | false => exact iff_of_true rfl rfl
  | true =>
    refine iff_of_false ?_ Bool.true_eq_false.mp
    rw [if_pos rfl]
    cases field with
    | nil => cases hm
    | cons c field =>
      intro h
      exact List.cons_ne_self _ _ h.symm

/-- An escaped value comes back, and one that was not escaped unless it looks escaped. -/
theorem unescape_escape_iff {value : Text} :
    unescape (escapeSpreadsheetValue value) = value ↔ marked value = false := by
  cases hf : value.head?.any isFormula with
  | false => rw [escape_of_not hf, unescape_eq_self_iff]
  | true =>
    have hm : marked ('\'' :: value) = true := by
      rw [marked, List.head?_cons, List.tail_cons, hf, beq_self_eq_true, Bool.true_and]
    rw [escape_of_formula hf, unescape, if_pos hm, List.tail_cons]
    refine iff_of_true rfl ?_
    cases value with
    | nil => rfl
    | cons c value =>
      rw [marked, Bool.and_eq_false_iff, List.head?_cons, beq_eq_false_iff_ne]
      refine .inl fun h ↦ ?_
      obtain rfl : c = '\'' := Option.some.inj h
      cases hf

theorem inert_of_not_margin {cell : Text} (hm : cell.head?.any isMargin = false) (hf : cell.head?.any isFormula = false) :
    Inert cell := by
  cases cell with
  | nil => rfl
  | cons c cell =>
    rw [Inert, List.dropWhile_cons_of_neg (by rw [show isMargin c = false from hm]; exact Bool.false_ne_true)]
    exact hf

theorem inert_escape {value : Text} (h : value.head?.any isMargin = false) : Inert (escapeSpreadsheetValue value) := by
  cases hf : value.head?.any isFormula with
  | true =>
    rw [escape_of_formula hf]
    rfl
  | false =>
    rw [escape_of_not hf]
    exact inert_of_not_margin h hf

theorem cells_csvRow (record : Record Factor) : (csvRow record).cells =
    [record.iocType.text, escapeSpreadsheetValue record.exactIoc, [';'].intercalate record.sources,
      record.confidence.text, record.firstSeen, [';'].intercalate record.malware,
      [';'].intercalate record.threatType] := by
  rw [← csvRow_type]
  rfl

/-- The cells of a record's row are as they should be exactly when its fields are clean. -/
theorem cells_iff {record : Record Factor} (hmargin : record.exactIoc.head?.any isMargin = false) :
    ((∀ cell ∈ (csvRow record).cells, Inert cell) ∧ (csvRow record).cells.map unescape = record.fields) ↔
      CellsClean record := by
  have htype : Inert record.iocType.text ∧ unescape record.iocType.text = record.iocType.text := by
    cases record.iocType <;> decide
  have hlevel : Inert record.confidence.text ∧ unescape record.confidence.text = record.confidence.text := by
    cases record.confidence <;> decide
  rw [cells_csvRow, Record.fields]
  simp only [List.forall_mem_cons, List.map_cons, List.cons.injEq, htype, hlevel, inert_escape hmargin,
    unescape_escape_iff, unescape_eq_self_iff, true_and]
  constructor
  · rintro ⟨⟨hs, hf, hm, ht, -⟩, hx, hs', hf', hm', ht', -⟩
    exact ⟨hx, ⟨hs, hs'⟩, ⟨hf, hf'⟩, ⟨hm, hm'⟩, ht, ht'⟩
  · intro h
    exact ⟨⟨h.sources.1, h.firstSeen.1, h.malware.1, h.threatType.1, List.forall_mem_nil _⟩, h.exactIoc, h.sources.2,
      h.firstSeen.2, h.malware.2, h.threatType.2, rfl⟩

theorem parse_csvText (payload : Payload Factor) (mode : ExportMode) :
    Csv.parse (csvText payload mode) =
      some (csvHeader.cells :: (matching payload mode).map fun record ↦ (csvRow record).cells) := by
  have hrows : ∀ row ∈ (toCsv payload mode).map CsvRow.cells, row ≠ [] := by
    intro row hrow
    obtain ⟨r, -, rfl⟩ := List.mem_map.mp hrow
    exact List.cons_ne_nil _ _
  rw [csvText, Csv.parse_write hrows, toCsv, List.map_cons, List.map_map]
  rfl

theorem csvFaithful_iff {payload : Payload Factor} {mode : ExportMode}
    (hmargin : ∀ r ∈ payload.domains, r.exactIoc.head?.any isMargin = false) :
    CsvFaithful payload mode ↔ ∀ r ∈ matching payload mode, CellsClean r := by
  have hrecord : ∀ r ∈ matching payload mode, r.exactIoc.head?.any isMargin = false :=
    fun r hr ↦ hmargin r (List.mem_filter.mp hr).1
  have hheader : ∀ cell ∈ csvHeader.cells, Inert cell := by decide
  rw [CsvFaithful, parse_csvText]
  constructor
  · rintro ⟨rows, hparse, hinert, hfields⟩ r hr
    obtain rfl := (List.cons.inj (Option.some.inj hparse)).2
    rw [List.map_map] at hfields
    refine (cells_iff (hrecord r hr)).mp ⟨?_, List.map_inj_left.mp hfields r hr⟩
    exact hinert _ (List.mem_cons_of_mem _ (List.mem_map.mpr ⟨r, hr, rfl⟩))
  · intro h
    refine ⟨_, rfl, List.forall_mem_cons.mpr ⟨hheader, ?_⟩, ?_⟩
    · intro row hrow
      obtain ⟨r, hr, rfl⟩ := List.mem_map.mp hrow
      exact ((cells_iff (hrecord r hr)).mpr (h r hr)).1
    · rw [List.map_map]
      exact List.map_congr_left fun r hr ↦ ((cells_iff (hrecord r hr)).mpr (h r hr)).2

def ended (ls : List Text) : Text := ls.flatMap fun line ↦ line ++ ['\n']

theorem lines_append (line text : Text) : lines (line ++ '\n' :: text) = line.splitOn '\n' ++ lines text := by
  rw [lines, List.splitOn_append_cons_self, List.dropLast_append_of_ne_nil (List.splitOn_ne_nil _ _)]
  rfl

theorem lines_ended (ls : List Text) (text : Text) :
    lines (ended ls ++ text) = ls.flatMap (·.splitOn '\n') ++ lines text := by
  induction ls with
  | nil => rfl
  | cons line ls ih =>
    rw [ended, List.flatMap_cons, List.flatMap_cons, List.append_assoc, List.append_assoc, List.append_assoc, ← ih]
    exact lines_append line (ended ls ++ text)

theorem lines_nil : lines [] = [] := rfl

theorem flatMap_splitOn {ls : List Text} (h : ∀ line ∈ ls, '\n' ∉ line) : ls.flatMap (·.splitOn '\n') = ls := by
  rw [List.flatMap_congr fun line hline ↦ List.splitOn_eq_singleton (h line hline)]
  exact List.flatMap_singleton' ls

/-- Where lines are given, they joined are not empty, and are ended when a newline is added. -/
theorem ended_of_ne_nil {ls : List Text} (hne : ls ≠ []) : ['\n'].intercalate ls ++ ['\n'] = ended ls := by
  induction ls with
  | nil => exact absurd rfl hne
  | cons line ls ih =>
    cases ls with
    | nil => simp [ended]
    | cons next ls =>
      rw [List.intercalate_cons_cons, List.append_assoc, List.append_assoc, ih (List.cons_ne_nil _ _)]
      simp [ended]

theorem intercalate_eq_nil_iff {ls : List Text} (hgiven : ∀ line ∈ ls, line ≠ []) :
    ['\n'].intercalate ls = [] ↔ ls = [] := by
  cases ls with
  | nil => exact iff_of_true rfl rfl
  | cons line ls =>
    refine iff_of_false ?_ (List.cons_ne_nil _ _)
    cases ls with
    | nil => simpa using hgiven line (.head _)
    | cons next ls => simp [List.intercalate_cons_cons]

theorem not_mem_of_mem_splitOn {text line : Text} (h : line ∈ text.splitOn '\n') : '\n' ∉ line := by
  induction text generalizing line with
  | nil =>
    obtain rfl : line = [] := List.mem_singleton.mp h
    exact List.not_mem_nil
  | cons c text ih =>
    rw [List.splitOn_cons_eq_if_modifyHead] at h
    split at h
    next =>
      rcases List.mem_cons.mp h with rfl | h
      · exact List.not_mem_nil
      · exact ih h
    next hc =>
      obtain ⟨first, rest, hsplit⟩ := List.exists_cons_of_ne_nil (List.splitOn_ne_nil '\n' text)
      rw [hsplit, List.modifyHead_cons] at h
      rcases List.mem_cons.mp h with rfl | h
      · rintro hmem
        rcases List.mem_cons.mp hmem with rfl | hmem
        · exact hc (beq_self_eq_true _)
        · exact ih (hsplit ▸ .head _) hmem
      · exact ih (hsplit ▸ .tail _ h)

theorem newline_not_mem_toString (n : ℕ) : '\n' ∉ (toString n).toList := by
  intro h
  rw [Nat.toString_eq_repr, Nat.toList_repr] at h
  exact absurd (Nat.isDigit_of_mem_toDigits (by decide) (by decide) h) (by decide)

theorem newline_not_mem_twoDigits (n : ℕ) : '\n' ∉ twoDigits n := by
  have hdigit : ∀ n, '\n' ≠ digit n := by
    intro n h
    have hcode := toNat_digit n
    rw [← h, show ('\n' : Char).toNat = 10 from rfl] at hcode
    omega
  simp only [twoDigits, List.mem_cons, List.not_mem_nil, or_false, not_or]
  exact ⟨hdigit _, hdigit _⟩

theorem newline_not_mem_utcnowStr (date : Date) (hour minute second : ℕ) :
    '\n' ∉ utcnowStr date hour minute second := by
  simp [utcnowStr, dateText, monthText, newline_not_mem_twoDigits]

def headerLines (payload : Payload Factor) (mode : ExportMode) : List Text :=
  ["# BRIEFR malicious-domain candidates".toList, "# generated_at: ".toList ++ payload.info.generatedAt,
    "# mode: ".toList ++ mode.text, eligibleLine (eligibleCount payload mode),
    "# excluded: ".toList ++ (toString payload.info.excludedCount).toList]

variable {mode : ExportMode} {payload : Payload Factor}

theorem newline_not_mem_header (hgenerated : '\n' ∉ payload.info.generatedAt) :
    ∀ line ∈ headerLines payload mode, '\n' ∉ line := by
  have htitle : '\n' ∉ "# BRIEFR malicious-domain candidates".toList := by decide
  have hmode : '\n' ∉ "# mode: ".toList ++ mode.text := by cases mode <;> decide
  have happend : ∀ front back : Text, '\n' ∉ front → '\n' ∉ back → '\n' ∉ front ++ back :=
    fun front back hfront hback h ↦ (List.mem_append.mp h).elim hfront hback
  simp only [headerLines, List.forall_mem_cons]
  exact ⟨htitle, happend _ _ (by decide) hgenerated, hmode, happend _ _ (by decide) (newline_not_mem_toString _),
    happend _ _ (by decide) (newline_not_mem_toString _), List.forall_mem_nil _⟩

section
variable [Interp]

theorem toTxt_eq (hgiven : ∀ line ∈ txtLines payload mode, line ≠ []) :
    toTxt payload mode = ended (headerLines payload mode) ++ ended (txtLines payload mode) := by
  have hfirst : "# BRIEFR malicious-domain candidates\n".toList =
      "# BRIEFR malicious-domain candidates".toList ++ ['\n'] := rfl
  have hmode : "\n# mode: ".toList = '\n' :: "# mode: ".toList := rfl
  have heligible : "\n# eligible: ".toList = '\n' :: "# eligible: ".toList := rfl
  have hexcluded : "\n# excluded: ".toList = '\n' :: "# excluded: ".toList := rfl
  have hlast : "\n".toList = ['\n'] := rfl
  have hheader : ∀ eligible excluded : Text, "# BRIEFR malicious-domain candidates\n".toList ++
      "# generated_at: ".toList ++ payload.info.generatedAt ++ "\n# mode: ".toList ++ mode.text ++
      "\n# eligible: ".toList ++ eligible ++ "\n# excluded: ".toList ++ excluded ++ "\n".toList =
        ended ["# BRIEFR malicious-domain candidates".toList, "# generated_at: ".toList ++ payload.info.generatedAt,
          "# mode: ".toList ++ mode.text, "# eligible: ".toList ++ eligible, "# excluded: ".toList ++ excluded] := by
    intro eligible excluded
    rw [hfirst, hmode, heligible, hexcluded, hlast]
    simp only [ended, List.flatMap_cons, List.flatMap_nil, List.append_assoc, List.cons_append, List.nil_append,
      List.append_nil]
  have hheader := hheader (toString (eligibleCount payload mode)).toList (toString payload.info.excludedCount).toList
  rw [toTxt, hheader]
  by_cases hnil : txtLines payload mode = []
  · rw [hnil]
    exact (List.append_nil _).symm
  · rw [if_neg (mt (intercalate_eq_nil_iff hgiven).mp hnil), List.append_assoc]
    exact congrArg _ (ended_of_ne_nil hnil)

/-- Below the header is every line of every value. -/
theorem lines_toTxt (hgenerated : '\n' ∉ payload.info.generatedAt)
    (hgiven : ∀ line ∈ txtLines payload mode, line ≠ []) :
    lines (toTxt payload mode) = headerLines payload mode ++ (txtLines payload mode).flatMap (·.splitOn '\n') := by
  have hbody := lines_ended (txtLines payload mode) []
  rw [List.append_nil, lines_nil, List.append_nil] at hbody
  rw [toTxt_eq hgiven, lines_ended, hbody, flatMap_splitOn (newline_not_mem_header hgenerated)]

theorem dataLines_eq (hgenerated : '\n' ∉ payload.info.generatedAt)
    (hgiven : ∀ line ∈ txtLines payload mode, line ≠ []) :
    dataLines payload mode =
      ((txtLines payload mode).flatMap (·.splitOn '\n')).filter fun line ↦ !isComment line := by
  have hheader : (headerLines payload mode).filter (fun line ↦ !isComment line) = [] := rfl
  rw [dataLines, lines_toTxt hgenerated hgiven, List.filter_append, hheader, List.nil_append]

theorem perm_txtLines (hline : ∀ r ∈ payload.domains,
    txtLine? mode r = if exportedValue mode r = [] then none else some (exportedValue mode r)) :
    (txtLines payload mode).Perm (((matching payload mode).map (exportedValue mode)).filter (· ≠ [])) := by
  have hpick : ∀ l : List (Record Factor), (∀ r ∈ l, r ∈ payload.domains) →
      l.filterMap (txtLine? mode) = (l.map (exportedValue mode)).filter (· ≠ []) := by
    intro l hl
    induction l with
    | nil => rfl
    | cons r l ih =>
      obtain ⟨hr, hl⟩ := List.forall_mem_cons.mp hl
      rw [List.filterMap_cons, hline r hr, ih hl, List.map_cons, List.filter_cons]
      by_cases hnil : exportedValue mode r = []
      · simp [hnil]
      · simp [hnil]
  rw [← hpick (matching payload mode) fun r hr ↦ (List.mem_filter.mp hr).1]
  exact perm_sortBy _ _

theorem txtFaithful_iff (hgenerated : '\n' ∉ payload.info.generatedAt) (hline : ∀ r ∈ payload.domains,
    txtLine? mode r = if exportedValue mode r = [] then none else some (exportedValue mode r)) :
    TxtFaithful payload mode ↔ ∀ r ∈ matching payload mode, LineClean (exportedValue mode r) := by
  have hperm := perm_txtLines hline
  have hgiven : ∀ line ∈ txtLines payload mode, line ≠ [] := by
    intro line hmem
    exact of_decide_eq_true (List.mem_filter.mp (hperm.mem_iff.mp hmem)).2
  have hdata := dataLines_eq hgenerated hgiven
  constructor
  · intro h
    -- a value is one of the lines, so no value has a newline, and then the lines are values
    have hvalue : ∀ r ∈ matching payload mode, exportedValue mode r ∈ dataLines payload mode :=
      fun r hr ↦ h.values.mem_iff.mpr (List.mem_map_of_mem hr)
    have honeLine : ∀ r ∈ matching payload mode, '\n' ∉ exportedValue mode r := by
      intro r hr
      have hmem := hvalue r hr
      rw [hdata] at hmem
      obtain ⟨line, -, hmem⟩ := List.mem_flatMap.mp (List.mem_filter.mp hmem).1
      exact not_mem_of_mem_splitOn hmem
    have hbody : ∀ line ∈ txtLines payload mode, '\n' ∉ line := by
      intro line hmem
      obtain ⟨r, hr, rfl⟩ := List.mem_map.mp (List.mem_filter.mp (hperm.mem_iff.mp hmem)).1
      exact honeLine r hr
    rw [flatMap_splitOn hbody] at hdata
    intro r hr
    have hmem := hvalue r hr
    rw [hdata] at hmem
    obtain ⟨hmem, hcomment⟩ := List.mem_filter.mp hmem
    exact ⟨hgiven _ hmem, honeLine r hr, (Bool.not_eq_true' _).mp hcomment⟩
  · intro h
    have hall : ((matching payload mode).map (exportedValue mode)).filter (· ≠ []) =
        (matching payload mode).map (exportedValue mode) := by
      rw [List.filter_eq_self]
      intro value hmem
      obtain ⟨r, hr, rfl⟩ := List.mem_map.mp hmem
      exact decide_eq_true (h r hr).given
    rw [hall] at hperm
    have hclean : ∀ line ∈ txtLines payload mode, LineClean line := by
      intro line hmem
      obtain ⟨r, hr, rfl⟩ := List.mem_map.mp (hperm.mem_iff.mp hmem)
      exact h r hr
    have hlines : dataLines payload mode = txtLines payload mode := by
      rw [hdata, flatMap_splitOn fun line hmem ↦ (hclean line hmem).oneLine, List.filter_eq_self]
      intro line hmem
      rw [(hclean line hmem).data]
      rfl
    have hcount : eligibleCount payload mode = (dataLines payload mode).length := by
      rw [hlines, hperm.length_eq, List.length_map, matching, ← List.countP_eq_length_filter, eligibleCount]
    refine ⟨hlines ▸ hperm, ?_⟩
    rw [lines_toTxt hgenerated hgiven, ← hcount]
    rfl

theorem strip_candidateIoc (evidence : List Evidence) : strip (candidateIoc evidence).2 = (candidateIoc evidence).2 := by
  rw [candidateIoc]
  cases (sortBy candidateSortKey evidence).find? Evidence.isUrl with
  | some e => exact strip_exact e
  | none =>
    cases sortBy candidateSortKey evidence with
    | nil => rfl
    | cons e _ => exact strip_exact e

theorem not_margin_of_strip {value : Text} (h : strip value = value) : value.head?.any isMargin = false := by
  cases value with
  | nil => rfl
  | cons c value =>
    have hspace := isSpace_head_strip h
    refine Bool.eq_false_iff.mpr fun hmargin ↦ ?_
    have hc : c = '\t' ∨ c = '\r' := by simpa [isMargin] using hmargin
    rcases hc with rfl | rfl
    · rw [Interp.isSpace_ascii _ (by decide)] at hspace
      exact absurd hspace (by decide)
    · rw [Interp.isSpace_ascii _ (by decide)] at hspace
      exact absurd hspace (by decide)

variable [Urls] {svc : Services Factor} {generatedAt : Text} {i : Inputs} {r : Record Factor}

theorem strip_exactIoc (h : r ∈ (buildBlocklist svc generatedAt i).domains) : strip r.exactIoc = r.exactIoc := by
  rw [(exported_of_mem h).1.exactIoc]
  exact strip_candidateIoc _

theorem txtLine?_eq (h : r ∈ (buildBlocklist svc generatedAt i).domains) :
    txtLine? mode r = if exportedValue mode r = [] then none else some (exportedValue mode r) := by
  have hdomain : r.domain ≠ [] := List.ne_nil_of_mem (mem_domains.mp h).1.1
  cases mode with
  | domains => exact (if_neg hdomain).symm
  | urls => rw [txtLine?, strip_exactIoc h, exportedValue]
  | all => exact (if_neg hdomain).symm

/-- The two exports of a payload are as they should be exactly when in every matching record no field that is not
escaped is a formula, none looks escaped, and the value is a line of its own. -/
theorem exports_faithful_iff (svc : Services Factor) (date : Date) (hour minute second : ℕ) (i : Inputs)
    (mode : ExportMode) :
    let payload := buildBlocklist svc (utcnowStr date hour minute second) i
    CsvFaithful payload mode ∧ TxtFaithful payload mode ↔
      ∀ r ∈ matching payload mode, CellsClean r ∧ LineClean (exportedValue mode r) := by
  intro payload
  have hcsv : CsvFaithful payload mode ↔ _ := csvFaithful_iff fun r hr ↦ not_margin_of_strip (strip_exactIoc hr)
  have htxt : TxtFaithful payload mode ↔ _ :=
    txtFaithful_iff (newline_not_mem_utcnowStr date hour minute second) fun r hr ↦ txtLine?_eq hr
  rw [hcsv, htxt]
  constructor
  · exact fun h r hr ↦ ⟨h.1 r hr, h.2 r hr⟩
  · exact fun h ↦ ⟨fun r hr ↦ (h r hr).1, fun r hr ↦ (h r hr).2⟩

end

section

local instance exportTextInterp : Interp := ascii fun _ ↦ none

local instance exportTextUrls : Urls := ⟨fun _ ↦ none⟩

theorem year_bound : 2026 ≤ 9999 := by decide

theorem day_bound : 1 ≤ 31 := by decide

def firstOfMay : Date := ⟨2026, 5, 1, year_bound, by decide, day_bound⟩

/-- A ThreatFox domain whose malware name is a formula. -/
def formulaMalware : Inputs where
  infraRows := []
  catalogRows := [{ threatfoxDomain "bad.example".toList with malware := some "=1+1".toList }]
  otxRows := []

theorem malware_is_formula :
    ¬∀ (svc : Services Unit) (date : Date) (hour minute second : ℕ) (i : Inputs) (mode : ExportMode),
      CsvFaithful (buildBlocklist svc (utcnowStr date hour minute second) i) mode ∧
        TxtFaithful (buildBlocklist svc (utcnowStr date hour minute second) i) mode := by
  intro h
  have hcsv := (h quietServices firstOfMay 0 0 0 formulaMalware .all).1
  have hclean := (csvFaithful_iff fun r hr ↦ not_margin_of_strip (strip_exactIoc hr)).mp hcsv
  have hinert : ∀ r ∈ matching (buildBlocklist quietServices (utcnowStr firstOfMay 0 0 0) formulaMalware) .all,
      Inert ([';'].intercalate r.malware) := fun r hr ↦ (hclean r hr).malware.1
  revert hinert
  decide +kernel

end

end Briefr.Blocklist
