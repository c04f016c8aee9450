import Mathlib.Data.List.Basic

namespace Briefr.Library.Csv

/-- A character that makes the writer quote a field. -/
def special (c : Char) : Bool := c == ',' || c == '"' || c == '\n' || c == '\r'

def doubled (field : List Char) : List Char := field.flatMap fun c ↦ if c = '"' then ['"', '"'] else [c]

def writeField (field : List Char) : List Char :=
  if field.any special then '"' :: (doubled field ++ ['"']) else field

def joinFields : List (List Char) → List Char
  | [] => []
  | [field] => writeField field
  | field :: fields => writeField field ++ ',' :: joinFields fields

/-- A line of fields. A single empty field is quoted, so that the line is not empty. -/
def writeRow (row : List (List Char)) : List Char :=
  if row = [[]] then ['"', '"', '\n'] else joinFields row ++ ['\n']

def write (rows : List (List (List Char))) : List Char := rows.flatMap writeRow

inductive State
  | startRecord
  | startField
  | inField
  | inQuotedField
  | quoteInQuotedField
  | eatNewline

/-- What the reader has of the current field, of the current row, and the rows before. -/
structure Reader where
  state : State
  field : List Char
  fields : List (List Char)
  rows : List (List (List Char))

namespace Reader

def init : Reader := ⟨.startRecord, [], [], []⟩

def save (r : Reader) (state : State) : Reader := { r with state, field := [], fields := r.fields ++ [r.field] }

def push (r : Reader) (state : State) (c : Char) : Reader := { r with state, field := r.field ++ [c] }

def startField (r : Reader) (c : Char) : Reader :=
  if c = '\n' ∨ c = '\r' then r.save .eatNewline
  else if c = '"' then { r with state := .inQuotedField }
  else if c = ',' then r.save .startField
  else r.push .inField c

/-- A character of a line; `none` is a character after the carriage return that ends a row. -/
def step (r : Reader) (c : Char) : Option Reader :=
  match r.state with
  | .startRecord => some (if c = '\n' ∨ c = '\r' then { r with state := .eatNewline } else r.startField c)
  | .startField => some (r.startField c)
  | .inField =>
    some (if c = '\n' ∨ c = '\r' then r.save .eatNewline else if c = ',' then r.save .startField else r.push .inField c)
  | .inQuotedField => some (if c = '"' then { r with state := .quoteInQuotedField } else r.push .inQuotedField c)
  | .quoteInQuotedField =>
    some (if c = '"' then r.push .inQuotedField c
      else if c = ',' then r.save .startField
      else if c = '\n' ∨ c = '\r' then r.save .eatNewline
      else r.push .inField c)
  | .eatNewline => if c = '\n' ∨ c = '\r' then some r else none

def emit (r : Reader) : Reader := ⟨.startRecord, [], [], r.rows ++ [r.fields]⟩

/-- The end of a line, where a row ends unless a quoted field goes on. -/
def endLine (r : Reader) : Reader :=
  match r.state with
  | .startRecord | .eatNewline => r.emit
  | .startField | .inField | .quoteInQuotedField => (r.save .startRecord).emit
  | .inQuotedField => r

/-- The end of the text. -/
def finish (r : Reader) : List (List (List Char)) :=
  match r.state with
  | .startRecord => r.rows
  | .eatNewline => r.emit.rows
  | .startField | .inField | .quoteInQuotedField | .inQuotedField => (r.save .startRecord).emit.rows

def read (r : Reader) : List Char → Option (List (List (List Char)))
  | [] => some r.finish
  | c :: text => (r.step c).bind fun r ↦ if c = '\n' then r.endLine.read text else r.read text

end Reader

/-- The rows of a text. -/
def parse (text : List Char) : Option (List (List (List Char))) := Reader.init.read text

namespace Reader

theorem read_cons {r r' : Reader} {c : Char} (hstep : r.step c = some r') (hc : c ≠ '\n') (text : List Char) :
    r.read (c :: text) = r'.read text := by
  rw [read, hstep, Option.bind_some, if_neg hc]

theorem read_newline {r r' : Reader} (hstep : r.step '\n' = some r') (text : List Char) :
    r.read ('\n' :: text) = r'.endLine.read text := by
  rw [read, hstep, Option.bind_some, if_pos rfl]

theorem read_plain {field : List Char} (hfield : field.any special = false) (fields : List (List Char))
    (rows : List (List (List Char))) (before text : List Char) :
    (Reader.mk .inField before fields rows).read (field ++ text) =
      (Reader.mk .inField (before ++ field) fields rows).read text := by
  induction field generalizing before with
  | nil => rw [List.append_nil, List.nil_append]
  | cons c field ih =>
    obtain ⟨hc, hfield⟩ := Bool.or_eq_false_iff.mp hfield
    have hnot : c ≠ ',' ∧ c ≠ '\n' ∧ c ≠ '\r' := by
      simp only [special, Bool.or_eq_false_iff, beq_eq_false_iff_ne] at hc
      exact ⟨hc.1.1.1, hc.1.2, hc.2⟩
    have hstep : (Reader.mk .inField before fields rows).step c = some ⟨.inField, before ++ [c], fields, rows⟩ := by
      simp [step, push, hnot]
    rw [List.cons_append, read_cons hstep hnot.2.1, ih hfield, List.append_assoc]
    rfl

/-- Inside quotes every character is kept, line breaks too, and a doubled quote is one. -/
theorem read_quoted (field : List Char) (fields : List (List Char)) (rows : List (List (List Char)))
    (before text : List Char) :
    (Reader.mk .inQuotedField before fields rows).read (doubled field ++ text) =
      (Reader.mk .inQuotedField (before ++ field) fields rows).read text := by
  induction field generalizing before with
  | nil => rw [doubled, List.flatMap_nil, List.append_nil, List.nil_append]
  | cons c field ih =>
    have hrest : before ++ c :: field = before ++ [c] ++ field := by rw [List.append_assoc]; rfl
    rw [doubled, List.flatMap_cons, hrest, ← ih]
    by_cases hquote : c = '"'
    · subst hquote
      have hopen : (Reader.mk .inQuotedField before fields rows).step '"' =
          some ⟨.quoteInQuotedField, before, fields, rows⟩ := rfl
      have hclose : (Reader.mk .quoteInQuotedField before fields rows).step '"' =
          some ⟨.inQuotedField, before ++ ['"'], fields, rows⟩ := rfl
      rw [if_pos rfl, List.append_assoc, List.cons_append, List.cons_append, List.nil_append,
        read_cons hopen (by decide), read_cons hclose (by decide)]
      rfl
    · have hstep : (Reader.mk .inQuotedField before fields rows).step c =
          some ⟨.inQuotedField, before ++ [c], fields, rows⟩ := by
        simp [step, push, hquote]
      rw [if_neg hquote, List.append_assoc, List.cons_append, List.nil_append]
      by_cases hnewline : c = '\n'
      · subst hnewline
        rw [read_newline hstep]
        rfl
      · rw [read_cons hstep hnewline]
        rfl

/-- Where a field has been read up to what ends it. -/
theorem read_field (field : List Char) (fields : List (List Char)) (rows : List (List (List Char)))
    (text : List Char) :
    ∃ state, (state = .startField ∨ state = .inField ∨ state = .quoteInQuotedField) ∧
      (Reader.mk .startField [] fields rows).read (writeField field ++ text) =
        (Reader.mk state field fields rows).read text := by
  rw [writeField]
  split
  next hspecial =>
    refine ⟨.quoteInQuotedField, .inr (.inr rfl), ?_⟩
    have hopen : (Reader.mk .startField [] fields rows).step '"' = some ⟨.inQuotedField, [], fields, rows⟩ := rfl
    have hclose : (Reader.mk .inQuotedField field fields rows).step '"' =
        some ⟨.quoteInQuotedField, field, fields, rows⟩ := rfl
    rw [List.cons_append, read_cons hopen (by decide), List.append_assoc, read_quoted, List.nil_append,
      List.cons_append, read_cons hclose (by decide), List.nil_append]
  next hplain =>
    cases field with
    | nil => exact ⟨.startField, .inl rfl, rfl⟩
    | cons c field =>
      refine ⟨.inField, .inr (.inl rfl), ?_⟩
      rw [Bool.not_eq_true] at hplain
      obtain ⟨hc, hfield⟩ := Bool.or_eq_false_iff.mp hplain
      have hnot : c ≠ ',' ∧ c ≠ '"' ∧ c ≠ '\n' ∧ c ≠ '\r' := by
        simp only [special, Bool.or_eq_false_iff, beq_eq_false_iff_ne] at hc
        exact ⟨hc.1.1.1, hc.1.1.2, hc.1.2, hc.2⟩
      have hstep : (Reader.mk .startField [] fields rows).step c = some ⟨.inField, [c], fields, rows⟩ := by
        simp [step, startField, push, hnot]
      rw [List.cons_append, read_cons hstep hnot.2.2.1, read_plain hfield]
      rfl

theorem read_field_comma (field : List Char) (fields : List (List Char)) (rows : List (List (List Char)))
    (text : List Char) :
    (Reader.mk .startField [] fields rows).read (writeField field ++ ',' :: text) =
      (Reader.mk .startField [] (fields ++ [field]) rows).read text := by
  obtain ⟨state, hstate, hread⟩ := read_field field fields rows (',' :: text)
  have hstep : (Reader.mk state field fields rows).step ',' = some ⟨.startField, [], fields ++ [field], rows⟩ := by
    rcases hstate with rfl | rfl | rfl <;> rfl
  rw [hread, read_cons hstep (by decide)]

theorem read_field_newline (field : List Char) (fields : List (List Char)) (rows : List (List (List Char)))
    (text : List Char) :
    (Reader.mk .startField [] fields rows).read (writeField field ++ '\n' :: text) =
      (Reader.mk .startRecord [] [] (rows ++ [fields ++ [field]])).read text := by
  obtain ⟨state, hstate, hread⟩ := read_field field fields rows ('\n' :: text)
  have hstep : (Reader.mk state field fields rows).step '\n' = some ⟨.eatNewline, [], fields ++ [field], rows⟩ := by
    rcases hstate with rfl | rfl | rfl <;> rfl
  rw [hread, read_newline hstep]
  rfl

theorem read_fields {row : List (List Char)} (hrow : row ≠ []) (fields : List (List Char))
    (rows : List (List (List Char))) (text : List Char) :
    (Reader.mk .startField [] fields rows).read (joinFields row ++ '\n' :: text) =
      (Reader.mk .startRecord [] [] (rows ++ [fields ++ row])).read text := by
  induction row generalizing fields with
  | nil => exact absurd rfl hrow
  | cons field row ih =>
    cases row with
    | nil => exact read_field_newline field fields rows text
    | cons next row =>
      rw [joinFields, List.append_assoc, List.cons_append, read_field_comma, ih (List.cons_ne_nil _ _),
        List.append_assoc]
      · rfl
      · exact List.cons_ne_nil _ _

/-- The first character of a line that is not empty decides nothing else at the start of a row. -/
theorem read_startRecord {c : Char} (hc : c ≠ '\n' ∧ c ≠ '\r') (rows : List (List (List Char))) (text : List Char) :
    (Reader.mk .startRecord [] [] rows).read (c :: text) = (Reader.mk .startField [] [] rows).read (c :: text) := by
  have hstep : (Reader.mk .startRecord [] [] rows).step c = (Reader.mk .startField [] [] rows).step c := by
    simp [step, startField, hc, save, push]
  rw [read, read, hstep]

/-- The text of a row with more than one empty field starts with no line break. -/
theorem joinFields_head {row : List (List Char)} (hrow : row ≠ []) (hempty : row ≠ [[]]) :
    ∃ c text, joinFields row = c :: text ∧ c ≠ '\n' ∧ c ≠ '\r' := by
  have hfield : ∀ field : List Char, field ≠ [] → ∃ c text, writeField field = c :: text ∧ c ≠ '\n' ∧ c ≠ '\r' := by
    intro field hne
    rw [writeField]
    split
    next => exact ⟨'"', _, rfl, by decide⟩
    next hplain =>
      cases field with
      | nil => exact absurd rfl hne
      | cons c field =>
        rw [Bool.not_eq_true] at hplain
        have hc := (Bool.or_eq_false_iff.mp hplain).1
        simp only [special, Bool.or_eq_false_iff, beq_eq_false_iff_ne] at hc
        exact ⟨c, field, rfl, hc.1.2, hc.2⟩
  cases row with
  | nil => exact absurd rfl hrow
  | cons field row =>
    cases row with
    | nil => exact hfield field fun hnil ↦ hempty (by rw [hnil])
    | cons next row =>
      rw [joinFields]
      · cases field with
        | nil => exact ⟨',', _, rfl, by decide⟩
        | cons c field =>
          obtain ⟨d, text, heq, hd⟩ := hfield (c :: field) (List.cons_ne_nil _ _)
          exact ⟨d, text ++ ',' :: joinFields (next :: row), by rw [heq]; rfl, hd⟩
      · exact List.cons_ne_nil _ _

theorem read_row {row : List (List Char)} (hrow : row ≠ []) (rows : List (List (List Char))) (text : List Char) :
    (Reader.mk .startRecord [] [] rows).read (writeRow row ++ text) =
      (Reader.mk .startRecord [] [] (rows ++ [row])).read text := by
  rw [writeRow]
  split
  next hempty =>
    rw [hempty]
    rfl
  next hempty =>
    obtain ⟨c, line, hline, hc⟩ := joinFields_head hrow hempty
    have hread := read_fields hrow [] rows text
    rw [hline] at hread ⊢
    rw [List.append_assoc, List.cons_append, read_startRecord hc, ← List.cons_append]
    exact hread

end Reader

/-- What is written is read back, whatever the fields hold. -/
theorem parse_write {rows : List (List (List Char))} (hrows : ∀ row ∈ rows, row ≠ []) : parse (write rows) = some rows := by
  have hread : ∀ before, (Reader.mk .startRecord [] [] before).read (write rows) = some (before ++ rows) := by
    induction rows with
    | nil => exact fun before ↦ by rw [List.append_nil]; rfl
    | cons row rows ih =>
      obtain ⟨hrow, hrest⟩ := List.forall_mem_cons.mp hrows
      intro before
      rw [write, List.flatMap_cons, Reader.read_row hrow]
      rw [write] at ih
      rw [ih hrest, List.append_assoc]
      rfl
  exact hread []

end Briefr.Library.Csv
