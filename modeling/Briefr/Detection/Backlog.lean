import Briefr.Detection.SigmaTemplates
import Briefr.Library.Runs
import Briefr.Library.SerialTable
import Briefr.Library.StableSort
import Briefr.Matching.StackAssets
import Briefr.Preferences.Stack
import Mathlib.Data.List.Lex
import Mathlib.Data.Prod.Lex
import Mathlib.Data.Rat.Defs

namespace Briefr.Detection.Backlog

open Briefr.Python Briefr.Library Briefr.Library.StableSort Briefr.Library.Runs Briefr.Matching.Cpe
  Briefr.Matching.StackAssets

/-- The keys of `TECHNIQUE_QUERIES`, less `DEFAULT`. -/
def techniqueQueryIds : List String :=
  ["T1190", "T1133", "T1059", "T1068", "T1055", "T1027", "T1110", "T1003", "T1021", "T1071", "T1095"]

def communityTechniques : List Text := (techniqueTemplates.map Prod.fst ++ techniqueQueryIds).map String.toList

/-- `_technique_prefix` of the Forge: the parent of a sub-technique. -/
def parentTechnique (techniqueId : Text) : Text := techniqueId.takeWhile fun c ↦ c != '.'

inductive Coverage
  | yours
  | community
  | gap
  deriving DecidableEq

def coverageStatus (packCount : ℕ) (techniqueId : Text) : Coverage :=
  if packCount > 0 then .yours
  else if parentTechnique techniqueId ∈ communityTechniques then .community
  else .gap

inductive Priority
  | critical
  | high
  | medium
  | low
  deriving DecidableEq

/-- The order of the listing. -/
def Priority.rank : Priority → ℕ
  | .critical => 0
  | .high => 1
  | .medium => 2
  | .low => 3

def derivePriority (isKev : Bool) (cvssScore epssScore : Option ℚ) : Priority :=
  let cvss := cvssScore.getD 0
  let epss := epssScore.getD 0
  if isKev then .critical
  else if cvss ≥ 9 ∨ epss ≥ 1 / 2 then .high
  else if cvss ≥ 7 ∨ epss ≥ 1 / 10 then .medium
  else .low

inductive Status
  | opened
  | dismissed
  deriving DecidableEq

/-- The values that `upsert_gap_items_for_cves` inserts; the status is always `open`. -/
structure GapItem where
  cveId : Text
  techniqueId : Text
  reason : Text
  priority : Priority
  stackTerms : Text
  techniqueName : Text
  createdAt : Text
  deriving DecidableEq

def GapItem.key (item : GapItem) : Text × Text × Text := (item.cveId, item.techniqueId, item.reason)

structure BacklogRow extends GapItem where
  id : ℕ
  status : Status
  dismissedAt : Option Text
  deriving DecidableEq

/-- `detection_backlog`, with its `UNIQUE (cve_id, technique_id, reason)`. -/
abbrev Table := SerialTable BacklogRow (Text × Text × Text) BacklogRow.id fun row ↦ row.key

def Table.keys (t : Table) : List (Text × Text × Text) := t.rows.map fun row ↦ row.key

def reasonKevGap : Text := "kev_gap"

/-- `executemany` of the INSERT. A row whose key is taken undoes the ones before it; the ids they drew stay used. -/
def executemany (rolledBack t : Table) : List GapItem → Except Table Table
  | [] => .ok t
  | item :: items =>
    if h : item.key ∈ t.rows.map fun row ↦ row.key then .error rolledBack.skip
    else executemany rolledBack.skip (t.insert ⟨item, t.nextId, .opened, none⟩ rfl h) items

def dismissRow (itemId : ℕ) (now : Text) (row : BacklogRow) : BacklogRow :=
  if row.id = itemId then { row with status := .dismissed, dismissedAt := some now } else row

theorem toGapItem_dismissRow (itemId : ℕ) (now : Text) (row : BacklogRow) :
    (dismissRow itemId now row).toGapItem = row.toGapItem := by
  rw [dismissRow]; split <;> rfl

theorem id_dismissRow (itemId : ℕ) (now : Text) (row : BacklogRow) : (dismissRow itemId now row).id = row.id := by
  rw [dismissRow]; split <;> rfl

theorem key_dismissRow (itemId : ℕ) (now : Text) (row : BacklogRow) : (dismissRow itemId now row).key = row.key :=
  congrArg GapItem.key (toGapItem_dismissRow itemId now row)

section
variable [Interp]

/-- A row of `cves`, with the columns that are read here. -/
structure CveRecord extends CveRow where
  severity : Option Text
  cvssScore : Option ℚ
  epssScore : Option ℚ
  isKev : Bool
  mitreTechnique : Option Text

/-- The tables that the backlog only reads; `mitre_techniques` and `kev_deadlines` by their primary keys, and of
`hunt_packs` the technique of each row. -/
structure Intel where
  cves : List CveRecord
  cveIds : (cves.map fun c ↦ c.cveId).Nodup
  cveTechniqueMap : List (Text × Text)
  mitreTechniques : Text → Option Text
  huntPacks : List Text
  kevDeadlines : Text → Option Text

def hits (assets : List Asset) (c : CveRecord) : Py Bool :=
  cveMatchesAssets (column c.cpeMatches) (column c.affectedProducts) assets

/-- The rows that match the assets. One that cannot be scored ends the loop. -/
def matching (assets : List Asset) : List CveRecord → Py (List CveRecord)
  | [] => .ok []
  | c :: cves => do
    let hit ← hits assets c
    let matched ← matching assets cves
    return if hit then c :: matched else matched

def normalizedIds (cveIds : List Text) : List Text := (cveIds.filter fun c ↦ c ≠ []).map upper

def filterCvesMatchingAssets (intel : Intel) (cveIds : List Text) (assets : List Asset) : Py (List CveRecord) :=
  if normalizedIds cveIds = [] ∨ assets = [] then .ok []
  else matching assets (intel.cves.filter fun c ↦ c.cveId ∈ normalizedIds cveIds)

/-- The parameters of `upsert_gap_items_for_cves`, and its locals as the statements set them. -/
structure Upsert where
  cveRows : List CveRecord
  stackTerms : Text
  reason : Text
  cveTechniques : List (Text × Text)
  packCounts : Text → ℕ
  techNames : Text → Option Text

namespace Upsert

def ids (u : Upsert) : List Text := u.cveRows.map fun c ↦ c.cveId

def allTechniques (u : Upsert) : List Text := u.cveTechniques.map Prod.snd

/-- The UNION of both sources of techniques. -/
def techRows (intel : Intel) (ids : List Text) : List (Text × Text) :=
  intel.cveTechniqueMap.filter (fun p ↦ p.1 ∈ ids) ++
    (intel.cves.filter fun c ↦ c.cveId ∈ ids ∧ c.mitreTechnique.getD [] ≠ []).map fun c ↦
      (c.cveId, c.mitreTechnique.getD [])

def fetchTechniques (u : Upsert) (intel : Intel) : Upsert :=
  { u with cveTechniques := ((techRows intel u.ids).map fun p ↦ (p.1, upper (strip p.2))).filter fun p ↦ p.2 ≠ [] }

def fetchPackCounts (u : Upsert) (intel : Intel) : Upsert :=
  { u with packCounts := fun tid ↦ if tid ∈ u.allTechniques then intel.huntPacks.count tid else 0 }

def fetchTechNames (u : Upsert) (intel : Intel) : Upsert :=
  { u with techNames := fun tid ↦ if tid ∈ u.allTechniques then intel.mitreTechniques tid else none }

/-- `sorted(cve_techniques.get(cve_id, set()))`. -/
def techniquesOf (u : Upsert) (cveId : Text) : List Text :=
  sortBy id ((u.cveTechniques.filter fun p ↦ p.1 = cveId).map Prod.snd).dedup

def isGap (u : Upsert) (existing : List (Text × Text)) (cveId techniqueId : Text) : Bool :=
  coverageStatus (u.packCounts techniqueId) techniqueId = .gap && decide ((cveId, techniqueId) ∉ existing)

def gapItem (u : Upsert) (now : Text) (c : CveRecord) (techniqueId : Text) : GapItem where
  cveId := c.cveId
  techniqueId := techniqueId
  reason := u.reason
  priority := derivePriority c.isKev c.cvssScore c.epssScore
  stackTerms := u.stackTerms
  techniqueName := if (u.techNames techniqueId).getD [] = [] then techniqueId else (u.techNames techniqueId).getD []
  createdAt := now

def toInsert (u : Upsert) (existing : List (Text × Text)) (now : Text) : List GapItem :=
  u.cveRows.flatMap fun c ↦ ((u.techniquesOf c.cveId).filter (u.isGap existing c.cveId)).map (u.gapItem now c)

/-- The SELECT of the rows that are there already. -/
def existingRows (u : Upsert) (t : Table) : List (Text × Text) :=
  (t.rows.filter fun row ↦ row.cveId ∈ u.ids ∧ row.reason = u.reason).map fun row ↦ (row.cveId, row.techniqueId)

/-- The SELECT of the rows just created. -/
def createdRows (u : Upsert) (t : Table) (now : Text) : List BacklogRow :=
  t.rows.filter fun row ↦ row.cveId ∈ u.ids ∧ row.reason = u.reason ∧ row.createdAt = now

end Upsert

/-- What a task returns: the rows it created, the row it dismissed, or nothing to dismiss; or it raises. -/
inductive Outcome
  | created (rows : List BacklogRow)
  | dismissed (row : BacklogRow)
  | notFound
  | raised

/-- Where a task stands: the statement that it sends next, with what the ones before returned. -/
inductive Task
  | newKev (newlyKevIds : List Text)
  | filterMatches (newlyKevIds : List Text) (assets : List Asset)
  | enrich (cveIds : List Text) (stackTerms : Text)
  | reconcile
  | scanKev (assets : List Asset)
  | techniques (u : Upsert)
  | packs (u : Upsert)
  | names (u : Upsert)
  | existing (u : Upsert)
  | insert (u : Upsert) (toInsert : List GapItem) (now : Text)
  | dismiss (itemId : ℕ)
  | update (itemId : ℕ)
  | ended (outcome : Outcome)

/-- The start of `upsert_gap_items_for_cves`. -/
def upsertGapItems (cveRows : List CveRecord) (stackTerms : Text) : Task :=
  if cveRows.isEmpty then .ended (.created [])
  else .techniques ⟨cveRows, stackTerms, reasonKevGap, [], fun _ ↦ 0, fun _ ↦ none⟩

structure State where
  backlog : Table
  intel : Intel
  preferences : Preferences.Stack.Db
  tasks : List Task

-- `env` is `BRIEFR_STACK_TERMS`
variable (env : Text)

def getOperatorStackAssets (now : Text) (db : Preferences.Stack.Db) : List Asset × Preferences.Stack.Db :=
  Preferences.Stack.getAlertStackAssets env now (Preferences.Stack.migrateEnvStackTermsOnce env now db)

def stackOf (assets : List Asset) : Text := [','].intercalate (Preferences.Stack.assetsToTerms assets)

/-- A task sends its next statement. -/
def proceed (now : Text) (s : State) : Task → State × Task
  | .newKev ids =>
    let (assets, preferences) := getOperatorStackAssets env now s.preferences
    ({ s with preferences }, if assets = [] then .ended (.created []) else .filterMatches ids assets)
  | .filterMatches ids assets =>
    match filterCvesMatchingAssets s.intel ids assets with
    | .error _ => (s, .ended .raised)
    | .ok matched =>
      (s, if matched.isEmpty then .ended (.created []) else .enrich (matched.map fun c ↦ c.cveId) (stackOf assets))
  | .enrich ids stackTerms => (s, upsertGapItems (s.intel.cves.filter fun c ↦ c.cveId ∈ ids) stackTerms)
  | .reconcile =>
    let (assets, preferences) := getOperatorStackAssets env now s.preferences
    ({ s with preferences }, if assets = [] then .ended (.created []) else .scanKev assets)
  | .scanKev assets =>
    match matching assets (s.intel.cves.filter fun c ↦ c.isKev) with
    | .error _ => (s, .ended .raised)
    | .ok matched => (s, upsertGapItems matched (stackOf assets))
  | .techniques u =>
    let u := u.fetchTechniques s.intel
    (s, if u.allTechniques = [] then .ended (.created []) else .packs u)
  | .packs u => (s, .names (u.fetchPackCounts s.intel))
  | .names u => (s, .existing (u.fetchTechNames s.intel))
  | .existing u =>
    let items := u.toInsert (u.existingRows s.backlog) now
    (s, if items = [] then .ended (.created []) else .insert u items now)
  | .insert u items now =>
    match executemany s.backlog s.backlog items with
    | .error backlog => ({ s with backlog }, .ended .raised)
    | .ok backlog =>
      -- the caller commits only when rows come back
      if u.createdRows backlog now = [] then (s, .ended (.created []))
      else ({ s with backlog }, .ended (.created (u.createdRows backlog now)))
  | .dismiss itemId =>
    match s.backlog.rows.find? fun row ↦ row.id = itemId with
    | none => (s, .ended .notFound)
    -- the two columns of a row that is dismissed already are not enough for the response: KeyError
    | some row => (s, if row.status = .dismissed then .ended .raised else .update itemId)
  | .update itemId =>
    let backlog := s.backlog.update (dismissRow itemId now) (id_dismissRow itemId now) (key_dismissRow itemId now)
    match backlog.rows.find? fun row ↦ row.id = itemId with
    | none => (s, .ended .notFound)
    | some row => ({ s with backlog }, .ended (.dismissed row))
  | .ended outcome => (s, .ended outcome)

/-- A call of `process_new_kev_backlog`, of `reconcile_kev_backlog` or of the dismiss route. -/
inductive Call
  | processNewKevBacklog (newlyKevIds : List Text)
  | reconcileKevBacklog
  | dismissBacklogItem (itemId : ℕ)

def Call.task : Call → Task
  | .processNewKevBacklog newlyKevIds => if newlyKevIds = [] then .ended (.created []) else .newKev newlyKevIds
  | .reconcileKevBacklog => .reconcile
  | .dismissBacklogItem itemId => .dismiss itemId

/-- Other jobs and requests write the tables and preferences that are read here; a task begins, sends its next statement,
or is ended by an exception. -/
inductive Event
  | intel (intel : Intel)
  | preferences (preferences : Preferences.Stack.Db)
  | call (call : Call)
  | advance (task : ℕ) (now : Text)
  | raised (task : ℕ)

def step (s : State) : Event → State
  | .intel intel => { s with intel }
  | .preferences preferences => { s with preferences }
  | .call call => { s with tasks := s.tasks ++ [call.task] }
  | .advance k now =>
    match s.tasks[k]? with
    | none => s
    | some task =>
      let (s', task') := proceed env now s task
      { s' with tasks := s.tasks.set k task' }
  | .raised k =>
    match s.tasks[k]? with
    | none | some (.ended _) => s
    | some _ => { s with tasks := s.tasks.set k (.ended .raised) }

/-- A row of the listing, with the columns of its CVE, if there is one. -/
structure Listed where
  row : BacklogRow
  cve : Option CveRecord
  kevDueDate : Option Text

/-- The status that is asked for; `all` asks for none. -/
def statusFilter (status : Text) : Option Status :=
  let norm := lower (strip (if status = [] then "open".toList else status))
  if norm = "all".toList then none else if norm = "dismissed".toList then some .dismissed else some .opened

/-- `ORDER BY` the priority and `created_at DESC`. -/
def listKey (row : BacklogRow) : ℕ ×ₗ Textᵒᵈ := toLex (row.priority.rank, OrderDual.toDual row.createdAt)

def listBacklogItems (s : State) (status stack : Text) : List Listed :=
  let asked := s.backlog.rows.filter fun row ↦
    (statusFilter status).all (row.status = ·) && (strip stack = [] || decide (row.stackTerms = strip stack))
  (sortBy listKey asked).map fun row ↦
    ⟨row, s.intel.cves.find? fun c ↦ c.cveId = row.cveId, s.intel.kevDeadlines row.cveId⟩

/-- The rows that the route lists: of the stack asked for, or of the operator's. -/
def getDetectionBacklog (now : Text) (s : State) (status stack : Text) : List Listed × State :=
  if strip stack ≠ [] then (listBacklogItems s status stack, s)
  else
    let (terms, preferences) := Preferences.Stack.getEffectiveStackTerms env now s.preferences
    (listBacklogItems { s with preferences } status terms, { s with preferences })

end

section
variable {t t' rolledBack : Table} {items : List GapItem}

theorem executemany_ok (h : executemany rolledBack t items = .ok t') :
    ∃ new : List BacklogRow, t'.rows = t.rows ++ new ∧ new.map BacklogRow.toGapItem = items ∧
      ∀ row ∈ new, row.status = .opened := by
  induction items generalizing rolledBack t with
  | nil =>
    obtain rfl := Except.ok.inj h
    exact ⟨[], (List.append_nil _).symm, rfl, fun row hrow ↦ absurd hrow List.not_mem_nil⟩
  | cons item items ih =>
    rw [executemany] at h
    split at h
    next => cases h
    next hkey =>
      obtain ⟨new, hrows, hitems, hopened⟩ := ih h
      refine ⟨⟨item, t.nextId, .opened, none⟩ :: new, ?_, congrArg (item :: ·) hitems, fun row hrow ↦ ?_⟩
      · rw [hrows, SerialTable.rows_insert, List.append_assoc]
        rfl
      · rcases List.mem_cons.mp hrow with rfl | hrow
        · rfl
        · exact hopened row hrow

theorem executemany_error (h : executemany rolledBack t items = .error t') : t'.rows = rolledBack.rows := by
  induction items generalizing rolledBack t with
  | nil => cases h
  | cons item items ih =>
    rw [executemany] at h
    split at h
    next =>
      obtain rfl := Except.error.inj h
      rfl
    next => exact (ih h).trans (SerialTable.rows_skip rolledBack)

theorem keys_insert {row : BacklogRow} (hid : row.id = t.nextId) (hkey : row.key ∉ t.rows.map fun row ↦ row.key) :
    Table.keys (t.insert row hid hkey) = t.keys ++ [row.key] := by
  rw [Table.keys, SerialTable.rows_insert, List.map_append]
  rfl

/-- Rows of distinct keys are all inserted, unless one of the keys is taken. -/
theorem executemany_raises_iff (hnodup : (items.map GapItem.key).Nodup) :
    (∃ t', executemany rolledBack t items = .error t') ↔ ∃ item ∈ items, item.key ∈ t.keys := by
  induction items generalizing rolledBack t with
  | nil =>
    constructor
    · rintro ⟨t', h⟩
      cases h
    · rintro ⟨item, h, -⟩
      cases h
  | cons item items ih =>
    obtain ⟨hnew, hnodup⟩ := List.nodup_cons.mp hnodup
    rw [executemany]
    split
    next hkey => exact ⟨fun _ ↦ ⟨item, .head _, hkey⟩, fun _ ↦ ⟨_, rfl⟩⟩
    next hkey =>
      rw [ih hnodup, keys_insert]
      constructor
      · rintro ⟨other, hother, htaken⟩
        rcases List.mem_append.mp htaken with htaken | hsame
        · exact ⟨other, .tail _ hother, htaken⟩
        · exact absurd (List.mem_singleton.mp hsame ▸ List.mem_map_of_mem hother) hnew
      · rintro ⟨other, hother, htaken⟩
        rcases List.mem_cons.mp hother with rfl | hother
        · exact absurd htaken hkey
        · exact ⟨other, hother, List.mem_append_left _ htaken⟩

/-- A row keeps what it was created with, and stays dismissed. -/
structure Keeps (row row' : BacklogRow) : Prop where
  item : row'.toGapItem = row.toGapItem
  id : row'.id = row.id
  dismissed : row.status = .dismissed → row'.status = .dismissed

theorem Keeps.refl (row : BacklogRow) : Keeps row row := ⟨rfl, rfl, fun h ↦ h⟩

theorem Keeps.trans {row row' row'' : BacklogRow} (h : Keeps row row') (h' : Keeps row' row'') : Keeps row row'' :=
  ⟨h'.item.trans h.item, h'.id.trans h.id, fun hd ↦ h'.dismissed (h.dismissed hd)⟩

theorem keeps_dismissRow (itemId : ℕ) (now : Text) (row : BacklogRow) : Keeps row (dismissRow itemId now row) := by
  refine ⟨toGapItem_dismissRow itemId now row, id_dismissRow itemId now row, fun hd ↦ ?_⟩
  rw [dismissRow]
  split
  · rfl
  · exact hd

/-- Every row is kept, and the new ones are open rows of the items. -/
def Grows (items : List GapItem) (t t' : Table) : Prop :=
  ∃ (f : BacklogRow → BacklogRow) (new : List BacklogRow), t'.rows = t.rows.map f ++ new ∧ (∀ row, Keeps row (f row)) ∧
    ∀ row ∈ new, row.toGapItem ∈ items ∧ row.status = .opened

theorem Grows.of_rows_eq (h : t'.rows = t.rows) : Grows items t t' :=
  ⟨id, [], by rw [h, List.map_id, List.append_nil], Keeps.refl, fun _ hrow ↦ absurd hrow List.not_mem_nil⟩

theorem Grows.kept (h : Grows items t t') {row : BacklogRow} (hrow : row ∈ t.rows) :
    ∃ row' ∈ t'.rows, Keeps row row' := by
  obtain ⟨f, new, hrows, hkeeps, -⟩ := h
  exact ⟨f row, hrows ▸ List.mem_append_left _ (List.mem_map_of_mem hrow), hkeeps row⟩

/-- A row that is there afterwards was there, or is new. -/
theorem Grows.mem (h : Grows items t t') {row' : BacklogRow} (hrow : row' ∈ t'.rows) :
    (∃ row ∈ t.rows, Keeps row row') ∨ (row'.toGapItem ∈ items ∧ row'.status = .opened) := by
  obtain ⟨f, new, hrows, hkeeps, hnew⟩ := h
  rw [hrows] at hrow
  rcases List.mem_append.mp hrow with hold | hrow
  · obtain ⟨row, hmem, rfl⟩ := List.mem_map.mp hold
    exact .inl ⟨row, hmem, hkeeps row⟩
  · exact .inr (hnew row' hrow)

theorem Grows.keys (h : Grows items t t') {key : Text × Text × Text} (hkey : key ∈ t.keys) : key ∈ t'.keys := by
  obtain ⟨row, hrow, rfl⟩ := List.mem_map.mp hkey
  obtain ⟨row', hrow', hkeeps⟩ := h.kept hrow
  exact List.mem_map.mpr ⟨row', hrow', congrArg GapItem.key hkeeps.item⟩

end

section
variable [Interp] {env : Text} {now : Text} {s : State}

/-- The items that a task is about to insert. -/
def Task.items : Task → List GapItem
  | .insert _ toInsert _ => toInsert
  | _ => []

theorem proceed_grows (task : Task) : Grows task.items s.backlog (proceed env now s task).1.backlog := by
  have hsame : ∀ {items : List GapItem} {t : Table}, t = s.backlog → Grows items s.backlog t := by
    rintro items t rfl
    exact .of_rows_eq rfl
  cases task with
  | newKev ids => exact hsame rfl
  | reconcile => exact hsame rfl
  | enrich ids stackTerms => exact hsame rfl
  | techniques u => exact hsame rfl
  | packs u => exact hsame rfl
  | names u => exact hsame rfl
  | existing u => exact hsame rfl
  | ended outcome => exact hsame rfl
  | filterMatches ids assets =>
    rw [proceed]
    split <;> exact hsame rfl
  | scanKev assets =>
    rw [proceed]
    split <;> exact hsame rfl
  | dismiss itemId =>
    rw [proceed]
    split <;> exact hsame rfl
  | update itemId =>
    rw [proceed]
    split
    · exact hsame rfl
    · exact ⟨dismissRow itemId now, [], (List.append_nil _).symm, keeps_dismissRow itemId now,
        fun _ hrow ↦ absurd hrow List.not_mem_nil⟩
  | insert u items createdAt =>
    rw [proceed]
    split
    next t' h => exact .of_rows_eq (executemany_error h)
    next t' h =>
      split
      · exact hsame rfl
      · obtain ⟨new, hrows, hitems, hopened⟩ := executemany_ok h
        refine ⟨fun row ↦ row, new, by rw [hrows, List.map_id'], Keeps.refl, fun row hrow ↦ ⟨?_, hopened row hrow⟩⟩
        exact hitems ▸ List.mem_map_of_mem hrow

/-- The items that an event may insert. -/
def State.inserting (s : State) : Event → List GapItem
  | .advance k _ => (s.tasks[k]?).elim [] Task.items
  | _ => []

theorem step_grows (env : Text) (e : Event) : Grows (s.inserting e) s.backlog (step env s e).backlog := by
  cases e with
  | intel intel => exact .of_rows_eq rfl
  | preferences preferences => exact .of_rows_eq rfl
  | call call => exact .of_rows_eq rfl
  | raised k =>
    rw [step]
    split <;> exact .of_rows_eq rfl
  | advance k now =>
    rw [step, State.inserting]
    split
    next => exact .of_rows_eq rfl
    next task htask =>
      rw [htask]
      exact proceed_grows task

theorem run_kept (env : Text) {row : BacklogRow} (events : List Event) (hrow : row ∈ s.backlog.rows) :
    ∃ row' ∈ (run (step env) s events).backlog.rows, Keeps row row' := by
  induction events generalizing s row with
  | nil => exact ⟨row, hrow, .refl row⟩
  | cons e events ih =>
    obtain ⟨row', hrow', hkeeps⟩ := (step_grows env e).kept hrow
    obtain ⟨row'', hrow'', hkeeps'⟩ := ih hrow'
    exact ⟨row'', hrow'', hkeeps.trans hkeeps'⟩

theorem mem_listBacklogItems {status stack : Text} {item : Listed} (h : item ∈ listBacklogItems s status stack) :
    item.row ∈ s.backlog.rows ∧ ∀ asked, statusFilter status = some asked → item.row.status = asked := by
  obtain ⟨row, hrow, rfl⟩ := List.mem_map.mp h
  obtain ⟨hmem, hasked⟩ := List.mem_filter.mp ((perm_sortBy listKey _).mem_iff.mp hrow)
  refine ⟨hmem, fun asked hstatus ↦ ?_⟩
  rw [hstatus] at hasked
  exact of_decide_eq_true (Bool.and_eq_true_iff.mp hasked).1

/-- The gap of a dismissed row has no other row in any later listing, and none among the open ones. -/
theorem dismissed_for_good {row : BacklogRow} (hrow : row ∈ s.backlog.rows) (hdismissed : row.status = .dismissed)
    (events : List Event) (now status stack : Text) {item : Listed}
    (hitem : item ∈ (getDetectionBacklog env now (run (step env) s events) status stack).1)
    (hkey : item.row.key = row.key) :
    item.row.id = row.id ∧ item.row.status = .dismissed ∧ statusFilter status ≠ some .opened := by
  obtain ⟨row', hrow', hkeeps⟩ := run_kept env events hrow
  have hlisted : item.row ∈ (run (step env) s events).backlog.rows ∧
      ∀ asked, statusFilter status = some asked → item.row.status = asked := by
    rw [getDetectionBacklog] at hitem
    split at hitem
    · exact mem_listBacklogItems hitem
    · exact mem_listBacklogItems hitem
  have hsame : item.row = row' :=
    SerialTable.eq_of_key _ hlisted.1 hrow' (hkey.trans (congrArg GapItem.key hkeeps.item).symm)
  have hstatus : item.row.status = .dismissed := hsame ▸ hkeeps.dismissed hdismissed
  refine ⟨hsame ▸ hkeeps.id, hstatus, fun hopen ↦ ?_⟩
  rw [hlisted.2 _ hopen] at hstatus
  cases hstatus

end

section

def nginxProducts : Text := "[\"f5:nginx\"]"

@[reducible] def nginxInterp : Interp :=
  ascii fun s ↦ if s = nginxProducts then some (.list [.str "f5:nginx"]) else none

local instance : Interp := nginxInterp

/-- A known exploited vulnerability of nginx, by a technique that no template covers. -/
def nginxKev : CveRecord where
  cveId := "CVE-2024-2001"
  cpeMatches := none
  affectedProducts := some nginxProducts
  cpe_list s v hs _ := nomatch hs
  affected_list s v hs hv := by
    cases hs
    exact ⟨["f5:nginx"], (Option.some.inj hv).symm⟩
  severity := some "HIGH".toList
  cvssScore := some (81 / 10)
  epssScore := some (2 / 5)
  isKev := true
  mitreTechnique := some "T1566".toList

def nginxIntel : Intel where
  cves := [nginxKev]
  cveIds := List.nodup_singleton _
  cveTechniqueMap := []
  mitreTechniques tid := if tid = "T1566".toList then some "Phishing".toList else none
  huntPacks := []
  kevDeadlines _ := none

/-- One operator with nginx on the stack, and nothing in the backlog yet. -/
def nginxStart : State where
  backlog := .empty
  intel := nginxIntel
  preferences :=
    { users := [⟨1, "admin", true⟩]
      preferences := fun id ↦ if id = 1 then some { Preferences.Stack.Row.default with stackTerms := "nginx" } else none
      stackEnvMigrated := some "1".toList }
  tasks := []

/-- The statements of one task, sent at one time. -/
def statements (task : ℕ) (n : ℕ) (now : Text) : List Event := List.replicate n (.advance task now)

def monday : Text := "2026-06-01 03:30:00"

/-- A weekly pass makes a row for the gap, and the operator dismisses it. -/
def dismissedGap : State :=
  run (step []) nginxStart (.call .reconcileKevBacklog :: statements 0 7 monday ++
    .call (.dismissBacklogItem 1) :: statements 1 2 "2026-06-02 09:00:00")

def phishingGap : GapItem :=
  ⟨"CVE-2024-2001", "T1566", reasonKevGap, .critical, "nginx", "Phishing", monday⟩

def phishingRow : BacklogRow := ⟨phishingGap, 1, .dismissed, some "2026-06-02 09:00:00".toList⟩

def laterPass : List Event := .call .reconcileKevBacklog :: statements 2 7 "2026-06-08 03:30:00"

theorem phishing_gap_listed :
    ∃ item ∈ (getDetectionBacklog [] monday (run (step []) dismissedGap laterPass) "all" "nginx").1,
    item.row.id = phishingRow.id ∧ item.row.status = .dismissed ∧ statusFilter "all" ≠ some .opened := by
  have hrow : phishingRow ∈ dismissedGap.backlog.rows := by decide +kernel
  have hlisted : (⟨phishingRow, some nginxKev, none⟩ : Listed) ∈
      (getDetectionBacklog [] monday (run (step []) dismissedGap laterPass) "all" "nginx").1 := .head _
  exact ⟨_, hlisted, dismissed_for_good hrow rfl laterPass monday "all" "nginx" hlisted rfl⟩

end

end Briefr.Detection.Backlog
