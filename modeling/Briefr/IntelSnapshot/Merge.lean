import Briefr.Library.SqlMerge
import Mathlib.Data.Int.Notation

namespace Briefr.IntelSnapshot

open Briefr.Library Briefr.Library.Sql

/-- Columns and tables go by their names, values by their text. -/
abbrev Row := Sql.Row String String
abbrev TableDef := Sql.TableDef String String String
abbrev Table := Sql.Table String String String
abbrev Schema := Sql.Schema String String String

def intelTables : List String := [
  "cves", "kev_deadlines", "epss_history", "cve_change_history", "mitre_techniques", "cve_technique_map",
  "atlas_techniques", "atlas_case_studies", "cve_atlas_map", "cve_exploits", "otx_pulses", "otx_cve_pulses",
  "otx_pulse_iocs", "detection_rules", "detection_rule_cves", "detection_rule_techniques", "correlation_actor",
  "correlation_temporal", "correlation_campaigns", "correlation_campaign_members", "correlation_cve_snapshot",
  "cve_embeddings", "embeddings", "mitre_groups", "group_technique_map", "pulse_families", "ioc_degree",
  "software_catalog", "feed_cache", "sync_state", "publications", "publication_entity_links", "publication_events",
  "publication_event_members", "publication_actors", "publication_actor_links"]

def appTables : List String := [
  "users", "sessions", "user_preferences", "app_settings", "ioc_cache", "ioc_watchlist", "threatfox_iocs",
  "ti_mirror_iocs", "infra_classifications", "watchlist", "audit_log", "api_usage", "api_call_events",
  "webhook_destinations", "webhook_delivery_log", "webhook_alert_log", "webhook_destination_dedupe",
  "correlation_suppressions", "correlation_feedback", "hunt_packs", "detection_backlog", "user_notifications",
  "search_api_tokens", "ai_operations", "ai_operation_payloads", "stack_backfill_runs", "stack_backfill_checkpoints",
  "correlation_metrics", "resource_metrics"]

/-- Parents before children. -/
def intelTableMoveOrder : List String := [
  "cves", "kev_deadlines", "epss_history", "cve_change_history", "mitre_techniques", "atlas_techniques",
  "atlas_case_studies", "cve_exploits", "otx_pulses", "detection_rules", "correlation_actor", "correlation_temporal",
  "correlation_campaigns", "correlation_cve_snapshot", "mitre_groups", "pulse_families", "ioc_degree",
  "software_catalog", "feed_cache", "cve_technique_map", "cve_atlas_map", "otx_cve_pulses", "otx_pulse_iocs",
  "detection_rule_cves", "detection_rule_techniques", "correlation_campaign_members", "cve_embeddings", "embeddings",
  "group_technique_map", "sync_state", "publications", "publication_entity_links", "publication_events",
  "publication_event_members", "publication_actors", "publication_actor_links"]

def mergeTableOrder : List String := intelTableMoveOrder

inductive Strategy
  | update
  | nothing
  deriving DecidableEq

def mergeStrategies : List (String × Strategy) := [
  ("cves", .update), ("kev_deadlines", .update), ("epss_history", .nothing), ("cve_change_history", .nothing),
  ("mitre_techniques", .update), ("cve_technique_map", .nothing), ("atlas_techniques", .update),
  ("atlas_case_studies", .update), ("cve_atlas_map", .nothing), ("cve_exploits", .nothing), ("otx_pulses", .update),
  ("otx_cve_pulses", .nothing), ("otx_pulse_iocs", .nothing), ("detection_rules", .update),
  ("detection_rule_cves", .nothing), ("detection_rule_techniques", .nothing), ("correlation_actor", .update),
  ("correlation_temporal", .update), ("correlation_campaigns", .update), ("correlation_campaign_members", .nothing),
  ("correlation_cve_snapshot", .update), ("cve_embeddings", .update), ("embeddings", .update),
  ("mitre_groups", .update), ("group_technique_map", .nothing), ("pulse_families", .update), ("ioc_degree", .update),
  ("software_catalog", .update), ("feed_cache", .update), ("sync_state", .update)]

def mergeStrategy (table : String) : Strategy := (mergeStrategies.lookup table).getD .update

/-- The primary keys that the migrations give the tables. -/
def primaryKeyOf : String → List String
  | "cves" | "kev_deadlines" | "correlation_cve_snapshot" | "cve_embeddings" => ["cve_id"]
  | "epss_history" => ["cve_id", "recorded_date"]
  | "cve_change_history" | "cve_exploits" | "detection_rules" | "publication_entity_links" => ["id"]
  | "mitre_techniques" | "atlas_techniques" => ["technique_id"]
  | "cve_technique_map" | "cve_atlas_map" => ["cve_id", "technique_id"]
  | "atlas_case_studies" => ["study_id"]
  | "otx_pulses" | "pulse_families" => ["pulse_id"]
  | "otx_cve_pulses" => ["cve_id", "pulse_id"]
  | "otx_pulse_iocs" => ["pulse_id", "ioc_type", "ioc_value_digest"]
  | "detection_rule_cves" => ["rule_id", "cve_id"]
  | "detection_rule_techniques" => ["rule_id", "technique_id"]
  | "correlation_actor" => ["cve_id", "actor_name"]
  | "correlation_temporal" => ["vendor"]
  | "correlation_campaigns" => ["campaign_id"]
  | "correlation_campaign_members" => ["campaign_id", "cve_id"]
  | "embeddings" => ["entity_type", "entity_id", "model"]
  | "mitre_groups" => ["group_id"]
  | "group_technique_map" => ["group_id", "technique_id"]
  | "ioc_degree" => ["ioc_type", "ioc_value"]
  | "software_catalog" => ["cpe_uri"]
  | "feed_cache" => ["cache_key"]
  | "sync_state" => ["key"]
  | "publications" => ["publication_id"]
  | "publication_events" => ["event_id"]
  | "publication_event_members" => ["event_id", "publication_id"]
  | "publication_actors" => ["actor_id"]
  | "publication_actor_links" => ["publication_id", "actor_id", "extractor"]
  | _ => []

/-- Their other unique keys. -/
def uniquesOf : String → List (List String)
  | "cve_exploits" => [["cve_id", "url"]]
  | "detection_rules" => [["source", "repo_path"]]
  | "publications" => [["source_key", "canonical_url"]]
  | "publication_entity_links" => [["publication_id", "entity_type", "entity_id", "extractor", "evidence_field"]]
  | _ => []

def foreignKeysOf : String → List (ForeignKey String String)
  | "cve_technique_map" => [⟨["technique_id"], "mitre_techniques", ["technique_id"]⟩]
  | "cve_atlas_map" => [⟨["technique_id"], "atlas_techniques", ["technique_id"]⟩]
  | "detection_rule_cves" | "detection_rule_techniques" => [⟨["rule_id"], "detection_rules", ["id"]⟩]
  | _ => []

theorem primaryKeyOf_ne_nil : ∀ table ∈ mergeTableOrder, primaryKeyOf table ≠ [] := by decide +kernel

theorem nodup_mergeTableOrder : mergeTableOrder.Nodup := by decide +kernel

theorem mergeTableOrder_subset : ∀ table ∈ mergeTableOrder, table ∈ intelTables := by decide +kernel

theorem mem_mergeTableOrder : ∀ table ∈ intelTables, table ∈ mergeTableOrder := by decide +kernel

inductive MergeError
  | runtime (message : String)
  | sql (error : SqlError)
  deriving DecidableEq

/-- The `ON CONFLICT` clause for a table; `d` is what the staging table declares. -/
def onConflict (table : String) (d : TableDef) : OnConflict String :=
  match mergeStrategy table with
  | .nothing => .doNothing
  | .update => if d.others = [] then .doNothing else .doUpdate d.others

/-- One statement, with the count of the rows it wrote. -/
def mergeTable (staging intel : Schema) (table : String) : Except MergeError (Schema × ℕ) :=
  match staging.table? table with
  | none => .ok (intel, 0)
  | some source =>
    match intel.table? table with
    | none => .error (.runtime ("target intel." ++ table ++ " does not exist — run alembic upgrade head"))
    | some target =>
      if source.decl.columns = [] then .ok (intel, 0)
      else if source.decl.primaryKey = [] then
        .error (.runtime ("cannot merge " ++ table ++ ": no primary key in staging"))
      else
        match target.insertSelect source.decl.columns source.decl.primaryKey (onConflict table source.decl)
          source.rows with
        | .error e => .error (.sql e)
        | .ok (merged, n) =>
          match intel.write table merged with
          | .error e => .error (.sql e)
          | .ok intel' => .ok (intel', n)

/-- Each statement commits by itself: what the tables before an error have become stays. -/
def mergeTables (staging : Schema) :
    List String → Schema → Dict String ℕ → Schema × Except MergeError (Dict String ℕ)
  | [], intel, merged => (intel, .ok merged)
  | table :: tables, intel, merged =>
    if table ∈ intelTables then
      match mergeTable staging intel table with
      | .error e => (intel, .error e)
      | .ok (intel', n) => mergeTables staging tables intel' (merged.set table n)
    else mergeTables staging tables intel merged

/-- What a merge that goes through makes of a table. -/
def MergedTable (staging : Schema) (table : String) (before after : Option Table) : Prop :=
  match staging.table? table with
  | none => after = before
  | some source =>
    (source.decl.columns = [] ∧ after = before) ∨ (source.decl.columns ≠ [] ∧ source.decl.primaryKey ≠ [] ∧
      ∃ target merged n, before = some target ∧ after = some merged ∧
        target.insertSelect source.decl.columns source.decl.primaryKey (onConflict table source.decl) source.rows =
          .ok (merged, n))

theorem mergeTable_ok {staging intel intel' : Schema} {table : String} {n : ℕ}
    (h : mergeTable staging intel table = .ok (intel', n)) :
    MergedTable staging table (intel.table? table) (intel'.table? table) ∧
      ∀ other, other ≠ table → intel'.table? other = intel.table? other := by
  rw [mergeTable] at h
  rw [MergedTable]
  cases hs : staging.table? table with
  | none =>
    rw [hs] at h
    cases h
    exact ⟨rfl, fun _ _ ↦ rfl⟩
  | some source =>
    simp only [hs] at h
    cases ht : intel.table? table with
    | none =>
      rw [ht] at h
      cases h
    | some target =>
      simp only [ht] at h
      split at h
      · next hc =>
        cases h
        exact ⟨.inl ⟨hc, ht⟩, fun _ _ ↦ rfl⟩
      · next hc =>
        split at h
        · cases h
        · next hpk =>
          split at h
          · cases h
          · next merged _ hi =>
            split at h
            · cases h
            · next hw =>
              cases h
              refine ⟨.inr ⟨hc, hpk, target, merged, _, rfl, ?_, hi⟩, fun other hne ↦ ?_⟩
              · rw [Schema.table?_of_write hw, if_pos rfl]
              · rw [Schema.table?_of_write hw, if_neg hne]

/-- A merge goes through the tables up to the first that fails, and leaves the others alone. -/
theorem mergeTables_spec (staging : Schema) {tables : List String} (hnodup : tables.Nodup)
    (hintel : ∀ table ∈ tables, table ∈ intelTables) (intel : Schema) (merged : Dict String ℕ) :
    ∃ done rest, tables = done ++ rest ∧
      (∀ table ∈ done, MergedTable staging table (intel.table? table)
        ((mergeTables staging tables intel merged).1.table? table)) ∧
      (∀ table, table ∉ done → (mergeTables staging tables intel merged).1.table? table = intel.table? table) ∧
      match (mergeTables staging tables intel merged).2 with
      | .ok _ => rest = []
      | .error e => ∃ table rest', rest = table :: rest' ∧
          mergeTable staging (mergeTables staging tables intel merged).1 table = .error e := by
  induction tables generalizing intel merged with
  | nil => exact ⟨[], [], rfl, fun _ h ↦ (nomatch h), fun _ _ ↦ rfl, rfl⟩
  | cons table tables ih =>
    obtain ⟨hnew, hnodup⟩ := List.nodup_cons.mp hnodup
    rw [mergeTables, if_pos (hintel table (.head _))]
    cases hm : mergeTable staging intel table with
    | error e => exact ⟨[], table :: tables, rfl, fun _ h ↦ (nomatch h), fun _ _ ↦ rfl, table, tables, rfl, hm⟩
    | ok p =>
      obtain ⟨intel', n⟩ := p
      obtain ⟨hmerged, hother⟩ := mergeTable_ok hm
      obtain ⟨done, rest, hsplit, hdone, hrest, hres⟩ :=
        ih hnodup (fun t ht ↦ hintel t (.tail _ ht)) intel' (merged.set table n)
      have hnotin : table ∉ done := fun h ↦ hnew (hsplit ▸ List.mem_append_left _ h)
      refine ⟨table :: done, rest, congrArg _ hsplit, ?_, ?_, hres⟩
      · intro t ht
        rcases List.mem_cons.mp ht with rfl | ht
        · rwa [hrest t hnotin]
        · rw [← hother t fun he ↦ hnotin (he ▸ ht)]
          exact hdone t ht
      · intro t ht
        rw [List.mem_cons, not_or] at ht
        rw [hrest t ht.2, hother t ht.1]

abbrev App := Dict String (List Row)

/-- `none` where the table does not exist. -/
def appRowCounts (app : App) : List (String × Option ℕ) :=
  appTables.map fun table ↦ (table, (app.get? table).map List.length)

/-- The first table whose rows are counted before and after and whose counts differ. -/
def changedCount (before after : List (String × Option ℕ)) : Option String :=
  before.findSome? fun (table, n) ↦
    match n, (after.lookup table).join with
    | some n, some m =>
      if n = m then none
      else some ("app." ++ table ++ " row count changed during merge (" ++ toString n ++ " -> " ++ toString m ++ ")")
    | _, _ => none

structure Database where
  intel : Schema
  app : App
  staging : Option Schema

structure Manifest where
  formatVersion : Option ℤ
  schemaSplit : Bool

def sourceSchemaFromManifest (manifest : Manifest) : String :=
  if 2 ≤ manifest.formatVersion.getD 1 ∧ manifest.schemaSplit then "intel" else "public"

/-- What loading a dump leaves in the staging schema. -/
inductive Restored
  | loaded (staging : Schema)
  | failed (detail : String) (left : Option Schema)

structure Result where
  mergedRows : Dict String ℕ
  appRowCountsUnchanged : Bool

/-- `restore` loads the dump from the schema it is in, and `others` is what other sessions do to `app` meanwhile. -/
def mergeIntelSnapshot (restore : String → Restored) (others : App → App) (manifest : Manifest) (db : Database) :
    Database × Except MergeError Result :=
  match restore (sourceSchemaFromManifest manifest) with
  | .failed detail left => (⟨db.intel, others db.app, left⟩, .error (.runtime detail))
  | .loaded staging =>
    let tables := mergeTables staging mergeTableOrder db.intel .empty
    (⟨tables.1, others db.app, none⟩,
      match tables.2 with
      | .error e => .error e
      | .ok merged =>
        match changedCount (appRowCounts db.app) (appRowCounts (others db.app)) with
        | some message => .error (.runtime message)
        | none => .ok ⟨merged, true⟩)

end Briefr.IntelSnapshot
