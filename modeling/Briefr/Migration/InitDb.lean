import Briefr.Migration.Lossless
import Briefr.Python.Text

namespace Briefr.Migration

open Briefr.Python Briefr.Library

/-- The tables that `init_db` makes, with their columns once its ALTER statements have run. -/
def initDbTables : List (String × List String) :=
  [("cves", ["cve_id", "description", "cvss_score", "severity", "published", "modified", "affected_products",
      "affected_products_source", "mitre_technique", "summary", "is_kev", "epss_score", "epss_percentile",
      "has_poc", "patch_available", "has_ai_context", "source_urls", "cwe_ids", "updated_at", "cpe_matches",
      "is_vulncheck_exploited"]),
    ("ioc_cache", ["value", "ioc_type", "result", "cached_at"]),
    ("kev_deadlines", ["cve_id", "product", "short_description", "required_action", "due_date", "date_added",
      "vendor_project", "vulnerability_name", "known_ransomware", "cwes", "updated_at"]),
    ("api_usage", ["service", "date_utc", "month_utc", "count", "last_called_at"]),
    ("api_call_events", ["id", "ts", "source", "pacing_key", "method", "host", "path_template", "status_code",
      "ok", "latency_ms", "actor_type", "actor_id", "job_id", "run_id", "queue_task", "request_id",
      "error_class"]),
    ("software_catalog", ["cpe_uri", "vendor", "product", "version", "display_name", "category", "title",
      "versions_json", "updated_at"]),
    ("stack_backfill_runs", ["id", "user_id", "status", "products_json", "max_products", "max_cves",
      "max_runtime_seconds", "eta_low_seconds", "eta_high_seconds", "cves_upserted", "pages_done",
      "pages_total", "progress_message", "error_message", "created_at", "updated_at", "completed_at"]),
    ("stack_backfill_checkpoints", ["id", "run_id", "product_key", "vendor", "product", "version", "status",
      "start_index", "total_results", "cves_upserted", "last_error", "updated_at"]),
    ("sync_state", ["key", "value", "updated_at"]),
    ("mitre_techniques", ["technique_id", "name", "description", "tactic", "url", "platforms", "detection"]),
    ("cve_technique_map", ["cve_id", "technique_id"]),
    ("atlas_techniques", ["technique_id", "name", "description", "tactic", "tactic_id", "url"]),
    ("atlas_case_studies", ["study_id", "name", "summary", "summary_full", "techniques", "target", "date",
      "study_type", "cve_ids"]),
    ("publications", ["publication_id", "source_key", "canonical_url", "url_hash", "content_sha256", "title",
      "document_kind", "published_at", "updated_at", "retrieved_at", "canonical_external_id", "language",
      "knowledge_state", "extraction_status"]),
    ("publication_entity_links", ["id", "publication_id", "entity_type", "entity_id", "extractor",
      "evidence_field", "confidence", "observed_at", "retrieved_at"]),
    ("publication_events", ["event_id", "source_key", "title", "event_kind", "starts_at", "ends_at",
      "created_at", "updated_at"]),
    ("publication_event_members", ["event_id", "publication_id"]),
    ("publication_actors", ["actor_id", "source_key", "display_name", "actor_kind", "profile_url", "created_at",
      "updated_at"]),
    ("publication_actor_links", ["publication_id", "actor_id", "extractor", "evidence_field", "confidence",
      "observed_at"]),
    ("cve_atlas_map", ["cve_id", "technique_id"]),
    ("epss_history", ["cve_id", "score", "recorded_date"]),
    ("cve_exploits", ["id", "cve_id", "title", "type", "source", "url", "published_date", "fetched_at"]),
    ("feed_cache", ["cache_key", "result", "cached_at"]),
    ("cve_change_history", ["id", "cve_id", "field_name", "old_value", "new_value", "detected_at"]),
    ("otx_cve_pulses", ["cve_id", "pulse_id", "pulse_name", "author", "created_date", "adversary",
      "malware_families", "ioc_count", "tags", "fetched_at", "targeted_countries"]),
    ("otx_pulse_iocs", ["pulse_id", "ioc_type", "ioc_value", "ioc_value_digest", "description", "fetched_at",
      "observed_at", "raw_ioc", "host_ioc"]),
    ("otx_pulses", ["pulse_id", "pulse_name", "author", "created_date", "adversary", "malware_families", "tags",
      "targeted_countries", "ioc_count", "fetched_at"]),
    ("correlation_campaigns", ["campaign_id", "primary_pulse_id", "label", "adversary", "malware_families",
      "tags", "targeted_countries", "confidence", "member_count", "lifecycle", "campaign_version",
      "computed_at", "family_id", "first_seen", "last_seen", "independent_sources", "author_count",
      "retracted_at"]),
    ("pulse_families", ["pulse_id", "family_id", "jaccard", "computed_at"]),
    ("correlation_campaign_members", ["campaign_id", "cve_id", "role"]),
    ("correlation_suppressions", ["id", "cve_id", "scope", "scope_key", "reason", "dismissed_by", "created_at"]),
    ("correlation_feedback", ["id", "cve_id", "scope", "scope_key", "verdict", "reason", "created_by",
      "created_at"]),
    ("correlation_metrics", ["day", "computed_at", "suppressions_30d", "feedback_confirm_30d",
      "feedback_reject_30d", "surfaced_findings_30d", "rejection_rate", "confirmation_rate", "weak_edge_ratio",
      "hub_suppressed_edge_count", "ioc_degree_p95", "avg_independent_sources", "orphan_cve_ratio",
      "campaigns_active", "campaigns_retracted", "campaign_survival_rate", "campaign_member_count",
      "stale_campaign_ratio", "median_evidence_age_days"]),
    ("ioc_degree", ["ioc_type", "ioc_value", "cve_count", "pulse_count", "computed_at"]),
    ("correlation_actor", ["cve_id", "actor_name", "actor_sectors", "user_sector_match", "confidence",
      "detected_at"]),
    ("correlation_temporal", ["vendor", "current_week_count", "average_weekly_count", "anomaly_score",
      "detected_at"]),
    ("correlation_cve_snapshot", ["cve_id", "payload", "engine_version", "computed_at", "hub_edges_suppressed"]),
    ("mitre_groups", ["group_id", "name", "aliases", "description", "sectors", "url"]),
    ("group_technique_map", ["group_id", "technique_id"]),
    ("cve_embeddings", ["cve_id", "model", "dim", "vector", "updated_at"]),
    ("embeddings", ["entity_type", "entity_id", "model", "dims", "embedding", "content_hash", "updated_at"]),
    ("hunt_packs", ["id", "technique_id", "cve_id", "title", "priority", "sigma_yaml", "siem_queries",
      "log_patterns", "notes", "created_at", "updated_at"]),
    ("audit_log", ["id", "actor", "action", "target", "metadata_json", "created_at"]),
    ("watchlist", ["cve_id", "state", "snooze_until", "created_at"]),
    ("detection_backlog", ["id", "cve_id", "technique_id", "reason", "priority", "status", "stack_terms",
      "technique_name", "created_at", "dismissed_at"]),
    ("ioc_watchlist", ["id", "user_id", "ioc_type", "ioc_value", "label", "created_at"]),
    ("ti_mirror_iocs", ["source", "ref_id", "ioc_type", "ioc_value", "ioc_value_digest", "raw_ioc", "host_ioc",
      "malware", "threat_type", "confidence_level", "first_seen", "fetched_at"]),
    ("resource_metrics", ["ts", "briefr_cpu_pct", "briefr_rss_bytes", "briefr_io_read_bps",
      "briefr_io_write_bps", "briefr_iops_r", "briefr_iops_w", "pg_cpu_pct", "pg_rss_bytes", "pg_iops_r",
      "pg_iops_w", "req_count", "pg_xact_per_min", "pg_blks_read_per_min", "pg_cache_hit_pct",
      "pg_db_size_bytes", "disk_free_bytes", "sys_cpu_pct", "sys_mem_pct"]),
    ("webhook_alert_log", ["alert_type", "target", "alerted_at"]),
    ("webhook_destinations", ["id", "kind", "label", "enabled", "event_types", "config_json", "source",
      "created_at", "updated_at"]),
    ("webhook_delivery_log", ["id", "destination_id", "event_type", "dedupe_key", "status", "error",
      "attempted_at"]),
    ("webhook_destination_dedupe", ["destination_id", "event_type", "dedupe_key", "recorded_at"]),
    ("ai_operations", ["id", "operation_id", "request_id", "started_at", "latency_ms", "feature", "task_class",
      "provider", "model", "success", "error_class", "error_detail", "input_tokens", "output_tokens",
      "total_tokens", "estimated_cost_usd", "fallback_from_provider", "fallback_from_model", "retry_index",
      "context_type", "context_id"]),
    ("ai_operation_payloads", ["operation_id", "created_at", "messages_json", "response_excerpt", "task_class",
      "provider", "model"]),
    ("users", ["id", "username", "password_hash", "role", "is_active", "created_at", "last_login_at"]),
    ("sessions", ["id", "user_id", "refresh_token_hash", "created_at", "last_used_at", "expires_at",
      "revoked_at", "user_agent", "ip", "remember_me"]),
    ("search_api_tokens", ["id", "name", "token_prefix", "token_hash", "scopes", "created_at", "created_by",
      "last_used_at", "revoked_at"]),
    ("user_preferences", ["user_id", "stack_terms", "profile_json", "display_prefs_json", "timezone",
      "remember_profile_on_server", "updated_at"]),
    ("user_notifications", ["id", "user_id", "scope", "category", "severity", "title", "body", "entity_type",
      "entity_id", "dedupe_key", "created_at", "read_at", "dismissed_at"]),
    ("app_settings", ["key", "value", "updated_at"])]

def initDb : List (Text × List Text) := initDbTables.map fun p ↦ (p.1.toList, p.2.map String.toList)

theorem toNat_of_byte {c : Char} (h : ∀ b ∈ String.utf8EncodeChar c, b.toNat < 128) :
    ∃ b ∈ String.utf8EncodeChar c, b.toNat = c.toNat := by
  have hval : c.val.toNat = c.toNat := rfl
  unfold String.utf8EncodeChar at h ⊢
  dsimp only at h ⊢
  split_ifs at h ⊢ with h₁ h₂ h₃
  · refine ⟨_, .head _, ?_⟩
    rw [UInt8.toNat_ofNat', hval, Nat.mod_eq_of_lt (by omega)]
  · have hfirst := h _ (.head _)
    rw [UInt8.toNat_ofNat'] at hfirst
    omega
  · have hfirst := h _ (.head _)
    rw [UInt8.toNat_ofNat'] at hfirst
    omega
  · have hfirst := h _ (.head _)
    rw [UInt8.toNat_ofNat'] at hfirst
    omega

/-- An ASCII text is read off its bytes, which the kernel does faster than it decodes them. -/
theorem forall_char_of_bytes {s : String} {P : ℕ → Prop} [DecidablePred P] (hP : ∀ n, P n → n < 128)
    (h : (s.toByteArray.data.toList.all fun b ↦ decide (P b.toNat)) = true) {c : Char} (hc : c ∈ s.toList) :
    P c.toNat := by
  have hbytes : s.toByteArray.data.toList = s.toList.flatMap String.utf8EncodeChar := by
    conv_lhs => rw [← String.ofList_toList (s := s)]
    rw [String.toByteArray_ofList, List.utf8Encode, List.toList_data_toByteArray]
  have hall : ∀ b ∈ String.utf8EncodeChar c, P b.toNat := fun b hb ↦
    of_decide_eq_true (List.all_eq_true.mp h b (hbytes ▸ List.mem_flatMap.mpr ⟨c, hc, hb⟩))
  obtain ⟨b, hb, heq⟩ := toNat_of_byte fun b hb ↦ hP _ (hall b hb)
  exact heq ▸ hall b hb

theorem initDb_names : (initDb.map Prod.fst).Nodup := by
  have hnames : (initDbTables.map Prod.fst).Nodup := by decide +kernel
  have htext := hnames.map toList_injective
  rw [List.map_map] at htext
  rw [initDb, List.map_map]
  exact htext

theorem initDb_columns [Interp] : ∀ p ∈ initDb, (p.2.map lower).Nodup := by
  have hnodup : ∀ p ∈ initDbTables, p.2.Nodup := by decide +kernel
  have hbytes : ∀ p ∈ initDbTables, ∀ column ∈ p.2, (column.toByteArray.data.toList.all fun b ↦
      decide (b.toNat < 65 ∨ 90 < b.toNat ∧ b.toNat < 128)) = true := by decide +kernel
  intro p hp
  obtain ⟨q, hq, rfl⟩ := List.mem_map.mp hp
  have hsame : (q.2.map String.toList).map lower = q.2.map String.toList := by
    rw [List.map_map]
    refine List.map_congr_left fun column hc ↦ lower_lowerCase fun c hm ↦ ?_
    have hrange : c.toNat < 65 ∨ 90 < c.toNat ∧ c.toNat < 128 :=
      forall_char_of_bytes (P := fun n ↦ n < 65 ∨ 90 < n ∧ n < 128) (fun n hn ↦ by omega) (hbytes q hq column hc) hm
    unfold isUpperAscii
    omega
  rw [hsame]
  exact (hnodup q hq).map toList_injective

/-- Every table that is copied is one of `init_db`. -/
theorem tableOrder_initDb : ∀ name ∈ tableOrder, ∃ columns, (name, columns) ∈ initDb ∧ columns ≠ [] := by
  refine List.forall_mem_map.mpr fun name hname ↦ ?_
  have hstrings : ∃ p ∈ initDbTables, p.1 = name ∧ p.2 ≠ [] := by
    revert name
    decide +kernel
  obtain ⟨p, hp, rfl, hne⟩ := hstrings
  exact ⟨p.2.map String.toList, List.mem_map_of_mem hp, fun he ↦ hne (List.map_eq_nil_iff.mp he)⟩

theorem serialIdTables_initDb : ∀ name ∈ serialIdTables, ∃ columns, (name, columns) ∈ initDb ∧ "id".toList ∈ columns := by
  refine List.forall_mem_map.mpr fun name hname ↦ ?_
  have hstrings : ∃ p ∈ initDbTables, p.1 = name ∧ "id" ∈ p.2 := by
    revert name
    decide +kernel
  obtain ⟨p, hp, rfl, hid⟩ := hstrings
  exact ⟨p.2.map String.toList, List.mem_map_of_mem hp, List.mem_map_of_mem hid⟩

theorem serialIdTables_subset : serialIdTables ⊆ tableOrder :=
  List.map_subset String.toList (by decide +kernel)

section EmptyRuns

variable [Server] [Interp] {source : Sqlite} {pg : Pg} {names : List Text} {name : Text}

theorem copyTable_of_empty (counts : List Count) (h : ∀ src, source.table name = some src → src.rows = [])
    (hcols : pg.columns name ≠ []) : ∃ counts', copyTable source (pg, counts) name = .ok (pg, counts') := by
  unfold copyTable
  split
  · exact ⟨counts, rfl⟩
  · rename_i src hsrc
    rw [if_neg hcols]
    dsimp only
    split
    · exact ⟨counts, rfl⟩
    · have hnone : batches batchSize ([] : List Record) = [] := rfl
      rw [h src hsrc, List.map_nil, hnone]
      exact ⟨_, rfl⟩

theorem copyAll_of_empty (counts : List Count)
    (h : ∀ name ∈ names, (∀ src, source.table name = some src → src.rows = []) ∧ pg.columns name ≠ []) :
    ∃ counts', names.foldlM (copyTable source) (pg, counts) = .ok (pg, counts') := by
  induction names generalizing counts with
  | nil => exact ⟨counts, rfl⟩
  | cons name names ih =>
    obtain ⟨hsrc, hcols⟩ := h name (.head _)
    obtain ⟨counts₁, hstep⟩ := copyTable_of_empty counts hsrc hcols
    obtain ⟨counts', hrest⟩ := ih counts₁ fun name hm ↦ h name (.tail _ hm)
    refine ⟨counts', ?_⟩
    rw [List.foldlM_cons, hstep]
    exact hrest

def Pg.Blank (pg : Pg) (name : Text) : Prop := ∃ t, pg.table name = some t ∧ "id".toList ∈ t.columns ∧ t.rows = []

omit [Server] [Interp] in
theorem resetSequence_of_blank (h : pg.Blank name) :
    ∃ pg', resetSequence pg name = .ok pg' ∧ ∀ other, pg.Blank other → pg'.Blank other := by
  obtain ⟨t, ht, hid, hrows⟩ := h
  have hmax : ¬t.maxId < 1 := by
    rw [Table.maxId, Table.ids, hrows]
    decide
  have hok : ∃ pg', resetSequence pg name = .ok pg' := by
    simp only [resetSequence, ht, hid, hmax, not_true_eq_false, ↓reduceIte]
    split <;> exact ⟨_, rfl⟩
  obtain ⟨pg', hpg'⟩ := hok
  refine ⟨pg', hpg', ?_⟩
  rintro other ⟨u, hu, huid, hurows⟩
  obtain ⟨hm, hk⟩ := Pg.table_eq_some.mp hu
  have hframe : u.reset.columns = u.columns := by
    unfold Table.reset
    split <;> rfl
  by_cases hkey : u.key = inPublic name
  · refine ⟨u.reset, Pg.table_eq_some.mpr ⟨?_, (Table.key_reset u).trans hk⟩, hframe ▸ huid, (Table.rows_reset u).trans hurows⟩
    rw [resetSequence_tables hpg']
    exact List.mem_map.mpr ⟨u, hm, if_pos hkey⟩
  · refine ⟨u, Pg.table_eq_some.mpr ⟨?_, hk⟩, huid, hurows⟩
    rw [resetSequence_tables hpg']
    exact List.mem_map.mpr ⟨u, hm, if_neg hkey⟩

omit [Server] [Interp] in
theorem resetAll_of_blank (h : ∀ name ∈ names, pg.Blank name) : ∃ pg', names.foldlM resetSequence pg = .ok pg' := by
  induction names generalizing pg with
  | nil => exact ⟨pg, rfl⟩
  | cons name names ih =>
    obtain ⟨pg₁, hstep, hkeep⟩ := resetSequence_of_blank (h name (.head _))
    obtain ⟨pg', hrest⟩ := ih fun other hm ↦ hkeep other (h other (.tail _ hm))
    refine ⟨pg', ?_⟩
    rw [List.foldlM_cons, hstep]
    exact hrest

/-- A migration goes through where it has nothing to copy and the target has its tables. -/
theorem transaction_of_empty (hsrc : ∀ name ∈ tableOrder, ∀ src, source.table name = some src → src.rows = [])
    (hcols : ∀ name ∈ tableOrder, pg.columns name ≠ [])
    (hid : ∀ name ∈ serialIdTables, name ∈ tableOrder ∧ "id".toList ∈ pg.columns name) :
    ∃ r, transaction source pg = .ok r := by
  let start := if pg.existing = [] then pg else pg.truncate pg.existing
  have htables : start.tables = pg.tables.map (Table.cut pg) := tables_cut
  have hstart : ∀ name ∈ tableOrder, ∃ t, start.table name = some t ∧ t.columns = pg.columns name ∧ t.rows = [] := by
    intro name hname
    obtain ⟨t, ht⟩ : ∃ t, pg.table name = some t := by
      cases ht : pg.table name with
      | none => exact absurd (by rw [Pg.columns, ht]; rfl) (hcols name hname)
      | some t => exact ⟨t, rfl⟩
    obtain ⟨hm, hk⟩ := Pg.table_eq_some.mp ht
    have hlisted : t.Listed := ⟨by rw [hk]; exact List.mem_map_of_mem hname, Pg.columns_eq hm hk ▸ hcols name hname⟩
    refine ⟨t.cut pg, Pg.table_eq_some.mpr ⟨?_, (Table.key_cut t).trans hk⟩, ?_, ?_⟩
    · rw [htables]
      exact List.mem_map_of_mem hm
    · rw [Table.columns_cut, Pg.columns_eq hm hk]
    · rw [hlisted.cut hm]
      rfl
  have hcolumns : ∀ name ∈ tableOrder, start.columns name = pg.columns name := by
    intro name hname
    obtain ⟨t, ht, hc, -⟩ := hstart name hname
    rw [Pg.columns, ht]
    exact hc
  have hready : ∀ name ∈ tableOrder, (∀ src, source.table name = some src → src.rows = []) ∧ start.columns name ≠ [] :=
    fun name hname ↦ ⟨hsrc name hname, hcolumns name hname ▸ hcols name hname⟩
  obtain ⟨counts, hcopy⟩ := copyAll_of_empty [] hready
  obtain ⟨pg', hreset⟩ := resetAll_of_blank fun name hname ↦ by
    obtain ⟨hm, hi⟩ := hid name hname
    obtain ⟨t, ht, hc, hr⟩ := hstart name hm
    exact ⟨t, ht, hc ▸ hi, hr⟩
  exact ⟨(pg', counts), transaction_eq_ok.mpr ⟨_, hcopy, hreset⟩⟩

end EmptyRuns

section Backlog

local instance lettersOnly : Interp := ascii fun _ ↦ none

/-- A server at Alembic's head, which accepts every record. -/
local instance atHead : Server where
  upgrade pg := (pg, true)
  takes _ _ _ := true
  columnDefault _ _ := .null

def backlogItem : Row := fun column ↦
  if column = "id".toList then .int 1 else if column = "cve_id".toList then .other "CVE-2026-0001" else .null

def backlogRows (name : Text) : List Row := if name = "detection_backlog".toList then [backlogItem] else []

/-- The tables of `init_db`, with one item in the backlog of detections. -/
def backlogSource : Sqlite where
  tables := initDb.map fun p ↦ ⟨p.1, p.2, backlogRows p.1⟩
  names := by
    rw [List.map_map]
    exact initDb_names
  columns := List.forall_mem_map.mpr initDb_columns

/-- The same tables in the public schema of a target, without rows. -/
def emptyTarget : Pg where
  tables := initDb.map fun p ↦ ⟨"public", p.1, p.2, decide ("id".toList ∈ p.2), 1, [], []⟩
  keys := by
    have hkeys := initDb_names.map inPublic_injective
    rw [List.map_map] at hkeys ⊢
    exact hkeys

theorem backlog_not_copied : "detection_backlog".toList ∉ tableOrder := by
  rw [tableOrder, List.mem_map_of_injective toList_injective]
  decide +kernel

theorem columns_emptyTarget {p : Text × List Text} (hp : p ∈ initDb) : emptyTarget.columns p.1 = p.2 := by
  let t : Table := ⟨"public", p.1, p.2, decide ("id".toList ∈ p.2), 1, [], []⟩
  have hm : t ∈ emptyTarget.tables := List.mem_map.mpr ⟨p, hp, rfl⟩
  exact Pg.columns_eq hm rfl

theorem initDb_backlog : ∃ columns, ("detection_backlog".toList, columns) ∈ initDb := by
  have hstring : ∃ p ∈ initDbTables, p.1 = "detection_backlog" := by decide +kernel
  obtain ⟨p, hp, hname⟩ := hstring
  refine ⟨p.2.map String.toList, ?_⟩
  rw [← hname]
  exact List.mem_map_of_mem hp

theorem backlogSource_table :
    ∃ src ∈ backlogSource.tables, src.name = "detection_backlog".toList ∧ src.rows = [backlogItem] := by
  obtain ⟨columns, hp⟩ := initDb_backlog
  have hrows : backlogRows "detection_backlog".toList = [backlogItem] := if_pos rfl
  exact ⟨_, List.mem_map.mpr ⟨_, hp, rfl⟩, rfl, hrows⟩

theorem emptyTarget_table : ∃ t ∈ emptyTarget.tables, t.key = inPublic "detection_backlog" ∧ t.rows = [] := by
  obtain ⟨columns, hp⟩ := initDb_backlog
  exact ⟨_, List.mem_map.mpr ⟨_, hp, rfl⟩, rfl, rfl⟩

theorem backlogSource_listed : ∀ name ∈ tableOrder, ∀ src, backlogSource.table name = some src → src.rows = [] := by
  intro name hname src hsrc
  obtain ⟨hm, rfl⟩ := Sqlite.table_eq_some.mp hsrc
  obtain ⟨p, -, rfl⟩ := List.mem_map.mp hm
  refine if_neg fun he ↦ backlog_not_copied ?_
  rw [← he]
  exact hname

theorem backlog_transaction : ∃ r, transaction backlogSource emptyTarget = .ok r := by
  have hcols : ∀ name ∈ tableOrder, emptyTarget.columns name ≠ [] := by
    intro name hname
    obtain ⟨columns, hp, hne⟩ := tableOrder_initDb name hname
    rwa [columns_emptyTarget hp]
  have hids : ∀ name ∈ serialIdTables, name ∈ tableOrder ∧ "id".toList ∈ emptyTarget.columns name := by
    intro name hname
    obtain ⟨columns, hp, hid⟩ := serialIdTables_initDb name hname
    exact ⟨serialIdTables_subset hname, by rwa [columns_emptyTarget hp]⟩
  exact transaction_of_empty backlogSource_listed hcols hids

theorem backlogSource_schema : backlogSource.tables.map (fun t ↦ (t.name, t.columns)) = initDb := by
  rw [backlogSource, List.map_map]
  exact List.map_id _

/-- The item of the backlog is lost, although the migration ends with status done and without a mismatch. -/
theorem migration_loses_backlog : ¬∀ (source : Sqlite) (pg : Pg),
    source.tables.map (fun t ↦ (t.name, t.columns)) = initDb → Safe source pg := by
  intro h
  have hsafe := h backlogSource emptyTarget backlogSource_schema
  obtain ⟨⟨copied, counts⟩, hrun⟩ := backlog_transaction
  have hdone : runMigration backlogSource emptyTarget = ⟨.done, counts, copied⟩ := runMigration_ok rfl hrun
  have hlossless := hsafe.done (by rw [hdone]) (by rw [hdone]; exact mismatches_eq_nil (transaction_ok hrun).2)
  rw [hdone] at hlossless
  have hcovered := (lossless_iff hrun).mp hlossless
  obtain ⟨src, hs, hname, hrows⟩ := backlogSource_table
  obtain ⟨t, ht, hkey, hblank⟩ := emptyTarget_table
  have hlisted : ¬t.Listed := by
    intro ⟨hk, _⟩
    rw [hkey, List.mem_map_of_injective inPublic_injective] at hk
    exact backlog_not_copied hk
  have hcut : (t.cut emptyTarget).rows = [] := by
    unfold Table.cut
    split
    · rfl
    · exact hblank
  have hsame := hcovered.left t ht src hs (hname.trans (Prod.mk.inj hkey).2.symm) hlisted
  have hlength := hsame.length_eq
  rw [List.length_map, List.length_map, hcut, hrows] at hlength
  cases hlength

end Backlog

end Briefr.Migration
