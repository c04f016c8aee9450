import Briefr.IntelSnapshot.Merge

namespace Briefr.IntelSnapshot

open Briefr.Library Briefr.Library.Sql

/-- Counts that did not change are never reported. -/
theorem changedCount_self {counts : List (String × Option ℕ)} (h : (counts.map Prod.fst).Nodup) :
    changedCount counts counts = none := by
  rw [changedCount, List.findSome?_eq_none_iff]
  intro (table, n) hmem
  have hlookup : counts.lookup table = some n := Dict.mem_items_iff.mp (show (table, n) ∈ (Dict.mk counts h).items from hmem)
  simp only [hlookup, Option.join_some]
  cases n with
  | none => rfl
  | some n => exact if_pos rfl

theorem nodup_appRowCounts (app : App) : ((appRowCounts app).map Prod.fst).Nodup := by
  have hnodup : appTables.Nodup := by decide +kernel
  rwa [appRowCounts, List.map_map, show Prod.fst ∘ _ = id from rfl, List.map_id]

variable {restore : String → Restored} {others : App → App} {manifest : Manifest} {db : Database} {staging : Schema}

section Example

def rowOf (cells : List (String × String)) : Row := fun c ↦ cells.lookup c

def cveExploits : TableDef where
  columns := ["id", "cve_id", "title", "type", "source", "url", "published_date", "fetched_at"]
  primaryKey := primaryKeyOf "cve_exploits"
  uniques := uniquesOf "cve_exploits"
  foreignKeys := foreignKeysOf "cve_exploits"
  notNull := ["id", "cve_id", "title", "type", "source", "url"]
  checks := []
  default := rowOf [("title", ""), ("type", "poc"), ("source", ""), ("url", ""), ("published_date", "")]
  covered := by decide

def cveChangeHistory : TableDef where
  columns := ["id", "cve_id", "field_name", "old_value", "new_value", "detected_at"]
  primaryKey := primaryKeyOf "cve_change_history"
  uniques := uniquesOf "cve_change_history"
  foreignKeys := foreignKeysOf "cve_change_history"
  notNull := ["id", "cve_id", "field_name", "old_value", "new_value"]
  checks := []
  default := rowOf [("old_value", ""), ("new_value", "")]
  covered := by decide

def exploitRow (id cve url : String) : Row :=
  rowOf [("id", id), ("cve_id", cve), ("title", ""), ("type", "poc"), ("source", "github"), ("url", url)]

def severityChange : Row :=
  rowOf [("id", "1"), ("cve_id", "CVE-2024-0001"), ("field_name", "severity"), ("old_value", "HIGH"),
    ("new_value", "CRITICAL")]

def exploitSchema (changes : List Row) (exploit : Row) (hc : ∀ r ∈ changes, cveChangeHistory.Accepts r)
    (hd : Distinct cveChangeHistory.keys changes) (he : cveExploits.Accepts exploit) : Schema where
  tables := ⟨[("cve_change_history", ⟨cveChangeHistory, changes, hc, hd⟩),
    ("cve_exploits", ⟨cveExploits, [exploit], List.forall_mem_singleton.mpr he, fun _ _ ↦ List.pairwise_singleton _ _⟩)],
    by simp⟩
  references := by
    intro e he fk hfk
    rcases List.mem_cons.mp he with rfl | he
    · cases hfk
    · obtain rfl := List.mem_singleton.mp he
      cases hfk

theorem accepts_no_change : ∀ r ∈ ([] : List Row), cveChangeHistory.Accepts r := List.forall_mem_nil _

theorem distinct_no_change : Distinct cveChangeHistory.keys ([] : List Row) := by decide

theorem accepts_severityChange : ∀ r ∈ [severityChange], cveChangeHistory.Accepts r := by decide

theorem distinct_severityChange : Distinct cveChangeHistory.keys [severityChange] := by decide

theorem accepts_exploit : cveExploits.Accepts (exploitRow "1" "CVE-2024-0001" "https://github.com/poc/a") := by decide

def localIntel : Schema := exploitSchema [] (exploitRow "1" "CVE-2024-0001" "https://github.com/poc/a")
  accepts_no_change distinct_no_change accepts_exploit

/-- The same exploit under another id. -/
def renumbered : Schema := exploitSchema [severityChange]
  (exploitRow "7" "CVE-2024-0001" "https://github.com/poc/a") accepts_severityChange distinct_severityChange (by decide)

def localDatabase : Database := ⟨localIntel, .empty, none⟩

def afterRenumbered : Database := (mergeIntelSnapshot (fun _ ↦ .loaded renumbered) id ⟨some 2, true⟩ localDatabase).1

theorem raises_on_renumbered :
    mergeIntelSnapshot (fun _ ↦ .loaded renumbered) id ⟨some 2, true⟩ localDatabase =
      (afterRenumbered, .error (.sql .uniqueViolation)) := rfl

end Example

end Briefr.IntelSnapshot
