import Briefr.Preferences.Stack
import Briefr.Python.Text

namespace Briefr.Preferences.Stack

open Briefr.Python Briefr.Library Briefr.Library.StableSort Briefr.Library.Runs

section Rows

variable {db : Db} {id : ℤ} {row : Row} {p q : ℤ × Row}

theorem mem_stacks : p ∈ db.stacks ↔ p.1 ∈ db.admins.map User.id ∧ db.preferences p.1 = some p.2 := by
  rw [Db.stacks, List.mem_filterMap]
  constructor
  · intro ⟨u, hu, h⟩
    obtain ⟨r, hr, rfl⟩ := Option.map_eq_some_iff.mp h
    exact ⟨List.mem_map_of_mem hu, hr⟩
  · intro ⟨ha, h⟩
    obtain ⟨u, hu, hid⟩ := List.mem_map.mp ha
    exact ⟨u, hu, by rw [hid, h]; rfl⟩

theorem admins_setRow : (db.setRow id row).admins = db.admins := rfl

theorem stacks_setRow_of_not_admin (h : id ∉ db.admins.map User.id) : (db.setRow id row).stacks = db.stacks := by
  refine List.filterMap_congr fun u hu ↦ ?_
  have hne : u.id ≠ id := fun he ↦ h (he ▸ List.mem_map_of_mem hu)
  have hrow : (db.setRow id row).preferences u.id = db.preferences u.id := Function.update_of_ne hne _ _
  rw [hrow]

theorem mem_stacks_setRow (h : id ∈ db.admins.map User.id) :
    p ∈ (db.setRow id row).stacks ↔ p = (id, row) ∨ (p.1 ≠ id ∧ p ∈ db.stacks) := by
  rw [mem_stacks, admins_setRow, mem_stacks, Db.setRow]
  obtain ⟨i, r⟩ := p
  by_cases hi : i = id
  · subst hi
    simp [h, eq_comm]
  · simp [hi]

/-- A row that ranks before every other one. -/
def First (rows : List (ℤ × Row)) (p : ℤ × Row) : Prop :=
  p ∈ rows ∧ ∀ q ∈ rows, rank p.2.updatedAt p.1 ≤ rank q.2.updatedAt q.1

theorem rank_injective {d e : WithBot Text} {i j : ℤ} (h : rank d i = rank e j) : i = j :=
  congrArg (fun k ↦ (ofLex k).2) h

theorem First.unique (hp : First db.stacks p) (hq : First db.stacks q) : p = q := by
  have hid : p.1 = q.1 := rank_injective (le_antisymm (hp.2 q hq.1) (hq.2 p hp.1))
  have hrow : some p.2 = some q.2 := by rw [← (mem_stacks.mp hp.1).2, hid, (mem_stacks.mp hq.1).2]
  exact Prod.ext hid (Option.some.inj hrow)

theorem newest_eq_some (h : newest db.stacks = some p) : First db.stacks p := by
  have hfirst := head?_sortBy.mp h
  exact ⟨hfirst.mem, fun _ hq ↦ hfirst.le hq⟩

theorem exists_first (h : p ∈ db.stacks) : ∃ q, newest db.stacks = some q ∧ First db.stacks q := by
  cases hn : newest db.stacks with
  | none =>
    rw [newest, head?_sortBy_eq_none] at hn
    rw [hn] at h
    exact absurd h List.not_mem_nil
  | some q => exact ⟨q, rfl, newest_eq_some hn⟩

variable [Interp]

theorem First.assets (h : First db.stacks p) : db.assets = p.2.assets := by
  obtain ⟨q, hn, hq⟩ := exists_first h.1
  rw [Db.assets, hn, hq.unique h]

/-- The row of the user, dated now, ranks first. -/
def ComesFirst (db : Db) (id : ℤ) (now : Text) : Prop :=
  ∀ q ∈ db.stacks, q.1 ≠ id → rank (now : WithBot Text) id ≤ rank q.2.updatedAt q.1

/-- The row of another admin ranks before that of the user, dated now, and before all others. -/
def Behind (db : Db) (id : ℤ) (now : Text) (p : ℤ × Row) : Prop :=
  (p ∈ db.stacks ∧ p.1 ≠ id) ∧ rank p.2.updatedAt p.1 ≤ rank (now : WithBot Text) id ∧
    ∀ q ∈ db.stacks, q.1 ≠ id → rank p.2.updatedAt p.1 ≤ rank q.2.updatedAt q.1

omit [Interp] in
theorem first_setRow_iff (h : id ∈ db.admins.map User.id) {now : Text} (hnow : row.updatedAt = some now) :
    First (db.setRow id row).stacks p ↔ (p = (id, row) ∧ ComesFirst db id now) ∨ Behind db id now p := by
  have hmem : ∀ q, q ∈ (db.setRow id row).stacks ↔ q = (id, row) ∨ (q.1 ≠ id ∧ q ∈ db.stacks) := fun _ ↦
    mem_stacks_setRow h
  constructor
  · intro ⟨hp, hle⟩
    have hother : ∀ q ∈ db.stacks, q.1 ≠ id → rank p.2.updatedAt p.1 ≤ rank q.2.updatedAt q.1 := fun q hq hne ↦
      hle q ((hmem q).mpr (.inr ⟨hne, hq⟩))
    rcases (hmem p).mp hp with rfl | ⟨hne, hp⟩
    · refine .inl ⟨rfl, fun q hq hne ↦ ?_⟩
      have hq := hother q hq hne
      rw [hnow] at hq
      exact hq
    · refine .inr ⟨⟨hp, hne⟩, ?_, hother⟩
      have hself := hle (id, row) ((hmem _).mpr (.inl rfl))
      rw [hnow] at hself
      exact hself
  · rintro (⟨rfl, hfirst⟩ | ⟨⟨hp, hne⟩, hself, hother⟩)
    · refine ⟨(hmem _).mpr (.inl rfl), fun q hq ↦ ?_⟩
      rcases (hmem q).mp hq with rfl | ⟨hne, hq⟩
      · exact le_rfl
      · rw [hnow]
        exact hfirst q hq hne
    · refine ⟨(hmem p).mpr (.inr ⟨hne, hp⟩), fun q hq ↦ ?_⟩
      rcases (hmem q).mp hq with rfl | ⟨hne', hq⟩
      · rw [hnow]
        exact hself
      · exact hother q hq hne'

/-- Which stack is in effect once the row of an admin has been written. -/
theorem assets_setRow_iff (h : id ∈ db.admins.map User.id) {now : Text} (hnow : row.updatedAt = some now)
    {l : List Matching.Cpe.Asset} : (db.setRow id row).assets = l ↔
      (ComesFirst db id now ∧ row.assets = l) ∨ ∃ p, Behind db id now p ∧ p.2.assets = l := by
  have hfirst : ∀ p, First (db.setRow id row).stacks p ↔ _ := fun p ↦ first_setRow_iff h hnow
  constructor
  · rintro rfl
    have hmem : (id, row) ∈ (db.setRow id row).stacks := (mem_stacks_setRow h).mpr (.inl rfl)
    obtain ⟨p, _, hp⟩ := exists_first hmem
    rcases (hfirst p).mp hp with ⟨rfl, hcomes⟩ | hbehind
    · exact .inl ⟨hcomes, hp.assets.symm⟩
    · exact .inr ⟨p, hbehind, hp.assets.symm⟩
  · rintro (⟨hcomes, rfl⟩ | ⟨p, hbehind, rfl⟩)
    · exact ((hfirst (id, row)).mpr (.inl ⟨rfl, hcomes⟩)).assets
    · exact ((hfirst p).mpr (.inr hbehind)).assets

theorem assets_setRow_of_not_admin (h : id ∉ db.admins.map User.id) : (db.setRow id row).assets = db.assets := by
  rw [Db.assets, stacks_setRow_of_not_admin h, Db.assets]

end Rows

section Migration

variable [Interp] {env : Text} {db : Db}

/-- The migration has nothing more to do. -/
def Settled (env : Text) (db : Db) : Prop := migrated db = true ∨ strip env = [] ∨ db.admins = []

theorem migrate_of_settled (h : Settled env db) (now : Text) : migrateEnvStackTermsOnce env now db = db := by
  unfold migrateEnvStackTermsOnce
  split
  · rfl
  · rename_i hm
    split
    · rfl
    · rename_i he
      have ha : db.firstAdmin = none := by
        rw [Db.firstAdmin, (h.resolve_left hm).resolve_left he]
        rfl
      rw [ha]

theorem settled_migrate (now : Text) : Settled env (migrateEnvStackTermsOnce env now db) := by
  unfold migrateEnvStackTermsOnce
  split
  · rename_i hm
    exact .inl hm
  · split
    · rename_i he
      exact .inr (.inl he)
    · split
      · rename_i hf
        rw [Db.firstAdmin, head?_sortBy_eq_none] at hf
        exact .inr (.inr hf)
      · exact .inl rfl

theorem alertAssets_of_settled (h : Settled env db) (now : Text) : getAlertStackAssets env now db = (db.assets, db) := by
  rw [getAlertStackAssets, migrate_of_settled h]

def termsOf (assets : List Matching.Cpe.Asset) : Text :=
  if assets ≠ [] then [','].intercalate (assetsToTerms assets) else []

theorem effectiveTerms_eq (now : Text) :
    (getEffectiveStackTerms env now db).1 = termsOf (getAlertStackAssets env now db).1 := by
  have hsettled : Settled env (migrateEnvStackTermsOnce env now db) := settled_migrate now
  have hs := migrate_of_settled hsettled now
  simp only [getEffectiveStackTerms, getAlertStackAssets, hs, termsOf]
  by_cases h : (migrateEnvStackTermsOnce env now db).assets = [] <;> simp [h]

end Migration

section Patches

variable [Interp] [Display] {env : Text} {db : Db} {c : Patch}

def Patch.Accepted (db : Db) (c : Patch) : Prop := ∃ columns, displayColumns db c = .ok columns

/-- A patch that is refused, or of a user who is no active admin, or after which the newest active admin has a stack with
the assets of the one in effect. -/
def Harmless (db : Db) (c : Patch) : Prop :=
  c.Accepted db → c.user ∈ db.admins.map User.id →
    (ComesFirst db c.user c.now ∧ ((db.preferences c.user).getD Row.default).assets = db.assets) ∨
      ∃ p, Behind db c.user c.now p ∧ p.2.assets = db.assets

omit [Interp] in
theorem patch_frame : (patchUserPreferences db c).users = db.users ∧
    (patchUserPreferences db c).stackEnvMigrated = db.stackEnvMigrated := by
  unfold patchUserPreferences
  split <;> exact ⟨rfl, rfl⟩

theorem Settled.patch (h : Settled env db) : Settled env (patchUserPreferences db c) := by
  obtain ⟨husers, hmark⟩ : (patchUserPreferences db c).users = db.users ∧
      (patchUserPreferences db c).stackEnvMigrated = db.stackEnvMigrated := patch_frame
  rw [Settled, migrated, Db.admins, husers, hmark]
  exact h

theorem assets_patch_iff : (patchUserPreferences db c).assets = db.assets ↔ Harmless db c := by
  rw [patchUserPreferences, Harmless, Patch.Accepted]
  split
  · rename_i json timezone remember hok
    by_cases ha : c.user ∈ db.admins.map User.id
    · rw [assets_setRow_iff ha rfl]
      exact ⟨fun h _ _ ↦ h, fun h ↦ h ⟨_, hok⟩ ha⟩
    · exact iff_of_true (assets_setRow_of_not_admin ha) fun _ hc ↦ absurd hc ha
  · rename_i e herr
    refine iff_of_true rfl fun ⟨_, hok⟩ ↦ ?_
    rw [herr] at hok
    cases hok

/-- At any later time the two reads of the database give what those of the first gave. -/
def SameReads (env now : Text) (first db : Db) : Prop :=
  ∀ later, (getAlertStackAssets env later db).1 = (getAlertStackAssets env now first).1 ∧
    (getEffectiveStackTerms env later db).1 = (getEffectiveStackTerms env now first).1

omit [Display] in
theorem sameReads_of_settled {now : Text} {first : Db} (hs : Settled env db) :
    SameReads env now first db ↔ db.assets = (getAlertStackAssets env now first).1 := by
  constructor
  · intro h
    rw [← (h now).1, alertAssets_of_settled hs]
  · intro h later
    have hread : (getAlertStackAssets env later db).1 = (getAlertStackAssets env now first).1 := by
      rw [alertAssets_of_settled hs, h]
    exact ⟨hread, by rw [effectiveTerms_eq, hread, effectiveTerms_eq]⟩

/-- After a first read, every read between and after the calls gives what it gave, exactly where each call is harmless. -/
theorem display_settings_keep_alert_stack_iff (env now : Text) (db : Db) (calls : List Patch) :
    (∀ before, before <+: calls →
      SameReads env now db (run patchUserPreferences (getAlertStackAssets env now db).2 before)) ↔
      Along patchUserPreferences Harmless (getAlertStackAssets env now db).2 calls := by
  have hsettled : Settled env (getAlertStackAssets env now db).2 := settled_migrate now
  refine @forall_prefix_iff _ _ patchUserPreferences Harmless
    (fun s ↦ Settled env s ∧ s.assets = (getAlertStackAssets env now db).1) (SameReads env now db) _ _ ?_ ?_ ?_
    ⟨hsettled, rfl⟩
  · intro s ⟨hs, he⟩
    exact (sameReads_of_settled hs).mpr he
  · intro s c ⟨hs, he⟩ hc
    exact ⟨hs.patch, (assets_patch_iff.mpr hc).trans he⟩
  · intro s c ⟨hs, he⟩ hc hgood
    have hread := (sameReads_of_settled hs.patch).mp hgood
    exact hc (assets_patch_iff.mp (hread.trans he.symm))

end Patches

section

local instance stackInterp : Interp := ascii fun _ ↦ none

/-- What the defaults are stored as, with the one change of the patch below. -/
def compactJson : Text :=
  "\x7b\"density\":\"compact\",\"font_scale\":\"medium\",\"notification_mutes\":\x7b\"api_key_unhealthy\":false," ++
    "\"ioc_watchlist\":false,\"job_error\":false,\"watchlist\":false,\"webhook_failure\":false\x7d," ++
    "\"notification_sound\":true,\"poll_interval_seconds\":30,\"reduce_motion\":false,\"show_technical_ids\":false," ++
    "\"typography_px\":\x7b\"body\":14,\"heading\":15,\"id\":18,\"meta\":13,\"micro\":12,\"subheading\":14," ++
    "\"title\":20\x7d,\"ui_variant\":\"pitch\",\"utc_time\":false\x7d"

local instance stackDisplay : Display := ⟨fun _ _ ↦ .ok compactJson, fun _ ↦ .ok "UTC"⟩

/-- Two admins with a stack each; the second saved its own later. -/
def twoAdmins : Db where
  users := [⟨1, "admin", true⟩, ⟨2, "admin", true⟩]
  preferences id :=
    if id = 1 then some { Row.default with stackTerms := "nginx", updatedAt := some "2026-01-01 08:00:00".toList }
    else if id = 2 then some { Row.default with stackTerms := "postgresql", updatedAt := some "2026-01-02 08:00:00".toList }
    else none
  stackEnvMigrated := some "1"

/-- The first admin makes the tables more compact. -/
def compact : Patch := ⟨1, [("density", .str "compact")], "2026-01-03 08:00:00"⟩

theorem display_settings_change_alert_stack :
    ¬∀ (env now : Text) (db : Db) (calls : List Patch),
      SameReads env now db (run patchUserPreferences (getAlertStackAssets env now db).2 calls) := by
  intro h
  have hread := (h [] [] twoAdmins [compact] []).1
  revert hread
  decide +kernel

end

end Briefr.Preferences.Stack
