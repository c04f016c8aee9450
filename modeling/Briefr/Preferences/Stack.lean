import Briefr.Preferences.Profile
import Briefr.Library.Runs
import Briefr.Library.StableSort
import Mathlib.Data.List.Lex
import Mathlib.Data.Prod.Lex
import Mathlib.Order.WithBot
import Mathlib.Logic.Function.Basic
import Mathlib.Data.Int.Notation
import Mathlib.Algebra.Order.Ring.Int

namespace Briefr.Preferences.Stack

open Briefr.Python Briefr.Matching.Cpe Briefr.Scoring.AssetMatch Briefr.Library Briefr.Library.StableSort

structure User where
  id : ℤ
  role : Text
  isActive : Bool

/-- A row of `user_preferences`. -/
structure Row where
  stackTerms : Text
  profileJson : Option Text
  displayPrefsJson : Option Text
  timezone : Text
  rememberProfileOnServer : Bool
  updatedAt : Option Text

/-- The columns that an INSERT does not name. -/
def Row.default : Row := ⟨[], none, none, "UTC", false, none⟩

structure Db where
  users : List User
  /-- `user_preferences`, by its primary key. -/
  preferences : ℤ → Option Row
  /-- The value of `stack_terms_env_migrated` in `sync_state`. -/
  stackEnvMigrated : Option Text

/-- `merge_display_prefs` of the stored preferences and a patch, with what `encode_display_prefs` makes of it, and
`validate_timezone`. -/
class Display where
  mergedJson : Option Text → Dict → Py Text
  validateTimezone : Value → Py Text

export Display (mergedJson validateTimezone)

section

variable [Interp]

def termsToAssets (stackTerms : Text) : List Asset :=
  (stackTerms.splitOn ',').filterMap fun raw ↦ if strip raw = [] then none else some ⟨strip raw, [], []⟩

/-- `assets_to_terms`: each product once. -/
def assetsToTerms (assets : List Asset) : List Text :=
  assets.foldl (fun terms asset ↦
    if strip asset.product ≠ [] ∧ strip asset.product ∉ terms then terms ++ [strip asset.product] else terms) []

/-- A row of the sanitised profile, as an asset under the name that it is matched by. -/
def rowAsset (name : Dict → Value) : Value → Option Asset
  | .dict row =>
    if strip (strOr (name row)) = [] then none
    else some ⟨strip (strOr (name row)), textField row "version", textField row "vendor"⟩
  | _ => none

def osName (row : Dict) : Value := row.get "product"

def appName (row : Dict) : Value := (Dict.get row "cpeProduct").orElse (row.get "product")

def profileToAssets : Option Dict → List Asset
  | none | some [] => []
  | some profile =>
    (listItems (Dict.get (sanitizeProfile profile) "operatingSystems")).filterMap (rowAsset osName) ++
      (listItems (Dict.get (sanitizeProfile profile) "applications")).filterMap (rowAsset appName)

/-- `profile_json` as it is loaded for alerts. -/
def loadedProfile : Option Text → Option Dict
  | none | some [] => none
  | some raw =>
    match loads raw with
    | some (.dict profile) => some profile
    | _ => none

/-- The assets of a stack: those of its profile, else those of its terms. -/
def Row.assets (row : Row) : List Asset :=
  if profileToAssets (loadedProfile row.profileJson) ≠ [] then profileToAssets (loadedProfile row.profileJson)
  else termsToAssets row.stackTerms

end

def isActiveAdmin (u : User) : Bool := decide (u.role = "admin".toList) && u.isActive

def Db.admins (db : Db) : List User := db.users.filter isActiveAdmin

def Db.stacks (db : Db) : List (ℤ × Row) := db.admins.filterMap fun u ↦ (db.preferences u.id).map fun row ↦ (u.id, row)

/-- `ORDER BY updated_at DESC`, where NULL comes last; rows of one date come by id, as both tables are scanned. -/
def rank (updatedAt : WithBot Text) (id : ℤ) : (WithBot Text)ᵒᵈ ×ₗ ℤ := toLex (OrderDual.toDual updatedAt, id)

def newest (rows : List (ℤ × Row)) : Option (ℤ × Row) := (sortBy (fun p ↦ rank p.2.updatedAt p.1) rows).head?

/-- `COALESCE(p.updated_at, '')` of an admin, who may have no row. -/
def Db.touchedAt (db : Db) (u : User) : Text := ((db.preferences u.id).bind Row.updatedAt).getD []

def Db.firstAdmin (db : Db) : Option User := (sortBy (fun u ↦ rank (db.touchedAt u : Text) u.id) db.admins).head?

def Db.setRow (db : Db) (id : ℤ) (row : Row) : Db :=
  { db with preferences := Function.update db.preferences id (some row) }

/-- `upsert_user_stack` without a profile. -/
def upsertUserStack (db : Db) (id : ℤ) (stackTerms : Text) (now : Text) : Db :=
  db.setRow id { (db.preferences id).getD Row.default with stackTerms := stackTerms, updatedAt := some now }

section

variable [Interp]

/-- The migration was made, or there is nothing or nobody to make it for. -/
def migrated (db : Db) : Bool := !(db.stackEnvMigrated.getD []).isEmpty

/-- `migrate_env_stack_terms_once`, with `BRIEFR_STACK_TERMS`. -/
def migrateEnvStackTermsOnce (env : Text) (now : Text) (db : Db) : Db :=
  if migrated db then db
  else if strip env = [] then db
  else
    match db.firstAdmin with
    | none => db
    | some admin =>
      let row := (db.preferences admin.id).getD Row.default
      let copied :=
        if strip row.stackTerms = [] ∧ profileToAssets (loadedProfile row.profileJson) = [] then
          upsertUserStack db admin.id (strip env) now
        else db
      { copied with stackEnvMigrated := some "1" }

/-- The assets that the query of `get_alert_stack_assets` finds. -/
def Db.assets (db : Db) : List Asset :=
  match newest db.stacks with
  | none => []
  | some (_, row) => row.assets

def getAlertStackAssets (env : Text) (now : Text) (db : Db) : List Asset × Db :=
  let db := migrateEnvStackTermsOnce env now db
  (db.assets, db)

def getEffectiveStackTerms (env : Text) (now : Text) (db : Db) : Text × Db :=
  let (assets, db) := getAlertStackAssets env now (migrateEnvStackTermsOnce env now db)
  if assets ≠ [] then ([','].intercalate (assetsToTerms assets), db) else ([], db)

end

/-- A call of `patch_user_preferences`, with the time that its clock shows. -/
structure Patch where
  user : ℤ
  patch : Dict
  now : Text

section

variable [Display]

/-- The timezone of `get_user_preferences`. -/
def currentTimezone : Option Row → Text
  | none => "UTC"
  | some row =>
    match validateTimezone (.str (if row.timezone = [] then "UTC" else row.timezone)) with
    | .ok tz => tz
    | .error _ => "UTC"

/-- The display columns of a call, or the exception that it raises. -/
def displayColumns (db : Db) (c : Patch) : Py (Text × Text × Bool) := do
  let current := db.preferences c.user
  let displayJson ← mergedJson (current.bind Row.displayPrefsJson) c.patch
  let timezone ←
    match c.patch.lookup "timezone".toList with
    | some raw => validateTimezone raw
    | none => .ok (currentTimezone current)
  let remember :=
    match c.patch.lookup "remember_profile_on_server".toList with
    | some raw => raw.truthy
    | none => (current.map Row.rememberProfileOnServer).getD false
  return (displayJson, timezone, remember)

def patchUserPreferences (db : Db) (c : Patch) : Db :=
  match displayColumns db c with
  | .ok (displayJson, timezone, remember) =>
    db.setRow c.user { (db.preferences c.user).getD Row.default with
      displayPrefsJson := some displayJson, timezone := timezone, rememberProfileOnServer := remember,
      updatedAt := some c.now }
  | .error _ => db

end

end Briefr.Preferences.Stack
