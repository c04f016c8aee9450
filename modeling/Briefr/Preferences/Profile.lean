import Briefr.Scoring.Environment

namespace Briefr.Preferences

open Briefr.Python Briefr.Matching.Cpe Briefr.Scoring.AssetMatch Briefr.Scoring.Environment

/-- `str` of a value that is no string is never blank. -/
class PyStr extends Interp where
  strOther_not_blank : ∀ v, strip (strOther v) ≠ []

export PyStr (strOther_not_blank)

section

variable [Interp]

/-- `str(item.get(key) or "")` of the sanitised item. -/
def cleanField (d : Dict) (key : String) : Text × Value := (key, .str (strOr (d.get key)))

def cleanOs : Value → Option Value
  | .dict d => some (.dict [cleanField d "product", cleanField d "version", cleanField d "vendor"])
  | _ => none

def cleanApp : Value → Option Value
  | .dict d =>
    some (.dict [cleanField d "product", cleanField d "cpeProduct", cleanField d "version", cleanField d "vendor"])
  | _ => none

def cleanAi (item : Value) : Option Value := if item.isNone then none else some (.str (str item))

/-- The items that the sanitiser looks at: those of a list. -/
def listItems : Value → List Value
  | .list l => l
  | _ => []

/-- `str(env.get(key) or default)`. -/
def cleanEnv (env : Dict) (key default : String) : Text × Value := (key, .str (str ((env.get key).orElse (.str default))))

def environment (data : Dict) : Dict :=
  match data.get "environment" with
  | .dict env => env
  | _ => []

def sanitizeProfile (data : Dict) : Dict :=
  [("version", (data.get "version").orElse (.num "1" false)),
    ("operatingSystems", .list ((listItems (data.get "operatingSystems")).filterMap cleanOs)),
    ("applications", .list ((listItems (data.get "applications")).filterMap cleanApp)),
    ("environment", .dict [cleanEnv (environment data) "internetFacing" "Some",
      cleanEnv (environment data) "industry" "Technology", cleanEnv (environment data) "criticality" "Medium"]),
    ("aiSystems", .list ((listItems (data.get "aiSystems")).filterMap cleanAi))]

structure ExposureFlags where
  internetFacing : Option Bool
  criticality : Option Text
  privilegedService : Option Bool
  otSafety : Option Bool

def criticalityValues : List Text := ["MISSION_CRITICAL", "IMPORTANT", "SUPPORTING"]

/-- `bool(profile.get(key))` where it is not None. -/
def flag (profile : Dict) (key : String) : Option Bool :=
  if (profile.get key).isNone then none else some (profile.get key).truthy

def criticality (profile : Dict) : Option Text :=
  match profile.get "criticality" with
  | .str s => if upper (strip s) ∈ criticalityValues then some (upper (strip s)) else none
  | _ => none

def extractProfileExposureFlags : Option Dict → ExposureFlags
  | none => ⟨none, none, none, none⟩
  | some profile =>
    ⟨flag profile "internet_facing", criticality profile, flag profile "privileged_service", flag profile "ot_safety"⟩

/-- What is stored for a profile. The column is held as the value that its JSON text decodes to. -/
def storedProfile (profile : Dict) : Value := .dict (sanitizeProfile profile)

/-- `_decode_profile`. -/
def decodeProfile : Value → Option Dict
  | .dict data => some (sanitizeProfile data)
  | _ => none

/-- The saved profile, as it is read back, means what the submitted one does to every reader, and saving it again
changes nothing. -/
structure SameMeaning (p : Dict) : Prop where
  readBack : decodeProfile (storedProfile p) = some (sanitizeProfile p)
  flags : extractProfileExposureFlags (some (sanitizeProfile p)) = extractProfileExposureFlags (some p)
  assets : profileToMatchAssets (some (sanitizeProfile p)) = profileToMatchAssets (some p)
  classify : ∀ cve backend, classifyEnvironment cve (some (sanitizeProfile p)) backend = classifyEnvironment cve (some p) backend

/-- The names of the AI systems are those that their `str` keeps: in a list each item is None or its own `str`, as a
string is; elsewhere there is none. -/
def AiNamesKept (raw : Value) (items : List Value) : Prop :=
  match raw with
  | .list _ => ∀ item ∈ items, item.isNone = true ∨ profileProductName item = strip (str item)
  | _ => ∀ item ∈ items, profileProductName item = []

/-- The profile is not empty, gives none of the exposure fields, and its three collections can be read. -/
structure Plain (p : Dict) : Prop where
  nonempty : p ≠ []
  internetFacing : (p.get "internet_facing").isNone = true
  criticality : ∀ s, p.get "criticality" = .str s → upper (strip s) ∉ criticalityValues
  privilegedService : (p.get "privileged_service").isNone = true
  otSafety : (p.get "ot_safety").isNone = true
  operatingSystems : ∃ l, items p "operatingSystems" = .ok l
  applications : ∃ l, items p "applications" = .ok l
  aiSystems : ∃ l, items p "aiSystems" = .ok l ∧ AiNamesKept (p.get "aiSystems") l

end

end Briefr.Preferences
