import Briefr.Correlation.CampaignsForCve
import Briefr.Correlation.CombinedPriority

namespace Briefr.Correlation

open Briefr.Python Briefr.Library Briefr.Library.StableSort Briefr.Feeds

/-- `datetime.isoformat` of the clock. -/
class Stamps where
  iso : ℕ → Text

section
variable {F : Type} [Interp]

/-- `any(user_sector in s or s in user_sector for s in actor_sectors)`, lower-cased. -/
def anySector (userSector : Text) : List (Json F) → Py Bool
  | [] => .ok false
  | ⟨.str s, _⟩ :: rest =>
    if isIn userSector (lower s) || isIn (lower s) userSector then .ok true else anySector userSector rest
  | _ :: _ => .error .attributeError

def sectorMatch (userSector : Text) (sectors : List (Json F)) : Py Bool :=
  if userSector = [] then .ok false else anySector userSector sectors

def otxActors (adversaries : List Text) : List Text → List (Json F)
  | seen => (adversaries.foldl (fun (acc : List Text × List (Json F)) raw ↦
      let adversary := strip raw
      if adversary = [] ∨ adversary ∈ acc.1 then acc
      else (adversary :: acc.1, acc.2 ++ [.dict [("actor_name".toList, .str adversary),
        ("actor_sectors".toList, .list []), ("user_sector_match".toList, .bool false),
        ("confidence".toList, .str "low".toList), ("source".toList, .str "otx_pulse".toList)]])) (seen, [])).2

variable [FloatOps F]

/-- The groups whose techniques overlap enough with those of the CVE, the greatest overlap first. -/
def scoredGroups (cfg : Config F) (db : Tables F) (cve : Text) : List (F × GroupRow F) :=
  let ids := db.techniques cve
  let overlaps := (db.groups.filter fun g ↦ g.techniques.toFinset ∩ ids ≠ ∅).map fun g ↦
    (FloatOps.div (FloatOps.ofInt (g.techniques.toFinset ∩ ids).card) (FloatOps.ofInt ids.card), g)
  (overlaps.filter fun e ↦ FloatOps.lt e.1 cfg.minOverlap = false).insertionSort fun a b ↦ FloatOps.lt a.1 b.1 = false

def mitreActors (userSector : Text) : List (F × GroupRow F) → List Text → Py (List Text × List (Json F))
  | [], seen => .ok (seen, [])
  | (overlap, g) :: rest, seen =>
    if g.name ∈ seen then mitreActors userSector rest seen
    else do
      let found ← sectorMatch userSector g.sectors
      let (seen, actors) ← mitreActors userSector rest (g.name :: seen)
      return (seen, .dict [("actor_name".toList, .str g.name), ("actor_sectors".toList, .list g.sectors),
        ("user_sector_match".toList, .bool found),
        ("confidence".toList, .str (if FloatOps.lt overlap (FloatOps.lit 5 1) then "low".toList else "medium".toList)),
        ("source".toList, .str "mitre_attack".toList),
        ("technique_overlap".toList, .float (FloatOps.round overlap 2))] :: actors)

def findActorSectorCorrelation (cfg : Config F) (db : Tables F) (cve userSector : Text) : Py (List (Json F)) := do
  let (seen, mitre) ← mitreActors (lower userSector) ((scoredGroups cfg db cve).take 3) []
  return mitre ++ otxActors (db.adversaries cve) seen

def cveMatchesStack (cve description : Text) (products : List (Obj F)) (terms : List Text) : Bool :=
  let blob := lower (" ".toList.intercalate (products.map Obj.shown))
  terms.any fun term ↦ upper term = upper cve || (isIn term (lower description) || isIn term blob)

def vendorsOf (products : List (Obj F)) : Finset Text :=
  (((products.map Obj.shown).filter (':' ∈ ·)).map fun p ↦ strip (lower (p.takeWhile (· ≠ ':')))).toFinset.erase []

def TemporalRow.toJson (r : TemporalRow F) : Json F :=
  .dict [("vendor".toList, .str r.vendor), ("current_week_count".toList, .int r.currentWeekCount),
    ("average_weekly_count".toList, .float r.averageWeeklyCount), ("anomaly_score".toList, .float r.anomalyScore)]

def getTemporalForCve (reading : Reading) (db : Tables F) (cve : Text) : List (Json F) :=
  match db.cves cve with
  | none => []
  | some row =>
    let vendors := vendorsOf row.affectedProducts
    let onStack := cveMatchesStack cve row.description row.affectedProducts db.stackTerms
    if vendors = ∅ then []
    else if db.stackTerms ≠ [] ∧ onStack = false ∧ (row.isKev || row.hasPoc) = false then []
    else (reading.iter vendors).flatMap fun vendor ↦
      (db.temporal.filter fun r ↦ r.vendor = vendor).map TemporalRow.toJson

end

/-- What `_compute_correlation_for_cve` puts into its answer. -/
structure Analysis (F : Type) where
  cve : Text
  campaigns : List (CampaignFinding F)
  infrastructure : List (InfraPeer F)
  actor : List (Json F)
  temporal : List (Json F)
  computedAt : Text
  otxStatus : Text
  engineVersion : Text
  hubEdgesSuppressed : ℕ

section
variable {F : Type}

def Analysis.boosters (a : Analysis F) : Boosters where
  kev := sortedSet (a.campaigns.flatMap fun c ↦ c.boosters.kev)
  exploit := sortedSet (a.campaigns.flatMap fun c ↦ c.boosters.exploit)

def cveIdKey : Text := "cve_id".toList

def computedAtKey : Text := "computed_at".toList

def otxStatusKey : Text := "otx_status".toList

def metaKey : Text := "meta".toList

variable [Interp] [FloatOps F] [Titles] [Attribution F]

def Analysis.unranked (a : Analysis F) : Result F :=
  Dict.empty
    |>.set cveIdKey (.str a.cve)
    |>.set campaignsKey (Json.list (a.campaigns.map CampaignFinding.toJson)).1
    |>.set infrastructureKey (Json.list (a.infrastructure.map InfraPeer.toJson)).1
    |>.set actorKey (Json.list a.actor).1
    |>.set temporalKey (Json.list a.temporal).1
    |>.set boostersKey a.boosters.toJson.1
    |>.set computedAtKey (.str a.computedAt)
    |>.set otxStatusKey (.str a.otxStatus)
    |>.set metaKey (.dict [("engine_version".toList, .str a.engineVersion), ("cache_hit".toList, .bool false),
      ("hub_edges_suppressed".toList, .int a.hubEdgesSuppressed)])

def Analysis.toResult (a : Analysis F) : Result F :=
  a.unranked.set priorityKey (CombinedPriority.computeCorrelationPriority a.unranked)

variable [EdgeRules F] [Iso] [Sha256] [Stamps]

def openInfrastructure (reading : Reading) (db : Tables F) (cve : Text) : List (InfraPeer F) :=
  (findSharedInfrastructure reading (db.confirmations reading.now) db.corroborations (db.sharedIocs cve)).filter
    fun row ↦ !isInfrastructureSuppressed (db.loadSuppressions cve) row.cveIdB

def strongInfraPeers (reading : Reading) (infrastructure : List (InfraPeer F)) : List Text :=
  reading.iter ((infrastructure.filter fun row ↦ row.counts.hash ≠ 0 ∨ row.counts.domain ≠ 0).map InfraPeer.cveIdB).toFinset

def answer (cfg : Config F) (reading : Reading) (db : Tables F) (cve : Text) (actor : List (Json F))
    (campaigns : List (CampaignFinding F)) : Analysis F where
  cve
  campaigns
  infrastructure := (openInfrastructure reading db cve).filter fun row ↦
    row.cveIdB ∉ campaigns.flatMap CampaignFinding.members
  actor
  temporal := getTemporalForCve reading db cve
  computedAt := Stamps.iso reading.now
  otxStatus := if campaigns ≠ [] ∨ cfg.otxConfigured = true then "ok".toList else "not_configured".toList
  engineVersion := cfg.engineVersion
  hubEdgesSuppressed := db.hubEdges cve

def computeCorrelationForCve (cfg : Config F) (reading : Reading) (db : Tables F) (cve userSector : Text) :
    Py (Analysis F) := do
  let actor ← findActorSectorCorrelation cfg db cve userSector
  let campaigns ← getCampaignsForCve cfg db cve (strongInfraPeers reading (openInfrastructure reading db cve))
  return answer cfg reading db cve actor campaigns

omit [Titles] in
theorem compute_eq_ok {cfg : Config F} {reading : Reading} {db : Tables F} {cve userSector : Text} {a : Analysis F} :
    computeCorrelationForCve cfg reading db cve userSector = .ok a ↔
      ∃ actor campaigns, findActorSectorCorrelation cfg db cve userSector = .ok actor ∧
        getCampaignsForCve cfg db cve (strongInfraPeers reading (openInfrastructure reading db cve)) = .ok campaigns ∧
        answer cfg reading db cve actor campaigns = a := by
  simp only [computeCorrelationForCve, bind_eq_ok, pure_eq_ok, Except.ok.injEq, exists_and_left]

end

end Briefr.Correlation
