import Briefr.Python.Objects
import Mathlib.Data.List.Sort

namespace Briefr.Correlation

open Briefr.Python Obj

/-- A correlation response. -/
abbrev Result (F : Type) := Library.Dict Text (Obj F)

def campaignsKey : Text := "campaigns"

def infrastructureKey : Text := "infrastructure"

def actorKey : Text := "actor"

def temporalKey : Text := "temporal"

def boostersKey : Text := "boosters"

def priorityKey : Text := "priority"

/-- `str.title`. -/
class Titles where
  title : Text → Text

namespace Result

variable {F : Type}

def get (r : Result F) (key : Text) : Obj F := (r.get? key).getD .none

/-- `result.get(key) or []`. -/
def part (r : Result F) (key : Text) : List (Obj F) := (r.get key).items

end Result

namespace CombinedPriority

section
variable {F : Type} [FloatOps F]

def zero : F := FloatOps.lit 0 0

def one : F := FloatOps.lit 1 0

def minOne (x : F) : F := if FloatOps.lt x one then x else one

def positive (x : F) : Bool := FloatOps.lt zero x

/-- The first of the greatest items, `max(items, key=...)`. -/
def bestBy (key : Obj F → F) : List (Obj F) → Obj F
  | [] => .none
  | first :: rest => rest.foldl (fun best i ↦ if FloatOps.lt (key best) (key i) then i else best) first

/-- `round(cap * min(1.0, x), 1)`. -/
def capped (cap : ℤ) (x : F) : F := FloatOps.round (FloatOps.mul (FloatOps.ofInt cap) (minOne x)) 1

def contribution (points : F) (sentence : Text) : F × Option Text :=
  if positive points then (points, some sentence) else (zero, none)

variable [Interp]

def confidenceFraction (value : Obj F) : F :=
  if lower value.text = ("high" : String) then one
  else if lower value.text = ("medium" : String) then FloatOps.lit 625 3
  else if lower value.text = ("low" : String) then FloatOps.lit 25 2
  else zero

def bestByConfidence (items : List (Obj F)) : Obj F := bestBy (fun i ↦ confidenceFraction (i.get ("confidence" : String))) items

def campaignContribution (campaigns : List (Obj F)) : F × Option Text :=
  if campaigns = [] then (zero, none)
  else
    let best := bestByConfidence campaigns
    let fraction := confidenceFraction (best.get ("confidence" : String))
    let boosters := best.get ("boosters" : String)
    let kev := (boosters.get ("kev" : String)).truthy
    let exploit := (boosters.get ("exploit" : String)).truthy
    let bonus := if kev || exploit then FloatOps.lit 15 2 else zero
    let sentence := "Linked to a ".toList ++ (best.getD ("confidence" : String) (.str ("low" : String))).shown ++
      "-confidence campaign (".toList ++ (best.getD ("label" : String) (.str ("OTX pulse" : String))).shown ++ ").".toList
    let sentence :=
      if kev then sentence ++ " Includes a KEV-listed member.".toList
      else if exploit then sentence ++ " Includes a publicly exploited member.".toList
      else sentence
    contribution (capped 40 (FloatOps.add fraction bonus)) sentence

def infrastructureContribution (infrastructure : List (Obj F)) : F × Option Text :=
  if infrastructure = [] then (zero, none)
  else
    let best := bestByConfidence infrastructure
    let fraction := confidenceFraction (best.get ("confidence" : String))
    let shared := FloatOps.mul (best.get ("shared_ioc_count" : String)).number (FloatOps.lit 2 2)
    let bonus := if FloatOps.lt shared (FloatOps.lit 2 1) then shared else FloatOps.lit 2 1
    let sentence := "Shares infrastructure with ".toList ++
      (best.getD ("cve_id_b" : String) (.str ("another CVE" : String))).shown ++ " (".toList ++
      (best.getD ("confidence" : String) (.str ("low" : String))).shown ++ " confidence).".toList
    contribution (capped 25 (FloatOps.add fraction bonus)) sentence

def actorContribution (actor : List (Obj F)) : F × Option Text :=
  if actor = [] then (zero, none)
  else
    let sectorMatches := actor.filter fun a ↦ (a.get ("user_sector_match" : String)).truthy
    let best := bestByConfidence (if sectorMatches = [] then actor else sectorMatches)
    let bonus := if sectorMatches = [] then zero else FloatOps.lit 3 1
    let sentence :=
      if sectorMatches = [] then
        "Linked to ".toList ++ (best.getD ("actor_name" : String) (.str ("an actor" : String))).shown ++ " via ".toList ++
          (best.getD ("source" : String) (.str ("OTX" : String))).shown ++ ".".toList
      else
        (best.getD ("actor_name" : String) (.str ("An actor" : String))).shown ++
          " is historically associated with targeting your declared sector. Verify relevance to your environment.".toList
    contribution (capped 20 (FloatOps.add (confidenceFraction (best.get ("confidence" : String))) bonus)) sentence

variable [Titles]

def formatVendorName (vendor : Text) : Text :=
  let v := (strip vendor).map fun c ↦ if c = '_' then ' ' else c
  if v = [] then "This product vendor".toList else Titles.title v

def temporalContribution (temporal : List (Obj F)) : F × Option Text :=
  if temporal = [] then (zero, none)
  else
    let best := bestBy (fun t ↦ (t.get ("anomaly_score" : String)).number) temporal
    let score := (best.get ("anomaly_score" : String)).number
    let weekCount := match best.get ("current_week_count" : String) with
      | .int n => n
      | _ => 0
    let sentence := "Unusual CVE volume for ".toList ++ formatVendorName (best.get ("vendor" : String)).text ++
      ": ".toList ++ FloatOps.strOther (.int weekCount : Obj F) ++ " published this week (~".toList ++
      FloatOps.fixed score ++ "× the normal weekly average of ".toList ++
      FloatOps.fixed (best.get ("average_weekly_count" : String)).number ++ ").".toList
    contribution (capped 15 (FloatOps.div score (FloatOps.lit 5 0))) sentence

structure Component (F : Type) where
  signal : Text
  points : F
  sentence : Option Text

def Component.toObj (c : Component F) : Obj F :=
  .dict [("signal".toList, .str c.signal), ("points".toList, .float c.points),
    ("sentence".toList, (c.sentence.map Obj.str).getD .none)]

def contributions (r : Result F) : List (Component F) :=
  [(("campaign" : String), campaignContribution (r.part campaignsKey)),
    (("infrastructure" : String), infrastructureContribution (r.part infrastructureKey)),
    (("actor" : String), actorContribution (r.part actorKey)),
    (("temporal" : String), temporalContribution (r.part temporalKey))].map fun e ↦ ⟨String.toList e.1, e.2.1, e.2.2⟩

/-- The sort by points from the greatest, which keeps the order of equals. -/
def ranked (components : List (Component F)) : List (Component F) :=
  components.insertionSort fun a b ↦ FloatOps.lt a.points b.points = false

def computeCorrelationPriority (r : Result F) : Obj F :=
  let total := (contributions r).foldl (fun total c ↦ FloatOps.add total c.points) zero
  let components := ranked ((contributions r).filter fun c ↦ positive c.points)
  let hundred : F := FloatOps.lit 100 0
  .dict [("score".toList, .float (FloatOps.round (if FloatOps.lt total hundred then total else hundred) 1)),
    ("components".toList, .list (components.map Component.toObj))]

/-- The score reads four parts of the response and no other. -/
theorem computeCorrelationPriority_congr {r r' : Result F} (hc : r.get campaignsKey = r'.get campaignsKey)
    (hi : r.get infrastructureKey = r'.get infrastructureKey) (ha : r.get actorKey = r'.get actorKey)
    (ht : r.get temporalKey = r'.get temporalKey) : computeCorrelationPriority r = computeCorrelationPriority r' := by
  have h : contributions r = contributions r' := by
    simp only [contributions, Result.part, hc, hi, ha, ht]
  simp only [computeCorrelationPriority, h]

theorem plain_computeCorrelationPriority (r : Result F) : (computeCorrelationPriority r).Plain := by
  have hp : ∀ c : Component F, c.toObj.Plain := by
    intro c
    cases hs : c.sentence <;> simp [Component.toObj, hs]
  simp [computeCorrelationPriority, hp]

end

end CombinedPriority

end Briefr.Correlation
