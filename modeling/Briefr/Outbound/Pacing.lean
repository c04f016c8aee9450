import Mathlib.Data.Rat.Defs
import Mathlib.Algebra.Order.Ring.Rat
import Briefr.Python.Text

namespace Briefr.Outbound.Pacing

open Briefr.Python

/-- Seconds. -/
abbrev Time := ℚ

structure SourcePacing where
  minIntervalSeconds : Time
  maxConcurrent : ℕ

def single (interval : Time) : SourcePacing := ⟨interval, 1⟩

/-- `PACING_PROFILES`. -/
def pacingProfiles : List (Text × SourcePacing) :=
  [("nvd", single 6), ("groq", single 15), ("gemini", single 1), ("cerebras", single 1), ("openrouter", single 2),
    ("anthropic", single 1), ("virustotal", single 15), ("abuseipdb", single (1 / 2)), ("greynoise", single 2),
    ("github", single (3 / 4)), ("otx", single (1 / 2)), ("epss", single 2), ("osv", single (1 / 4)), ("kev", single 0),
    ("mitre", ⟨1, 2⟩), ("rss", ⟨1 / 2, 3⟩), ("webhook", ⟨1 / 2, 2⟩), ("sploitus", single 1), ("circl", single 2),
    ("malwarebazaar", single 2), ("urlhaus", single 2), ("threatfox", single 2), ("feodo", single 2),
    ("phishtank", single 5), ("tranco", single 30), ("vulncheck", single (60 / 1000)), ("default", single 1)]

/-- `PACING_PROFILES.get(key, PACING_PROFILES["default"])`. -/
def profile (key : Text) : SourcePacing := (pacingProfiles.lookup key).getD (single 1)

/-- `_SOURCE_ALIASES`. -/
def sourceAliases : List (Text × Text) :=
  [("epss_bulk", "epss"), ("poc_github", "github"), ("cvelistv5", "github"), ("vulnrichment", "github"),
    ("metasploit", "github"), ("nuclei", "github"), ("exploitdb", "github"), ("atlas", "github")]

def resolvePacingKey (source : Text) : Text :=
  if "rss:".toList.isPrefixOf source then "rss"
  else if "webhook.".toList.isPrefixOf source then "webhook"
  else (sourceAliases.lookup source).getD source

inductive Tier
  | free
  | premiumAuto
  | custom

/-- What the environment sets: the tier, the operator's overrides, the services that have an API key,
and the intervals that the LLM modules work out for their own services. -/
structure Settings where
  tier : Tier
  overrides : Text → Option Time
  hasKey : Text → Bool
  llmInterval : Text → Option Time

def nvdInterval (s : Settings) : Time := if s.hasKey "nvd" then 60 / 50 else 60 / 5

def githubInterval (s : Settings) : Time := if s.hasKey "github" then 3600 / 5000 else 3600 / 60

def baseIntervalForKey (s : Settings) (key : Text) : Time :=
  let interval :=
    if key = "nvd".toList then nvdInterval s
    else if key = "github".toList then githubInterval s
    else if key ∈ ["groq".toList, "gemini".toList, "cerebras".toList, "openrouter".toList] then
      (s.llmInterval key).getD (profile key).minIntervalSeconds
    else (profile key).minIntervalSeconds
  max interval 0

def customOverride (s : Settings) (key : Text) : Option SourcePacing :=
  (s.overrides key).map fun interval ↦ ⟨interval, (profile key).maxConcurrent⟩

def premiumProfile (s : Settings) (key : Text) : SourcePacing :=
  ⟨max (baseIntervalForKey s key * (1 / 2)) 0, (profile key).maxConcurrent⟩

def standardProfile (s : Settings) (key : Text) : SourcePacing :=
  ⟨baseIntervalForKey s key, (profile key).maxConcurrent⟩

def getSourcePacing (s : Settings) (source : Text) : SourcePacing :=
  let key := resolvePacingKey source
  match s.tier with
  | .custom => (customOverride s key).getD (standardProfile s key)
  | .premiumAuto => if s.hasKey key then premiumProfile s key else standardProfile s key
  | .free => standardProfile s key

theorem getSourcePacing_maxConcurrent (s : Settings) (source : Text) :
    (getSourcePacing s source).maxConcurrent = (profile (resolvePacingKey source)).maxConcurrent := by
  rw [getSourcePacing]
  cases s.tier with
  | free => rfl
  | premiumAuto =>
    dsimp only
    split <;> rfl
  | custom =>
    dsimp only [customOverride]
    cases s.overrides (resolvePacingKey source) <;> rfl

end Briefr.Outbound.Pacing
