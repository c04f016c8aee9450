import Briefr.Library.Runs
import Briefr.Tracking.UsageReads

namespace Briefr.Enrichment.IocQuota

open Briefr.Python Briefr.Library.Runs Briefr.Library.Tasks Briefr.Library.Counters
open Briefr.Tracking Briefr.Tracking.UsageReads Briefr.Tracking.Periods
open Briefr.Outbound.Pacing (Time)

/-- The providers of `lookup_ioc` that have a configured limit. -/
inductive Provider
  | virustotal
  | abuseipdb
  | greynoise
  | otx
  deriving DecidableEq

def Provider.name : Provider → Text
  | .virustotal => "virustotal"
  | .abuseipdb => "abuseipdb"
  | .greynoise => "greynoise"
  | .otx => "otx"

/-- `get_otx_hourly_limit`, of the setting that `int` reads. -/
def getOtxHourlyLimit (setting : ℤ) : ℕ := (max 1 setting).toNat

/-- What `has_quota` compares, in its order: the usage that it reads and the limit in `API_LIMITS`. -/
def limits (setting : ℤ) : Provider → List (Request × ℕ)
  | .virustotal => [(.getTodayUsage, 500), (.getMonthUsage, 15500)]
  | .abuseipdb => [(.getTodayUsage, 1000)]
  | .greynoise => [(.getWeekUsage, 50)]
  | .otx => [(.getHourUsage, getOtxHourlyLimit setting)]

/-- The `retries` of a request. The quota-billed lookups ask for none and `_otx_get` leaves the default. -/
def retries : Provider → ℕ
  | .otx => 2
  | _ => 0

/-- `_quota_safe_get` answers for every failure, and its callers then record the call. The other two record it where
there was a response. -/
def recordsFailures : Provider → Bool
  | .virustotal | .abuseipdb => true
  | .greynoise | .otx => false

/-- What a lookup awaits: `has_quota`, the feed cache, a request. -/
inductive Op
  | gate (p : Provider)
  | cache (p : Provider)
  | request (p : Provider)

def Op.provider : Op → Provider
  | .gate p | .cache p | .request p => p

/-- GreyNoise is asked for its quota twice, by `lookup_ioc` and by `greynoise_for_ip`. -/
def lookupOps : Provider → List Op
  | .virustotal => [.gate .virustotal, .request .virustotal]
  | .abuseipdb => [.gate .abuseipdb, .request .abuseipdb]
  | .greynoise => [.gate .greynoise, .cache .greynoise, .gate .greynoise, .request .greynoise]
  | .otx => [.cache .otx, .gate .otx, .request .otx]

inductive IocType
  | ip
  | hash
  | domain

/-- A call whose arguments have passed the checks: which keys there are, and whether there is a database. -/
structure Call where
  iocType : IocType
  vtKey : Bool
  abuseKey : Bool
  greynoiseKey : Bool
  otxKey : Bool
  includeGreynoise : Bool
  db : Bool

def lookupIoc (c : Call) : List Op :=
  (if c.vtKey then lookupOps .virustotal else []) ++
    (match c.iocType with
      | .ip =>
        (if c.abuseKey then lookupOps .abuseipdb else []) ++
          if c.includeGreynoise && c.greynoiseKey && c.db then lookupOps .greynoise else []
      | .hash | .domain => []) ++
    if c.otxKey && c.db then lookupOps .otx else []

/-- A request that was sent, with the time at which a call was recorded for it. -/
structure Attempt where
  time : Instant
  recorded : Option Instant

/-- The first call that is recorded for a request is the one that counts as its own. -/
def Attempt.record (now : Instant) (x : Attempt) : Attempt := { x with recorded := x.recorded.or (some now) }

/-- A limit that a lookup has passed, and when it read the usage. -/
structure Pass where
  provider : Provider
  request : Request
  now : Utc

/-- Where the first of the remaining operations stands. A lookup that sends again knows the request before. -/
inductive Phase
  | checking (passed : List Pass) (todo : List (Request × ℕ)) (reading : Option Reader)
  | cleared (passed : List Pass) (left : ℕ) (last : Option ℕ)
  | sent (attempt left : ℕ)

structure Task where
  ops : List Op
  phase : Phase

/-- The counters with their caches, the lookups, the requests, and those whose metering is under way. -/
structure State where
  world : World
  tasks : ℕ → Option Task
  nextTask : ℕ
  attempts : Provider → ℕ → Option Attempt
  nextAttempt : ℕ
  meters : List (Provider × ℕ)

def State.init : State := ⟨World.init, fun _ ↦ none, 0, fun _ _ ↦ none, 0, []⟩

/-- What comes of a request: a response for the caller, HTTP 429 or a 403 that means the same, one of `RETRYABLE_STATUS`,
or an `httpx.HTTPError` without a response. -/
inductive Outcome
  | answered
  | rateLimited
  | serverError
  | transportError

inductive Event
  | start (c : Call)
  | read (t : ℕ) (now : Instant) (mono : Time)
  | query (t : ℕ)
  | answer (t : ℕ)
  | hit (t : ℕ)
  | miss (t : ℕ)
  | send (t : ℕ) (now : Instant)
  | circuitOpen (t : ℕ) (now : Instant)
  | respond (t : ℕ) (outcome : Outcome) (now : Instant)
  | abort (t : ℕ)
  | meter (p : Provider) (a : ℕ) (now : Instant)
  | meterFails (p : Provider) (a : ℕ)
  | background (e : UsageReads.Event)

/-- A record for one of the providers, which no one else makes. -/
def ofProvider : UsageReads.Event → Bool
  | .usage (.record service _ _) => decide (service ∈ [Provider.virustotal, .abuseipdb, .greynoise, .otx].map Provider.name)
  | _ => false

section
variable (setting : ℤ)

/-- The next operation begins. Only a request still rests on the check before it. -/
def enter (ops : List Op) (passed : List Pass) : Task :=
  match ops with
  | .gate p :: _ => ⟨ops, .checking [] (limits setting p) none⟩
  | .request p :: _ => ⟨ops, .cleared passed (retries p) none⟩
  | _ => ⟨ops, .cleared [] 0 none⟩

/-- The rest of the lookup at this provider is left out. -/
def skip (ops : List Op) (p : Provider) : Task := enter setting (ops.dropWhile fun op ↦ op.provider = p) []

/-- `if … await get_…_usage(service) >= limit: return False`, and then the next limit. -/
def verdict (ops : List Op) (p : Provider) (passed : List Pass) (limit : Request × ℕ)
    (rest : List (Request × ℕ)) (now : Utc) (usage : ℕ) : Task :=
  if limit.2 ≤ usage then skip setting ops p
  else if rest.isEmpty then enter setting ops (⟨p, limit.1, now⟩ :: passed)
  else ⟨.gate p :: ops, .checking (⟨p, limit.1, now⟩ :: passed) rest none⟩

end

def State.setTask (s : State) (t : ℕ) (x : Option Task) : State := { s with tasks := Function.update s.tasks t x }

def State.setAttempt (s : State) (p : Provider) (a : ℕ) (x : Option Attempt) : State :=
  { s with attempts := Function.update s.attempts p (Function.update (s.attempts p) a x) }

/-- `record_api_call(service, 1)`, for the request if there is one. -/
def State.record (s : State) (p : Provider) (a : Option ℕ) (now : Instant) : State :=
  let s := { s with world := UsageReads.step s.world (.usage (.record p.name 1 now.toUtc)) }
  match a with
  | none => s
  | some a => s.setAttempt p a ((s.attempts p a).map (Attempt.record now))

/-- `_meter_attempt`. -/
def State.startMeter (s : State) (p : Provider) (a : ℕ) : State := { s with meters := (p, a) :: s.meters }

def State.reader (s : State) (r : Request) (p : Provider) (now : Instant) (mono : Time) : Reader :=
  s.world.reader r p.name now.toUtc mono

/-- `committed + pending`. -/
def State.usage (s : State) (x : Reader) (committed : ℕ) : ℕ := committed + total x.covers s.world.usage.pending

section
variable (setting : ℤ)

/-- The request is metered. What is sent again is not recorded, and what the lookup is done with is, or is not. -/
def respond (s : State) (t : ℕ) (p : Provider) (ops : List Op) (a left : ℕ) (outcome : Outcome) (now : Instant) : State :=
  let metered := s.startMeter p a
  let recorded := (metered.record p (some a) now).setTask t (some (enter setting ops []))
  let again (left : ℕ) := metered.setTask t (some ⟨.request p :: ops, .cleared [] left (some a)⟩)
  match outcome with
  | .answered => recorded
  | .rateLimited => again (if left = 0 then retries p else left - 1)
  | .serverError => if left = 0 then recorded else again (left - 1)
  | .transportError =>
    if left = 0 then
      if recordsFailures p then recorded else metered.setTask t (some (enter setting ops []))
    else again (left - 1)

def step (s : State) : Event → State
  | .start c => { s.setTask s.nextTask (some (enter setting (lookupIoc c) [])) with nextTask := s.nextTask + 1 }
  | .read t now mono =>
    match s.tasks t with
    | some ⟨.gate p :: ops, .checking passed (limit :: rest) none⟩ =>
      let x := s.reader limit.1 p now mono
      match s.world.cached x with
      | some value => s.setTask t (some (verdict setting ops p passed limit rest now.toUtc (s.usage x value)))
      | none => s.setTask t (some ⟨.gate p :: ops, .checking passed (limit :: rest) (some x)⟩)
    | _ => s
  | .query t =>
    match s.tasks t with
    | some ⟨ops, .checking passed todo (some x)⟩ =>
      if x.value.isSome then s
      else s.setTask t (some ⟨ops, .checking passed todo (some { x with value := some (total x.covers s.world.usage.rows) })⟩)
    | _ => s
  | .answer t =>
    match s.tasks t with
    | some ⟨.gate p :: ops, .checking passed (limit :: rest) (some x)⟩ =>
      match x.value with
      | some value =>
        { s with world := s.world.store x value }.setTask t
          (some (verdict setting ops p passed limit rest x.now (s.usage x value)))
      | none => s
    | _ => s
  -- the feed cache has the answer, or there is nothing to ask for
  | .hit t =>
    match s.tasks t with
    | some ⟨.cache p :: ops, .cleared _ _ _⟩ => s.setTask t (some (skip setting ops p))
    | _ => s
  | .miss t =>
    match s.tasks t with
    | some ⟨.cache _ :: ops, .cleared _ _ _⟩ => s.setTask t (some (enter setting ops []))
    | _ => s
  | .send t now =>
    match s.tasks t with
    | some ⟨.request p :: ops, .cleared _ left _⟩ =>
      { (s.setAttempt p s.nextAttempt (some ⟨now, none⟩)).setTask t (some ⟨.request p :: ops, .sent s.nextAttempt left⟩) with
        nextAttempt := s.nextAttempt + 1 }
    | _ => s
  -- the circuit is looked at before each round of attempts
  | .circuitOpen t now =>
    match s.tasks t with
    | some ⟨.request p :: ops, .cleared _ left last⟩ =>
      if left = retries p then
        (if recordsFailures p then s.record p last now else s).setTask t (some (enter setting ops []))
      else s
    | _ => s
  | .respond t outcome now =>
    match s.tasks t with
    | some ⟨.request p :: ops, .sent a left⟩ => respond setting s t p ops a left outcome now
    | _ => s
  -- an exception that the lookup does not handle ends it
  | .abort t => s.setTask t none
  | .meter p a now => if (p, a) ∈ s.meters then { s.record p (some a) now with meters := s.meters.erase (p, a) } else s
  -- metering is off, or fails before it records the call
  | .meterFails p a => { s with meters := s.meters.erase (p, a) }
  | .background e => if ofProvider e then s else { s with world := UsageReads.step s.world e }

end

end Briefr.Enrichment.IocQuota
