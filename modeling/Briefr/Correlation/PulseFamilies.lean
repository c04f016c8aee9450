import Mathlib.Data.Finset.Sort
import Mathlib.Algebra.Order.Field.Rat
import Briefr.Library.Dict
import Briefr.Library.UnionFind
import Briefr.Correlation.OldestPulse

namespace Briefr.Correlation

open Briefr.Python Briefr.Library Briefr.Library.UnionFind

/-- The first twelve hexadecimal digits of the SHA-256 of a text. -/
class Sha256 where
  digest : Text → Text

export Sha256 (digest)

section
variable [Sha256]

def familyIdForOldestPulse (pulseId : Text) : Text := "fam_".toList ++ digest pulseId

def campaignIdForFamily (_familyId oldestPulseId : Text) : Text := "camp_".toList ++ digest oldestPulseId

def legacyCampaignIdForPulse (pulseId : Text) : Text := "camp_".toList ++ digest pulseId

theorem legacyCampaignIdForPulse_ne_nil (pulseId : Text) : legacyCampaignIdForPulse pulseId ≠ [] :=
  List.append_ne_nil_of_left_ne_nil (by decide) _

theorem familyIdForOldestPulse_inj {ids : Set Text} (hd : Set.InjOn digest ids) {p q : Text} (hp : p ∈ ids)
    (hq : q ∈ ids) : familyIdForOldestPulse p = familyIdForOldestPulse q ↔ p = q := by
  constructor
  · intro h
    exact hd hp hq (List.append_cancel_left h)
  · exact congrArg _

end

section
variable [Interp]

def expect (word text : Text) : Option Text := if word.isPrefixOf text then some (text.drop word.length) else none

def expectRun (p : Char → Bool) (text : Text) : Option Text :=
  if text.head?.any p then some (text.dropWhile p) else none

/-- `\s*\|\s*part\s+\d+\s*/\s*\d+\s*$`, read backwards. -/
def dropPart (backwards : Text) : Option Text := do
  let rest ← expectRun isDecimal (backwards.dropWhile isSpace)
  let rest ← expect ['/'] (rest.dropWhile isSpace)
  let rest ← expectRun isDecimal (rest.dropWhile isSpace)
  let rest ← expectRun isSpace rest
  let rest ← expect "trap".toList rest
  let rest ← expect ['|'] (rest.dropWhile isSpace)
  return rest.dropWhile isSpace

/-- `re.sub(r"\s+", " ", text)`; the flag is set inside a run. -/
def collapse : Bool → Text → Text
  | _, [] => []
  | inRun, c :: text =>
    if isSpace c then if inRun then collapse true text else ' ' :: collapse true text
    else c :: collapse false text

def normalizePulseName (name : Text) : Text :=
  let text := lower (strip name)
  let text := ((dropPart text.reverse).map List.reverse).getD text
  let text := text.map fun c ↦ if c = '_' then ' ' else c
  let text := strip (collapse false text)
  strip (text.rdropWhile fun c ↦ c ∈ ['.', '!', '?'])

end

structure Pulse where
  pulseId : Text
  pulseName : Text
  createdDate : Option Text
  deriving DecidableEq

structure IocRow where
  pulseId : Text
  iocType : Text
  iocValue : Text

structure FamilyRow where
  pulseId : Text
  familyId : Text
  deriving DecidableEq

/-- The tables that the rebuild reads, their rows in the order in which the queries return them. Pulses are stored under
their id and never without one; a link is a pulse and a CVE; an indicator without a degree has none of its own. -/
structure Otx where
  pulses : List Pulse
  links : List (Text × Text)
  cves : List Text
  iocs : List IocRow
  degree : Text → Text → Option ℤ
  nodup : (pulses.map Pulse.pulseId).Nodup
  named : ∀ p ∈ pulses, p.pulseId ≠ []

/-- The order in which the loop runs through the indicators of a pulse. -/
structure SetOrder where
  iter : Text → Finset Text → List Text
  mem_iter : ∀ pid s x, x ∈ iter pid s ↔ x ∈ s
  nodup : ∀ pid s, (iter pid s).Nodup

/-- `_JACCARD_THRESHOLD`. -/
def jaccardThreshold : ℚ := 7 / 10

/-- `_MIN_IOCS_FOR_JACCARD`. -/
def minIocsForJaccard : ℕ := 3

def jaccard (a b : Finset Text) : ℚ := if a = ∅ ∨ b = ∅ then 0 else (a ∩ b).card / (a ∪ b).card

/-- All pairs `l[i], l[j]` with `i < j`. -/
def pairs {α : Type} : List α → List (α × α)
  | [] => []
  | x :: l => l.map (x, ·) ++ pairs l

/-- `tuple(sorted((a, b)))`. -/
def sortedPair (e : Text × Text) : Text × Text := if e.2 < e.1 then e.swap else e

structure Sweep where
  seenPairs : List (Text × Text)
  parent : Forest Text

/-- One pair of pulses that share an indicator. -/
def sweepPair (iocs : Text → Finset Text) (s : Sweep) (e : Text × Text) : Sweep :=
  if sortedPair e ∈ s.seenPairs then s
  else
    let s := { s with seenPairs := sortedPair e :: s.seenPairs }
    if (iocs e.1).card < minIocsForJaccard ∨ (iocs e.2).card < minIocsForJaccard then s
    else if jaccardThreshold ≤ jaccard (iocs e.1) (iocs e.2) then { s with parent := s.parent.merge e.1 e.2 }
    else s

namespace Otx

variable (o : Otx) (hubCap : ℤ) (order : SetOrder)

def knownCves (pid : Text) : Finset Text :=
  ((o.links.filter fun l ↦ l.1 = pid ∧ l.2 ∈ o.cves).map Prod.snd).toFinset

def pulseRows : List Pulse := o.pulses.filter fun p ↦ 2 ≤ (o.knownCves p.pulseId).card

def pulseIds : List Text := o.pulseRows.map Pulse.pulseId

def row? (pid : Text) : Option Pulse := o.pulseRows.find? fun p ↦ p.pulseId = pid

def createdMap (pid : Text) : Option Text := (o.row? pid).map fun p ↦ p.createdDate.getD []

def cveSet (pid : Text) : Finset Text := ((o.links.filter fun l ↦ l.1 = pid).map Prod.snd).toFinset

def iocRows : List (Text × Text) :=
  (o.iocs.filter fun r ↦ r.pulseId ∈ o.pulseIds ∧ (o.degree r.iocType r.iocValue).getD 0 ≤ hubCap).map fun r ↦
    (r.pulseId, r.iocType ++ ':' :: r.iocValue)

def iocSets : Library.Dict Text (List Text) := Dict.groups (o.iocRows hubCap)

def iocSet (pid : Text) : Finset Text := (((o.iocSets hubCap).get? pid).getD []).toFinset

/-- The indicators and their pulses, in the order in which the index is filled. -/
def postings : List (Text × Text) :=
  (o.iocSets hubCap).items.flatMap fun e ↦
    if e.2.toFinset.card < minIocsForJaccard then [] else (order.iter e.1 e.2.toFinset).map (·, e.1)

def iocToPulses : Library.Dict Text (List Text) := Dict.groups (o.postings hubCap order)

def sharedPairs : List (Text × Text) := (o.iocToPulses hubCap order).items.flatMap fun e ↦ pairs e.2

section
variable [Interp]

def nameMap (pid : Text) : Text := ((o.row? pid).map fun p ↦ normalizePulseName p.pulseName).getD []

def buckets : Library.Dict (Finset Text × Text) (List Text) :=
  Dict.groups (o.pulseIds.map fun pid ↦ ((o.cveSet pid, o.nameMap pid), pid))

def bucketPairs : List (Text × Text) :=
  o.buckets.items.flatMap fun e ↦
    match e.2 with
    | [] => []
    | anchor :: others => others.map (anchor, ·)

def parent : Forest Text :=
  ((o.sharedPairs hubCap order).foldl (sweepPair (o.iocSet hubCap)) ⟨[], Forest.start.mergeAll o.bucketPairs⟩).parent

def families : Library.Dict Text (List Text) :=
  Dict.groups (((o.parent hubCap order).findAll o.pulseIds).zip o.pulseIds)

variable [Iso] [Sha256]

def dated (pid : Text) : Text × Option Text := (pid, o.createdMap pid)

def familyRows (members : List Text) : Py (List FamilyRow) := do
  let oldest ← oldestPulseId (members.map o.dated)
  return match oldest with
    | none => []
    | some oldest => members.map (⟨·, familyIdForOldestPulse oldest⟩)

def rebuildPulseFamilies : Py (List FamilyRow) :=
  if o.pulseRows = [] then .ok []
  else do
    let written ← (o.families hubCap order).items.mapM fun e ↦ o.familyRows e.2
    return written.flatten

end

end Otx

/-- A row of `pulse_families` with the date that `otx_pulses` has for the pulse. -/
structure FamilyPulse where
  familyId : Text
  pulseId : Text
  createdDate : Option Text
  deriving DecidableEq

def familiesOf (rows : List FamilyPulse) : Library.Dict Text (List (Text × Option Text)) :=
  Dict.groups (rows.map fun r ↦ (r.familyId, (r.pulseId, r.createdDate)))

end Briefr.Correlation
