import Briefr.Matching.Cpe

namespace Briefr.Scoring.AssetMatch

open Briefr.Python Briefr.Matching.Cpe

/-- Scores of the graduation table are kept in hundredths. -/
def defaultAssetUnknown : ℕ := 50

/-- `if profile:` — a profile was given and is not the empty `dict`. -/
def present : Option Dict → Bool
  | some (_ :: _) => true
  | _ => false

/-- The rungs of the fuzzy graduation table. -/
inductive FuzzyTier
  | noMatch
  | exactCpe
  | cpeProduct
  | product
  | vendor
  | os
  | aiSystem
  | aiReference
  | description
  deriving DecidableEq

def FuzzyTier.score : FuzzyTier → ℕ
  | noMatch => 0
  | exactCpe => 100
  | cpeProduct => 90
  | product => 75
  | vendor => 65
  | os => 80
  | aiSystem => 55
  | aiReference => 35
  | description => 45

/-- One assignment to `best_score`, `best_tier` and `best_label`; the score is that of the tier. -/
structure Offer where
  tier : FuzzyTier
  label : Text

/-- `if best_score < score:` the offer replaces the best so far. -/
def Offer.take (best o : Offer) : Offer := if best.tier.score < o.tier.score then o else best

def bestOffer (l : List Offer) : Offer := l.foldl Offer.take ⟨.noMatch, []⟩

theorem foldl_take_cases (l : List Offer) (b : Offer) :
    (l.foldl Offer.take b = b ∨ l.foldl Offer.take b ∈ l) ∧
      b.tier.score ≤ (l.foldl Offer.take b).tier.score ∧
      ∀ o ∈ l, o.tier.score ≤ (l.foldl Offer.take b).tier.score := by
  induction l generalizing b with
  | nil => exact ⟨.inl rfl, le_rfl, by simp⟩
  | cons o l ih =>
    obtain ⟨hm, hb, hl⟩ := ih (b.take o)
    have hle : b.tier.score ≤ (b.take o).tier.score ∧ o.tier.score ≤ (b.take o).tier.score := by
      unfold Offer.take
      split <;> constructor <;> omega
    refine ⟨?_, hle.1.trans hb, ?_⟩
    · rcases hm with hm | hm
      · rw [List.foldl_cons, hm]
        unfold Offer.take
        split
        · exact .inr (.head _)
        · exact .inl rfl
      · exact .inr (.tail _ hm)
    · rintro o' (_ | ⟨_, ho⟩)
      · exact hle.2.trans hb
      · exact hl o' ho

theorem bestOffer_mem {l : List Offer} (h : (bestOffer l).tier ≠ .noMatch) : bestOffer l ∈ l := by
  rcases (foldl_take_cases l ⟨.noMatch, []⟩).1 with he | hm
  · exact (h (by rw [bestOffer, he])).elim
  · exact hm

theorem le_bestOffer {l : List Offer} {o : Offer} (h : o ∈ l) : o.tier.score ≤ (bestOffer l).tier.score :=
  (foldl_take_cases l ⟨.noMatch, []⟩).2.2 o h

theorem FuzzyTier.score_eq_hundred {t : FuzzyTier} : 100 ≤ t.score ↔ t = .exactCpe := by
  cases t <;> simp [FuzzyTier.score]

theorem bestOffer_exact {l : List Offer} :
    (bestOffer l).tier = .exactCpe ↔ ∃ o ∈ l, o.tier = .exactCpe := by
  constructor
  · intro h
    exact ⟨_, bestOffer_mem (by rw [h]; decide), h⟩
  · intro ⟨o, ho, h⟩
    have hle := le_bestOffer ho
    rw [h] at hle
    exact FuzzyTier.score_eq_hundred.mp hle

variable [Interp]

/-- `str(item.get(key) or "").strip()`. -/
def textField (d : Dict) (key : Text) : Text := strip (strOr (d.get key))

/-- `str(item.get(key) or "").lower().strip()`. -/
def lowerField (d : Dict) (key : Text) : Text := strip (lower (strOr (d.get key)))

def profileProductName : Value → Text
  | .str s => strip s
  | .dict d => strip (strOr ((Dict.get d "product").orElse (Dict.get d "cpeProduct")))
  | _ => []

/-- `profile.get(key) or []`, as a `for` loop reads it. -/
def items (d : Dict) (key : Text) : Py (List Value) := ((d.get key).orElse (.list [])).iter

def osAsset : Value → Option Asset
  | .dict d =>
    if textField d "product" = [] then none
    else some ⟨textField d "product", textField d "version", textField d "vendor"⟩
  | _ => none

def appAsset : Value → Option Asset
  | .dict d =>
    if strip (strOr ((Dict.get d "product").orElse (Dict.get d "cpeProduct"))) = [] then none
    else
      some ⟨strip (strOr ((Dict.get d "cpeProduct").orElse (Dict.get d "product"))), textField d "version",
        textField d "vendor"⟩
  | _ => none

def aiAsset (ai : Value) : Option Asset :=
  if profileProductName ai = [] then none else some ⟨profileProductName ai, [], []⟩

def profileToMatchAssets : Option Dict → Py (List Asset)
  | none => .ok []
  | some profile =>
    if profile = [] then .ok []
    else do
      let oses ← items profile "operatingSystems"
      let apps ← items profile "applications"
      let ais ← items profile "aiSystems"
      return oses.filterMap osAsset ++ apps.filterMap appAsset ++ ais.filterMap aiAsset

def noMatchLabel : Text := "No matching assets in your profile"

def assetScoreFromBackend (matchScore : Option ℕ) : ℕ × Text :=
  let score := matchScore.getD 0
  if 100 ≤ score then (100, "Your asset directly affected (exact CPE version match)")
  else if 55 ≤ score then (55, "Your asset found in affected products (CPE product match)")
  else if 0 < score then (score, "Partial match to your asset profile")
  else (0, noMatchLabel)

def affectedProducts (cve : Dict) : Py (List Text) :=
  match (cve.get "affected_products").orElse (.list []) with
  | .str s => .ok [lower s]
  | v => do return ((← v.iter).filter Value.truthy).map fun p ↦ lower (str p)

def affVendor (prod : Text) : Text := strip ((prod.splitOn ':').headD [])

def affProduct (prod : Text) : Text :=
  match prod.splitOn ':' with
  | _ :: p :: _ => strip p
  | _ => strip prod

/-- Equal, or one a substring of the other, for a profile text that is not empty. -/
def overlaps (own aff : Text) : Bool :=
  decide (own ≠ [] ∧ (own = aff ∨ isIn aff own ∨ isIn own aff))

structure App where
  vendor : Text
  cpeProduct : Text
  displayName : Text
  version : Text

def App.of (d : Dict) : App where
  vendor := lowerField d "vendor"
  cpeProduct := lowerField d "cpeProduct"
  displayName := textField d "product"
  version := textField d "version"

/-- `display_name or cpe_product`. -/
def App.shown (app : App) : Text := if app.displayName = [] then app.cpeProduct else app.displayName

def App.vendorMatch (app : App) (prod : Text) : Bool := overlaps app.vendor (affVendor prod)

def App.productMatch (app : App) (prod : Text) : Bool := overlaps app.cpeProduct (affProduct prod)

def App.onProduct (app : App) (prod : Text) : List Offer :=
  if app.vendorMatch prod && app.productMatch prod then
    if app.version ≠ [] then [⟨.exactCpe, strip (app.displayName ++ (" " : String) ++ app.version)⟩]
    else [⟨.cpeProduct, app.shown⟩]
  else if app.productMatch prod then [⟨.product, app.shown⟩]
  else if app.vendorMatch prod then [⟨.vendor, app.vendor⟩]
  else []

def App.onDescription (app : App) (descBlob : Text) : List Offer :=
  if (lower app.displayName ≠ [] ∧ isIn (lower app.displayName) descBlob) ∨
      (app.cpeProduct ≠ [] ∧ isIn app.cpeProduct descBlob) then [⟨.description, app.shown⟩]
  else []

/-- The offers of one application, in the order of the source's loop. -/
def appOffers (affected : List Text) (descBlob : Text) : Value → List Offer
  | .dict d => affected.flatMap (App.of d).onProduct ++ (App.of d).onDescription descBlob
  | _ => []

/-- The product test of an operating system or an AI system, which also looks at the whole entry. -/
def overlapsEntry (own prod : Text) : Bool :=
  decide (own ≠ [] ∧ (isIn (affProduct prod) own ∨ isIn own (affProduct prod) ∨ isIn own prod))

def osOffers (affected : List Text) (descBlob : Text) : Value → List Offer
  | .dict d =>
    let osProd := lowerField d "product"
    let osVersion := textField d "version"
    let osDisplay := textField d "product"
    (affected.flatMap fun prod ↦
      if overlapsEntry osProd prod then
        [⟨.os, if osVersion = [] then osDisplay else osDisplay ++ (" " : String) ++ osVersion⟩]
      else []) ++
    if osProd ≠ [] ∧ isIn osProd descBlob then [⟨.description, osDisplay⟩] else []
  | _ => []

def aiOffers (affected : List Text) (descBlob : Text) (ai : Value) : List Offer :=
  let aiName := profileProductName ai
  if aiName = [] then []
  else
    (affected.flatMap fun prod ↦ if overlapsEntry (lower aiName) prod then [⟨.aiSystem, aiName⟩] else []) ++
    if lower aiName ≠ [] ∧ isIn (lower aiName) descBlob then [⟨.aiReference, aiName⟩] else []

/-- `match_type_map` and its default. -/
def matchType (best : Offer) : Text :=
  if best.label = [] then noMatchLabel
  else
    match best.tier with
    | .exactCpe => best.label ++ (" directly affected (exact CPE match)" : String)
    | .cpeProduct => best.label ++ (" found in affected products (CPE product match)" : String)
    | .product => best.label ++ (" found in affected products (product match)" : String)
    | .vendor => best.label ++ (" vendor matched in affected products" : String)
    | .os => best.label ++ (" found in affected products (OS match)" : String)
    | .aiSystem => best.label ++ (" AI/ML system in affected products" : String)
    | .aiReference => best.label ++ (" referenced in vulnerability description" : String)
    | .description => best.label ++ (" mentioned in vulnerability description" : String)
    | .noMatch => noMatchLabel

def descBlob (cve : Dict) : Text :=
  lower (strOr (cve.get "description") ++ (" " : String) ++ strOr (cve.get "summary"))

/-- All offers the three loops of `asset_match_info` make. -/
def offers (cve profile : Dict) : Py (List Offer) := do
  let affected ← affectedProducts cve
  let apps ← items profile "applications"
  let oses ← items profile "operatingSystems"
  let ais ← items profile "aiSystems"
  let blob := descBlob cve
  return apps.flatMap (appOffers affected blob) ++ oses.flatMap (osOffers affected blob) ++
    ais.flatMap (aiOffers affected blob)

/-- An application of the profile with a version, whose vendor and product texts overlap those
of an affected product: the fuzzy matcher's "exact CPE match". No version is compared. -/
def ExactOverlap (affected : List Text) (app : Value) : Prop :=
  ∃ d, app = .dict d ∧ (App.of d).version ≠ [] ∧
    ∃ prod ∈ affected, (App.of d).vendorMatch prod = true ∧ (App.of d).productMatch prod = true

theorem mem_onProduct_exact {app : App} {prod : Text} {o : Offer} :
    o ∈ app.onProduct prod ∧ o.tier = .exactCpe ↔
      app.version ≠ [] ∧ app.vendorMatch prod = true ∧ app.productMatch prod = true ∧
        o = ⟨.exactCpe, strip (app.displayName ++ (" " : String) ++ app.version)⟩ := by
  unfold App.onProduct
  cases hv : app.vendorMatch prod <;> cases hp : app.productMatch prod <;> by_cases hw : app.version = [] <;>
    simp [hw] <;> aesop

theorem mem_appOffers_exact {affected : List Text} {blob : Text} {app : Value} :
    (∃ o ∈ appOffers affected blob app, o.tier = .exactCpe) ↔ ExactOverlap affected app := by
  cases app with
  | dict d =>
    simp only [appOffers, List.mem_append, List.mem_flatMap, ExactOverlap]
    constructor
    · rintro ⟨o, ⟨prod, hp, ho⟩ | ho, ht⟩
      · obtain ⟨hv, h1, h2, -⟩ := mem_onProduct_exact.mp ⟨ho, ht⟩
        exact ⟨d, rfl, hv, prod, hp, h1, h2⟩
      · simp only [App.onDescription] at ho
        split at ho <;> simp at ho
        simp [ho] at ht
    · intro ⟨d', he, hv, prod, hp, h1, h2⟩
      cases he
      have h := mem_onProduct_exact.mpr ⟨hv, h1, h2, rfl⟩
      exact ⟨_, .inl ⟨prod, hp, h.1⟩, h.2⟩
  | _ => simp [appOffers, ExactOverlap]

theorem osOffers_tier {affected : List Text} {blob : Text} {os : Value} {o : Offer}
    (h : o ∈ osOffers affected blob os) : o.tier = .os ∧ o.label ≠ [] ∨ o.tier = .description := by
  cases os with
  | dict d =>
    simp only [osOffers, List.mem_append, List.mem_flatMap] at h
    rcases h with ⟨prod, -, h⟩ | h
    · split at h <;> simp only [List.mem_singleton, List.not_mem_nil] at h
      rename_i hov
      subst h
      have hne : lowerField d "product" ≠ [] := by
        simp only [overlapsEntry, decide_eq_true_eq] at hov
        exact hov.1
      have hd : textField d "product" ≠ [] := strip_lower hne
      refine .inl ⟨rfl, ?_⟩
      dsimp only
      split
      · exact hd
      · exact List.append_ne_nil_of_left_ne_nil (List.append_ne_nil_of_left_ne_nil hd _) _
    · split at h <;> simp only [List.mem_singleton, List.not_mem_nil] at h
      exact .inr (h ▸ rfl)
  | _ => simp [osOffers] at h

theorem aiOffers_tier {affected : List Text} {blob : Text} {ai : Value} {o : Offer}
    (h : o ∈ aiOffers affected blob ai) : o.tier = .aiSystem ∨ o.tier = .aiReference := by
  dsimp only [aiOffers] at h
  split at h
  · simp at h
  · simp only [List.mem_append, List.mem_flatMap] at h
    rcases h with ⟨prod, -, h⟩ | h <;> split at h <;> simp only [List.mem_singleton, List.not_mem_nil] at h
    · exact .inl (h ▸ rfl)
    · exact .inr (h ▸ rfl)

theorem offers_eq_ok {cve profile : Dict} {l : List Offer} :
    offers cve profile = .ok l ↔ ∃ affected apps oses ais,
      affectedProducts cve = .ok affected ∧ items profile "applications" = .ok apps ∧
      items profile "operatingSystems" = .ok oses ∧ items profile "aiSystems" = .ok ais ∧
      l = apps.flatMap (appOffers affected (descBlob cve)) ++
        oses.flatMap (osOffers affected (descBlob cve)) ++ ais.flatMap (aiOffers affected (descBlob cve)) := by
  simp only [offers, bind_eq_ok, pure_eq_ok, Except.ok.injEq]
  constructor
  · rintro ⟨affected, ha, apps, hp, oses, ho, ais, hi, rfl⟩
    exact ⟨affected, apps, oses, ais, ha, hp, ho, hi, rfl⟩
  · rintro ⟨affected, apps, oses, ais, ha, hp, ho, hi, rfl⟩
    exact ⟨affected, ha, apps, hp, oses, ho, ais, hi, rfl⟩

theorem bestOffer_exact_iff {affected : List Text} {blob : Text} {apps oses ais : List Value} :
    (bestOffer (apps.flatMap (appOffers affected blob) ++ oses.flatMap (osOffers affected blob) ++
      ais.flatMap (aiOffers affected blob))).tier = .exactCpe ↔ ∃ app ∈ apps, ExactOverlap affected app := by
  rw [bestOffer_exact]
  simp only [List.mem_append, List.mem_flatMap]
  constructor
  · rintro ⟨o, (⟨app, happ, ho⟩ | ⟨os, -, ho⟩) | ⟨ai, -, ho⟩, ht⟩
    · exact ⟨app, happ, mem_appOffers_exact.mp ⟨o, ho, ht⟩⟩
    · rcases osOffers_tier ho with ⟨h, -⟩ | h <;> simp [h] at ht
    · rcases aiOffers_tier ho with h | h <;> simp [h] at ht
  · intro ⟨app, happ, he⟩
    obtain ⟨o, ho, ht⟩ := mem_appOffers_exact.mpr he
    exact ⟨o, .inl (.inl ⟨app, happ, ho⟩), ht⟩

theorem appOffers_label {affected : List Text} {blob : Text} {app : Value} {o : Offer}
    (h : o ∈ appOffers affected blob app) (ht : o.tier = .exactCpe ∨ o.tier = .os) :
    o.tier = .exactCpe ∧ o.label ≠ [] := by
  cases app with
  | dict d =>
    simp only [appOffers, List.mem_append, List.mem_flatMap] at h
    rcases h with ⟨prod, -, ho⟩ | ho
    · have hx : o.tier = .exactCpe := by
        rcases ht with ht | ht
        · exact ht
        · simp only [App.onProduct] at ho
          split at ho
          · split at ho <;> simp only [List.mem_singleton] at ho <;> simp [ho] at ht
          · split at ho
            · simp only [List.mem_singleton] at ho
              simp [ho] at ht
            · split at ho <;> simp only [List.mem_singleton, List.not_mem_nil] at ho
              simp [ho] at ht
      obtain ⟨hv, -, -, rfl⟩ := mem_onProduct_exact.mp ⟨ho, hx⟩
      -- the version is stripped text, so its last character survives the outer strip
      obtain ⟨c, hc, hs⟩ := exists_of_strip hv
      refine ⟨rfl, fun he ↦ ?_⟩
      have hall := strip_eq_nil.mp he c (List.mem_append_right _ hc)
      simp [hs] at hall
    · simp only [App.onDescription] at ho
      split at ho <;> simp only [List.mem_singleton, List.not_mem_nil] at ho
      simp [ho] at ht
  | _ => simp [appOffers] at h

/-- The two tiers whose label `classify_environment` looks at never have an empty one. -/
theorem offers_label {cve profile : Dict} {l : List Offer} (h : offers cve profile = .ok l) {o : Offer}
    (ho : o ∈ l) (ht : o.tier = .exactCpe ∨ o.tier = .os) : o.label ≠ [] := by
  obtain ⟨affected, apps, oses, ais, -, -, -, -, rfl⟩ := offers_eq_ok.mp h
  simp only [List.mem_append, List.mem_flatMap] at ho
  rcases ho with (⟨app, -, ho⟩ | ⟨os, -, ho⟩) | ⟨ai, -, ho⟩
  · exact (appOffers_label ho ht).2
  · rcases osOffers_tier ho with ⟨-, h⟩ | h
    · exact h
    · simp [h] at ht
  · rcases aiOffers_tier ho with h | h <;> simp [h] at ht

theorem isIn_lower_append {needle s t : Text} (ht : t.all (fun c ↦ decide (c.toNat < 128)) = true)
    (h : needle <:+: t.map Char.toLower) : isIn needle (lower (s ++ t)) = true := by
  have hascii : ∀ c ∈ t, c.toNat < 128 := by simpa using ht
  exact decide_eq_true (h.trans (lower_suffix s t hascii).isInfix)

theorem matchType_exact {best : Offer} (ht : best.tier = .exactCpe) (hl : best.label ≠ []) :
    isIn "exact cpe match" (lower (matchType best)) = true := by
  rw [matchType, if_neg hl, ht]
  exact isIn_lower_append (by decide) (by decide)

theorem matchType_os {best : Offer} (ht : best.tier = .os) (hl : best.label ≠ []) :
    isIn "os match" (lower (matchType best)) = true := by
  rw [matchType, if_neg hl, ht]
  exact isIn_lower_append (by decide) (by decide)

def assetMatchInfo (cve : Dict) : Option Dict → Py (ℕ × Text)
  | none => .ok (defaultAssetUnknown, [])
  | some profile =>
    if profile = [] then .ok (defaultAssetUnknown, [])
    else do
      let best := bestOffer (← offers cve profile)
      return (best.tier.score, matchType best)

def resolveAssetComponent (cve : Dict) (profile : Option Dict) (backendMatchScore : Option ℕ) :
    Py (ℕ × Text) :=
  if present profile then
    let (cpeScore, cpeLabel) := assetScoreFromBackend backendMatchScore
    if cpeScore = 0 then do
      let (fuzzyScore, fuzzyType) ← assetMatchInfo cve profile
      if cpeScore < fuzzyScore then return (fuzzyScore, fuzzyType) else return (cpeScore, cpeLabel)
    else .ok (cpeScore, cpeLabel)
  else assetMatchInfo cve profile

/-- The entries that stand in for `cpe_matches` when a row has none. -/
def affectedEntries (products : List Text) : List Value :=
  (products.filter fun entry ↦ isIn ":" entry).map fun entry ↦
    .dict [("vendor", .str (splitColon entry).1), ("product", .str (splitColon entry).2)]

/-- `cpe_matches` of a row after the string form has been parsed. -/
def cpeMatches (cve : Dict) : Value :=
  match (cve.get "cpe_matches").orElse (.list []) with
  | .str s => (loads s).getD (.list [])
  | v => v

/-- `cpe_matches.append(entry)` for each stand-in entry, which only a list has. -/
def appendAll : Value → List Value → Py Value
  | .list l, entries => .ok (.list (l ++ entries))
  | v, [] => .ok v
  | _, _ :: _ => .error .attributeError

def cpeMatchScoreForCve (cve : Dict) (assets : List Asset) : Py ℕ :=
  if assets = [] then .ok 0
  else do
    let cpes := cpeMatches cve
    if cpes.truthy then scoreCveForAssets cpes assets
    else scoreCveForAssets (← appendAll cpes (affectedEntries (← affectedProducts cve))) assets

/-- The entries of `cpe_matches`. -/
def cpeEntries (cve : Dict) : List Value :=
  match cpeMatches cve with
  | .list l => l
  | _ => []

theorem scoreCveForAssets_truthy {v : Value} {a : Asset} {assets : List Asset} {n : ℕ} (ht : v.truthy = true)
    (h : scoreCveForAssets v (a :: assets) = .ok n) : ∃ l, v = .list l := by
  -- a key or a character has no `get`, and other values cannot be iterated
  simp only [scoreCveForAssets, List.foldlM_cons, bind_eq_ok] at h
  obtain ⟨best, ⟨cpes, hc, hb⟩, -⟩ := h
  have hd : ∀ x ∈ cpes, ∃ s, scoreAssetAgainstCpe a x = .ok s := (bestLoop_eq_ok.mp hb).defined
  have hstr : ∀ s : Text, ¬∃ r, scoreAssetAgainstCpe a (.str s) = .ok r := by
    intro s ⟨r, hr⟩
    simp [scoreAssetAgainstCpe, field, Value.get] at hr
  cases v with
  | list l => exact ⟨l, rfl⟩
  | str s =>
    cases s with
    | nil => simp [Value.truthy] at ht
    | cons c s =>
      simp only [Value.iter, List.map_cons, Except.ok.injEq] at hc
      exact (hstr [c] (hd _ (hc ▸ .head _))).elim
  | dict f =>
    cases f with
    | nil => simp [Value.truthy] at ht
    | cons p f =>
      simp only [Value.iter, List.map_cons, Except.ok.injEq] at hc
      exact (hstr p.1 (hd _ (hc ▸ .head _))).elim
  | _ => simp [Value.iter] at hc

theorem scoreCveForAssets_falsy {v : Value} {assets : List Asset} {n : ℕ} (ht : v.truthy = false)
    (hn : assets ≠ []) (h : scoreCveForAssets v assets = .ok n) : v.iter = .ok [] := by
  obtain ⟨a, as, rfl⟩ := List.exists_cons_of_ne_nil hn
  simp only [scoreCveForAssets, List.foldlM_cons, bind_eq_ok] at h
  obtain ⟨best, ⟨cpes, hc, -⟩, -⟩ := h
  cases v with
  | none => simp [Value.iter] at hc
  | bool b => simp [Value.iter] at hc
  | num s z => simp [Value.iter] at hc
  | str s => simp_all [Value.truthy, Value.iter]
  | list l => simp_all [Value.truthy, Value.iter]
  | dict f => simp_all [Value.truthy, Value.iter]

theorem scoreCveForAssets_iter {v : Value} {l : List Value} (h : v.iter = .ok l) (assets : List Asset) :
    scoreCveForAssets v assets = scoreCveForAssets (.list l) assets := by
  simp only [scoreCveForAssets, h, Value.iter_list]

/-- Whatever the row holds, a returned score is that of a list of entries: the row's own ones,
or, when it has none, stand-ins made from its affected products. -/
theorem cpeMatchScoreForCve_eq_ok {cve : Dict} {assets : List Asset} {n : ℕ}
    (h : cpeMatchScoreForCve cve assets = .ok n) :
    (assets = [] ∧ n = 0) ∨
      (cpeEntries cve ≠ [] ∧ scoreCveForAssets (.list (cpeEntries cve)) assets = .ok n) ∨
      (cpeEntries cve = [] ∧ ∃ l, scoreCveForAssets (.list l) assets = .ok n) := by
  unfold cpeMatchScoreForCve at h
  split at h
  · rename_i ha
    exact .inl ⟨ha, by simpa using h.symm⟩
  · rename_i ha
    right
    dsimp only at h
    split at h
    · rename_i ht
      obtain ⟨a, as, rfl⟩ := List.exists_cons_of_ne_nil ha
      obtain ⟨l, hl⟩ := scoreCveForAssets_truthy ht h
      have hl' : l ≠ [] := by
        rintro rfl
        simp [hl, Value.truthy] at ht
      simp only [cpeEntries, hl] at h ⊢
      exact .inl ⟨hl', h⟩
    · rename_i ht
      simp only [bind_eq_ok] at h
      obtain ⟨products, -, v, hv, h⟩ := h
      have hf : (cpeMatches cve).truthy = false := by simpa using ht
      have he : cpeEntries cve = [] := by
        unfold cpeEntries
        split
        · rename_i l hl
          simpa [hl, Value.truthy] using hf
        · rfl
      refine .inr ⟨he, ?_⟩
      cases hm : cpeMatches cve with
      | list l =>
        simp only [hm, appendAll, Except.ok.injEq] at hv
        exact ⟨_, hv ▸ h⟩
      | _ =>
        rw [hm] at hv hf
        cases hp : affectedEntries products with
        | nil =>
          simp only [hp, appendAll, Except.ok.injEq] at hv
          subst hv
          exact ⟨[], scoreCveForAssets_iter (scoreCveForAssets_falsy hf ha h) assets ▸ h⟩
        | cons e es => simp [hp, appendAll] at hv

end Briefr.Scoring.AssetMatch
