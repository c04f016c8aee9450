import Briefr.Python.Loop

namespace Briefr.Matching.Cpe

open Briefr.Python

/-- One of the operator's assets, as `profile_to_match_assets` and the request models build it. -/
structure Asset where
  product : Text
  version : Text
  vendor : Text
  deriving DecidableEq

inductive Part
  | int (n : ℕ)
  | str (s : Text)
  deriving DecidableEq

/-- `str(part)`. -/
def Part.shown : Part → Text
  | .int n => Nat.toDigits 10 n
  | .str s => s

def comparePart (a b : Part) : Ordering :=
  if a = b then .eq
  else
    match a, b with
    | .int m, .int n => if m < n then .lt else .gt
    | a, b => if a.shown < b.shown then .lt else .gt

/-- The rest of the right-hand version against parts that are missing on the left. -/
def compareMissing : List Part → Ordering
  | [] => .eq
  | b :: bs => (comparePart (.int 0) b).then (compareMissing bs)

/-- The loop of `_compare_versions`: a missing part counts as the number 0. -/
def compareParts : List Part → List Part → Ordering
  | [], bs => compareMissing bs
  | a :: as, [] => (comparePart a (.int 0)).then (compareParts as [])
  | a :: as, b :: bs => (comparePart a b).then (compareParts as bs)

variable [Interp]

/-- `_VERSION_PART.findall`: the maximal runs of digits and of anything else. -/
def versionChunks (s : Text) : List Text := s.splitBy fun a b ↦ isDecimal a == isDecimal b

def versionPart (chunk : Text) : Py Part :=
  if chunk.all isDigit then Part.int <$> int chunk else .ok (.str chunk)

def versionTuple (version : Value) : Py (List Part) :=
  if version.truthy then
    let s := lower (strip (str version))
    if s = "*" ∨ s = "-" ∨ s = "" then .ok [] else (versionChunks s).mapM versionPart
  else .ok []

def compareVersions (left right : Value) : Py Ordering := do
  let a ← versionTuple left
  let b ← versionTuple right
  return compareParts a b

def isVersionBound (value : Value) : Bool :=
  value.truthy &&
    !(decide (strip (str value) = "") || decide (strip (str value) = "*") || decide (strip (str value) = "-"))

structure Bounds where
  startIncluding : Value
  startExcluding : Value
  endIncluding : Value
  endExcluding : Value

/-- One `if _is_version_bound(bound) and _compare_versions(v, bound) …: return False`. -/
def violates (v : Text) (bound : Value) (bad : Ordering → Bool) : Py Bool :=
  if isVersionBound bound then bad <$> compareVersions (.str v) bound else .ok false

def versionInRange (version : Text) (b : Bounds) : Py Bool :=
  if strip version = [] then .ok true
  else do
    let v := strip version
    if ← violates v b.startIncluding (· == .lt) then return false
    if ← violates v b.startExcluding (· != .gt) then return false
    if ← violates v b.endIncluding (· == .gt) then return false
    if ← violates v b.endExcluding (· != .lt) then return false
    return true

/-- `_normalize_key`: what `[^a-z0-9]+` leaves of the lower-cased text. -/
def normalizeKey (value : Text) : Text := keyOf value

def productKeysMatch (assetProduct assetVendor cpeVendor cpeProduct : Text) : Bool :=
  let assetP := normalizeKey assetProduct
  let assetV := normalizeKey assetVendor
  let cpeP := normalizeKey cpeProduct
  let cpeV := normalizeKey cpeVendor
  if assetV ≠ [] ∧ cpeV ≠ [] ∧ assetV ≠ cpeV ∧ ¬isIn assetV cpeV ∧ ¬isIn cpeV assetV then false
  else if assetV ≠ [] ∧ assetV = cpeV ∧ assetP = cpeP then true
  else if assetP ≠ [] ∧ assetP = cpeP then true
  else
    let (shorter, longer) := if assetP.length < cpeP.length then (assetP, cpeP) else (cpeP, assetP)
    if assetP ≠ [] ∧ cpeP ≠ [] ∧ 3 ≤ shorter.length ∧ isIn shorter longer then true
    else
      let combined := normalizeKey (assetVendor ++ assetProduct)
      let cpeCombined := normalizeKey (cpeVendor ++ cpeProduct)
      decide (combined ≠ [] ∧ cpeCombined ≠ [] ∧ (isIn combined cpeCombined ∨ isIn cpeCombined combined))

/-- The field `key` of an entry, read as `entry.get(key) or ""` and used as a string. -/
def field (cpe : Value) (key : Text) : Py Text := cpe.get key >>= Value.orText

def bounds (cpe : Value) : Py Bounds := do
  let startIncluding ← cpe.get "version_start_including"
  let startExcluding ← cpe.get "version_start_excluding"
  let endIncluding ← cpe.get "version_end_including"
  let endExcluding ← cpe.get "version_end_excluding"
  return ⟨startIncluding, startExcluding, endIncluding, endExcluding⟩

/-- `_is_version_bound(cpe_version) and version and _compare_versions(version, cpe_version) != 0`. -/
def versionDiffers (version cpeVersion : Text) : Py Bool :=
  if isVersionBound (.str cpeVersion) ∧ version ≠ [] then
    (· != .eq) <$> compareVersions (.str version) (.str cpeVersion)
  else .ok false

/-- `score_asset_against_cpe` once product and vendor match. -/
def scoreVersion (version : Text) (cpe : Value) : Py (Option ℕ) := do
  let cpeVersion ← field cpe "version"
  let differs ← versionDiffers version (strip cpeVersion)
  if differs then return none
  let b ← bounds cpe
  let inRange ← versionInRange version b
  if version = [] then return some 55
  if inRange then return some 100 else return none

def scoreAssetAgainstCpe (asset : Asset) (cpe : Value) : Py (Option ℕ) := do
  let vendor ← field cpe "vendor"
  let product ← field cpe "product"
  if productKeysMatch asset.product asset.vendor vendor product then
    scoreVersion (strip asset.version) cpe
  else return none

def scoreCveForAssets (cpeMatches : Value) (assets : List Asset) : Py ℕ :=
  assets.foldlM (fun best asset ↦ do
    let cpes ← cpeMatches.iter
    bestLoop (scoreAssetAgainstCpe asset) cpes best) 0

/-- Product and vendor of the asset match those of the entry. -/
def KeysMatch (asset : Asset) (cpe : Value) : Prop :=
  ∃ vendor product, field cpe "vendor" = .ok vendor ∧ field cpe "product" = .ok product ∧
    productKeysMatch asset.product asset.vendor vendor product = true

/-- The version equals the entry's, when that one is concrete, and lies in its range. -/
def VersionFits (version : Text) (cpe : Value) : Prop :=
  (∃ v, field cpe "version" = .ok v ∧ versionDiffers version (strip v) = .ok false) ∧
  ∃ b, bounds cpe = .ok b ∧ versionInRange version b = .ok true

/-- A concrete version was compared with the entry and found affected. -/
structure VersionVerified (asset : Asset) (cpe : Value) : Prop where
  concrete : strip asset.version ≠ []
  keys : KeysMatch asset cpe
  fits : VersionFits (strip asset.version) cpe

theorem versionDiffers_eq_false {version v : Text} :
    versionDiffers version v = .ok false ↔
      (isVersionBound (.str v) = true → version ≠ [] → compareVersions (.str version) (.str v) = .ok .eq) := by
  unfold versionDiffers
  split
  · rename_i h
    simp only [map_eq_ok, bne_eq_false_iff_eq]
    exact ⟨fun ⟨o, ho, he⟩ _ _ ↦ he ▸ ho, fun ho ↦ ⟨_, ho h.1 h.2, rfl⟩⟩
  · rename_i h
    simp only [true_iff]
    exact fun hb hv ↦ (h ⟨hb, hv⟩).elim

@[simp] theorem versionInRange_nil (b : Bounds) : versionInRange [] b = .ok true := by
  simp [versionInRange, strip]

theorem scoreVersion_eq_some {version : Text} {cpe : Value} {n : ℕ} :
    scoreVersion version cpe = .ok (some n) ↔
      VersionFits version cpe ∧ n = if version = [] then 55 else 100 := by
  simp only [scoreVersion, bind_eq_ok]
  constructor
  · intro ⟨v, hv, differs, hd, h⟩
    cases differs with
    | true => simp at h
    | false =>
      simp only [Bool.false_eq_true, ↓reduceIte, bind_eq_ok] at h
      obtain ⟨b, hb, inRange, hr, h⟩ := h
      by_cases he : version = []
      · simp only [he, ↓reduceIte, pure_eq_ok, Except.ok.injEq, Option.some.injEq] at h ⊢
        subst he
        exact ⟨⟨⟨v, hv, hd⟩, b, hb, versionInRange_nil b⟩, h.symm⟩
      · cases inRange with
        | false => simp [he] at h
        | true => exact ⟨⟨⟨v, hv, hd⟩, b, hb, hr⟩, by simpa [he] using h.symm⟩
  · rintro ⟨⟨⟨v, hv, hd⟩, b, hb, hr⟩, rfl⟩
    refine ⟨v, hv, false, hd, ?_⟩
    simp only [Bool.false_eq_true, ↓reduceIte, hb, ok_bind, hr]
    by_cases he : version = [] <;> simp [he]

theorem score_eq_some {asset : Asset} {cpe : Value} {n : ℕ} :
    scoreAssetAgainstCpe asset cpe = .ok (some n) ↔
      KeysMatch asset cpe ∧ VersionFits (strip asset.version) cpe ∧
        n = if strip asset.version = [] then 55 else 100 := by
  simp only [scoreAssetAgainstCpe, bind_eq_ok]
  constructor
  · intro ⟨vendor, hv, product, hp, h⟩
    split at h
    · rename_i hk
      exact ⟨⟨vendor, product, hv, hp, hk⟩, scoreVersion_eq_some.mp h⟩
    · simp at h
  · intro ⟨⟨vendor, product, hv, hp, hk⟩, h⟩
    exact ⟨vendor, hv, product, hp, by simpa only [hk, ↓reduceIte] using scoreVersion_eq_some.mpr h⟩

theorem score_eq_hundred {asset : Asset} {cpe : Value} :
    scoreAssetAgainstCpe asset cpe = .ok (some 100) ↔ VersionVerified asset cpe := by
  rw [score_eq_some]
  constructor
  · intro ⟨hk, hf, h⟩
    refine ⟨fun he ↦ ?_, hk, hf⟩
    simp [he] at h
  · exact fun h ↦ ⟨h.keys, h.fits, by simp [h.concrete]⟩

theorem scoreCveForAssets_list (cpes : List Value) (assets : List Asset) :
    scoreCveForAssets (.list cpes) assets =
      bestLoop (fun p : Asset × Value ↦ scoreAssetAgainstCpe p.1 p.2) (assets ×ˢ cpes) 0 := by
  rw [← bestLoop_product]
  rfl

/-- The score of a list of entries: no pair of asset and entry raises, none beats it, and it is
the score of some pair unless it is 0. -/
theorem scoreCveForAssets_eq_ok {cpes : List Value} {assets : List Asset} {n : ℕ} :
    scoreCveForAssets (.list cpes) assets = .ok n ↔
      IsBest (fun p : Asset × Value ↦ scoreAssetAgainstCpe p.1 p.2) (assets ×ˢ cpes) 0 n := by
  rw [scoreCveForAssets_list, bestLoop_eq_ok]

theorem scoreCveForAssets_pos {cpes : List Value} {assets : List Asset} {n : ℕ}
    (h : scoreCveForAssets (.list cpes) assets = .ok n) :
    0 < n ↔ ∃ a ∈ assets, ∃ c ∈ cpes, KeysMatch a c ∧ VersionFits (strip a.version) c := by
  have hb := scoreCveForAssets_eq_ok.mp h
  constructor
  · intro hn
    rcases hb.attained with rfl | ⟨⟨a, c⟩, hm, hs⟩
    · omega
    · obtain ⟨hk, hf, -⟩ := score_eq_some.mp hs
      exact ⟨a, (List.pair_mem_product.mp hm).1, c, (List.pair_mem_product.mp hm).2, hk, hf⟩
  · intro ⟨a, ha, c, hc, hk, hf⟩
    have hle := hb.le (a, c) (List.pair_mem_product.mpr ⟨ha, hc⟩) _ (score_eq_some.mpr ⟨hk, hf, rfl⟩)
    split at hle <;> omega

theorem scoreCveForAssets_ge_hundred {cpes : List Value} {assets : List Asset} {n : ℕ}
    (h : scoreCveForAssets (.list cpes) assets = .ok n) :
    100 ≤ n ↔ ∃ a ∈ assets, ∃ c ∈ cpes, VersionVerified a c := by
  have hb := scoreCveForAssets_eq_ok.mp h
  constructor
  · intro hn
    rcases hb.attained with rfl | ⟨⟨a, c⟩, hm, hs⟩
    · omega
    · obtain ⟨hk, hf, he⟩ := score_eq_some.mp hs
      refine ⟨a, (List.pair_mem_product.mp hm).1, c, (List.pair_mem_product.mp hm).2, ?_, hk, hf⟩
      intro hv
      simp only [hv, ↓reduceIte] at he
      omega
  · intro ⟨a, ha, c, hc, hv⟩
    exact hb.le (a, c) (List.pair_mem_product.mpr ⟨ha, hc⟩) _ (score_eq_hundred.mpr hv)

/-- A score is 0, the product match 55 or the version match 100. -/
theorem scoreCveForAssets_values {cpes : List Value} {assets : List Asset} {n : ℕ}
    (h : scoreCveForAssets (.list cpes) assets = .ok n) : n = 0 ∨ n = 55 ∨ n = 100 := by
  rcases (scoreCveForAssets_eq_ok.mp h).attained with rfl | ⟨⟨a, c⟩, hm, hs⟩
  · exact .inl rfl
  · obtain ⟨-, -, he⟩ := score_eq_some.mp hs
    split at he <;> simp [he]

end Briefr.Matching.Cpe
