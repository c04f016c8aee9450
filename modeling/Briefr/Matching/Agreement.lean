import Mathlib.Data.List.Nodup
import Briefr.Matching.StackAssets

namespace Briefr.Matching.Agreement

open Briefr.Python Briefr.Matching.Cpe Briefr.Matching.StackAssets Briefr.Scoring.AssetMatch

theorem splitName_of_colon {s : Text} (h : ':' ∈ s) : splitName s = splitColon s := if_pos (isIn_colon.mpr h)

theorem splitName_of_not_colon {s : Text} (h : ':' ∉ s) : splitName s = ([], s) :=
  if_neg fun hi ↦ h (isIn_colon.mp hi)

theorem mem_assign {scores : List (Text × ℕ)} {key k : Text} {n : ℕ} :
    (∃ s, (k, s) ∈ assign scores key n) ↔ k = key ∨ ∃ s, (k, s) ∈ scores := by
  simp only [assign, List.mem_cons, Prod.mk.injEq, List.mem_filter, decide_eq_true_eq]
  by_cases h : k = key <;> simp [h]

section
variable [Interp]

theorem productKeysMatch_congr {p v cv cp cv' cp' : Text} (hv : keyOf cv = keyOf cv') (hp : keyOf cp = keyOf cp') :
    productKeysMatch p v cv cp = productKeysMatch p v cv' cp' := by
  unfold productKeysMatch normalizeKey
  rw [keyOf_append, keyOf_append, keyOf_append, hv, hp]

theorem keyOf_nil : keyOf [] = [] := keyOf_space fun _ h ↦ absurd h List.not_mem_nil

theorem productKeysMatch_blank {p v cv cp : Text} (hv : keyOf cv = []) (hp : keyOf cp = []) :
    productKeysMatch p v cv cp = false := by
  have hc : keyOf (cv ++ cp) = [] := by rw [keyOf_append, hv, hp, List.append_nil]
  unfold productKeysMatch normalizeKey
  rw [hv, hp, hc]
  have hn : ¬(keyOf v ≠ [] ∧ keyOf v = [] ∧ keyOf p = []) := fun h ↦ h.1 h.2.1
  simp [hn]

/-- An entry that names a product and constrains no version. -/
structure StandIn (e : Value) (name : Text × Text) : Prop where
  vendor : field e "vendor" = .ok name.1
  product : field e "product" = .ok name.2
  version : ∃ v, field e "version" = .ok v ∧ isVersionBound (.str (strip v)) = false
  bounds : bounds e = .ok ⟨.none, .none, .none, .none⟩

theorem versionInRange_unbounded (version : Text) :
    versionInRange version ⟨.none, .none, .none, .none⟩ = .ok true := by
  have hb : isVersionBound .none = false := rfl
  unfold versionInRange
  split
  · rfl
  · simp [violates, hb]

theorem StandIn.fits {e : Value} {name : Text × Text} (h : StandIn e name) (version : Text) :
    VersionFits version e := by
  obtain ⟨v, hv, hb⟩ := h.version
  refine ⟨⟨v, hv, versionDiffers_eq_false.mpr fun h ↦ ?_⟩, _, h.bounds, versionInRange_unbounded version⟩
  rw [hb] at h
  cases h

theorem StandIn.keysMatch {e : Value} {name : Text × Text} (h : StandIn e name) {a : Asset} :
    KeysMatch a e ↔ productKeysMatch a.product a.vendor name.1 name.2 = true := by
  constructor
  · intro ⟨v, p, hv, hp, hk⟩
    rw [h.vendor] at hv
    rw [h.product] at hp
    cases hv
    cases hp
    exact hk
  · exact fun hk ↦ ⟨_, _, h.vendor, h.product, hk⟩

theorem StandIn.defined {e : Value} {name : Text × Text} (h : StandIn e name) (a : Asset) :
    ∃ s, scoreAssetAgainstCpe a e = .ok s := by
  by_cases hk : productKeysMatch a.product a.vendor name.1 name.2 = true
  · exact ⟨_, score_eq_some.mpr ⟨h.keysMatch.mpr hk, h.fits _, rfl⟩⟩
  · refine ⟨none, ?_⟩
    rw [scoreAssetAgainstCpe, h.vendor, ok_bind, h.product, ok_bind, if_neg hk]
    rfl

def Hits (assets : List Asset) (entries : List Value) : Prop :=
  ∃ a ∈ assets, ∃ e ∈ entries, KeysMatch a e ∧ VersionFits (strip a.version) e

/-- Some asset has the vendor and product of one of the affected products; no version is compared. -/
def Named (assets : List Asset) (products : List Text) : Prop :=
  ∃ a ∈ assets, ∃ s ∈ products, productKeysMatch a.product a.vendor (splitName s).1 (splitName s).2 = true

/-- Scoring these entries raises nothing. -/
def Scorable (assets : List Asset) (entries : List Value) : Prop :=
  ∀ a ∈ assets, ∀ e ∈ entries, ∃ s, scoreAssetAgainstCpe a e = .ok s

theorem scorable_iff {assets : List Asset} {entries : List Value} :
    Scorable assets entries ↔ ∃ n, scoreCveForAssets (.list entries) assets = .ok n := by
  constructor
  · intro h
    rw [scoreCveForAssets_list]
    exact bestLoop_defined 0 fun p hp ↦ h p.1 (List.mem_product.mp hp).1 p.2 (List.mem_product.mp hp).2
  · intro ⟨n, hn⟩ a ha e he
    exact (scoreCveForAssets_eq_ok.mp hn).defined (a, e) (List.pair_mem_product.mpr ⟨ha, he⟩)

/-- An entry that can be scored is a `dict`, so the filter of `cve_matches_assets` keeps it. -/
theorem isDict_of_scorable {assets : List Asset} {entries : List Value} (ha : assets ≠ [])
    (h : Scorable assets entries) : entries.filter Value.isDict = entries := by
  obtain ⟨a, as, rfl⟩ := List.exists_cons_of_ne_nil ha
  rw [List.filter_eq_self]
  intro e he
  obtain ⟨s, hs⟩ := h a (.head _) e he
  cases e with
  | dict f => rfl
  | _ => simp [scoreAssetAgainstCpe, field, Value.get] at hs

/-- What one affected product is turned into: an entry with its name, or nothing if the name is blank. -/
def StandsFor (s : Text) : Option Value → Prop
  | none => keyOf (splitName s).1 = [] ∧ keyOf (splitName s).2 = []
  | some e => ∃ name, StandIn e name ∧ keyOf name.1 = keyOf (splitName s).1 ∧ keyOf name.2 = keyOf (splitName s).2

/-- Stand-ins can always be scored, and what counts is which names match. -/
theorem score_standIns {products : List Text} {f : Text → Option Value} (hf : ∀ s ∈ products, StandsFor s (f s))
    (assets : List Asset) :
    ∃ n, scoreCveForAssets (.list (products.filterMap f)) assets = .ok n ∧ (0 < n ↔ Named assets products) := by
  have he : ∀ e ∈ products.filterMap f, ∃ s ∈ products, f s = some e ∧ StandsFor s (some e) := by
    intro e he
    obtain ⟨s, hs, hfs⟩ := List.mem_filterMap.mp he
    exact ⟨s, hs, hfs, hfs ▸ hf s hs⟩
  have hd : Scorable assets (products.filterMap f) := by
    intro a _ e hm
    obtain ⟨s, -, -, name, hn, -⟩ := he e hm
    exact hn.defined a
  obtain ⟨n, hn⟩ := scorable_iff.mp hd
  refine ⟨n, hn, ?_⟩
  rw [scoreCveForAssets_pos hn]
  constructor
  · intro ⟨a, ha, e, hm, hk, _⟩
    obtain ⟨s, hs, -, name, hname, h1, h2⟩ := he e hm
    refine ⟨a, ha, s, hs, ?_⟩
    rw [← productKeysMatch_congr h1 h2]
    exact hname.keysMatch.mp hk
  · intro ⟨a, ha, s, hs, hk⟩
    have h := hf s hs
    cases hfs : f s with
    | none =>
      rw [hfs] at h
      rw [productKeysMatch_blank h.1 h.2] at hk
      cases hk
    | some e =>
      rw [hfs] at h
      obtain ⟨name, hname, h1, h2⟩ := h
      rw [← productKeysMatch_congr h1 h2] at hk
      exact ⟨a, ha, e, List.mem_filterMap.mpr ⟨s, hs, hfs⟩, hname.keysMatch.mpr hk, hname.fits _⟩

/-- The entry with the two sides of the first colon. -/
def pairEntry (s : Text) : Value :=
  .dict [("vendor", .str (splitColon s).1), ("product", .str (splitColon s).2)]

theorem standIn_pairEntry (s : Text) : StandIn (pairEntry s) (splitColon s) where
  vendor := Value.orText_str _
  product := Value.orText_str _
  version := ⟨[], rfl, rfl⟩
  bounds := rfl

theorem standsFor_pairEntry {s : Text} (h : ':' ∈ s) : StandsFor s (some (pairEntry s)) := by
  refine ⟨_, standIn_pairEntry s, ?_⟩
  rw [splitName_of_colon h]
  exact ⟨rfl, rfl⟩

theorem standsFor_pairEntry_lower {s : Text} (h : ':' ∈ s) : StandsFor s (some (pairEntry (lower s))) := by
  refine ⟨_, standIn_pairEntry _, ?_⟩
  rw [splitName_of_colon h]
  exact Prod.mk.inj (splitKeys_lower h)

theorem keyOf_splitName_strip (s : Text) :
    keyOf (splitName (strip s)).1 = keyOf (splitName s).1 ∧ keyOf (splitName (strip s)).2 = keyOf (splitName s).2 := by
  by_cases h : ':' ∈ s
  · rw [splitName_of_colon h, splitName_of_colon (colon_mem_strip.mpr h)]
    exact Prod.mk.inj (splitKeys_strip h)
  · rw [splitName_of_not_colon h, splitName_of_not_colon (fun hm ↦ h (colon_mem_strip.mp hm))]
    exact ⟨rfl, keyOf_strip s⟩

theorem strip_star : strip ['*'] = [] ∨ strip ['*'] = ['*'] := by
  cases h : isSpace '*' <;> simp [strip, h, List.rdropWhile]

theorem isVersionBound_star : isVersionBound (.str (strip ['*'])) = false := by
  rcases strip_star with h | h
  · rw [h]
    rfl
  · rw [h]
    rcases strip_star with h | h <;> simp [isVersionBound, h]

theorem standsFor_affectedToCpe (s : Text) : StandsFor s (affectedToCpe (.str s)) := by
  have hs : strOr (.str s) = s := by
    cases s <;> rfl
  obtain ⟨h1, h2⟩ := keyOf_splitName_strip s
  unfold affectedToCpe
  rw [hs]
  dsimp only
  split
  · rename_i he
    rw [he] at h1 h2
    exact ⟨h1.symm.trans keyOf_nil, h2.symm.trans keyOf_nil⟩
  · refine ⟨(strip (splitName (strip s)).1, strip (splitName (strip s)).2), ?_, ?_, ?_⟩
    · refine ⟨Value.orText_str _, Value.orText_str _, ⟨['*'], rfl, isVersionBound_star⟩, rfl⟩
    · rw [keyOf_strip, h1]
    · rw [keyOf_strip, h2]

def products (row : CveRow) : List Text :=
  (parseColumn row.affectedProducts).filterMap fun v ↦ if v.isStr then some (str v) else none

theorem parseJsonList_column (c : Option Text) : parseJsonList (column c) = parseColumn c := by
  cases c <;> rfl

theorem loadColumn_eq {c : Option Text} (h : ∀ s v, c = some s → loads s = some v → ∃ l, v = .list l) :
    loadColumn c = .list (parseColumn c) := by
  cases c with
  | none => rfl
  | some s =>
    unfold loadColumn parseColumn
    dsimp only
    split
    · rfl
    · cases hl : loads s with
      | none => rfl
      | some v =>
        obtain ⟨l, rfl⟩ := h s v rfl hl
        rfl

theorem loadColumn_cpe (row : CveRow) : loadColumn row.cpeMatches = .list (parseColumn row.cpeMatches) :=
  loadColumn_eq row.cpe_list

theorem loadColumn_affected (row : CveRow) :
    loadColumn row.affectedProducts = .list (parseColumn row.affectedProducts) := by
  apply loadColumn_eq
  intro s v hc hl
  obtain ⟨l, hv⟩ := row.affected_list s v hc hl
  exact ⟨_, hv⟩

theorem parseColumn_affected (row : CveRow) : parseColumn row.affectedProducts = (products row).map .str := by
  have hm : ∀ l : List Text, l.map Value.str = ((l.map Value.str).filterMap fun v ↦
      if v.isStr then some (str v) else none).map Value.str := by
    intro l
    simp [List.filterMap_map, Function.comp_def, Value.isStr]
  unfold products parseColumn
  split
  · rfl
  · rename_i s hs
    split
    · rfl
    · split
      · rename_i l hl
        obtain ⟨l', hv⟩ := row.affected_list s _ hs hl
        cases hv
        exact hm l'
      · rfl

theorem cpeMatches_riskCve (row : CveRow) : cpeMatches (riskCve row) = .list (parseColumn row.cpeMatches) := by
  have hg : Dict.get (riskCve row) "cpe_matches" = loadColumn row.cpeMatches := rfl
  rw [cpeMatches, hg, loadColumn_cpe]
  cases parseColumn row.cpeMatches <;> rfl

theorem affectedProducts_riskCve (row : CveRow) :
    affectedProducts (riskCve row) = .ok (((products row).filter (· ≠ [])).map lower) := by
  have hg : Dict.get (riskCve row) "affected_products" = loadColumn row.affectedProducts := rfl
  rw [affectedProducts, hg, loadColumn_affected, parseColumn_affected]
  have hl : (Value.list ((products row).map .str)).orElse (.list []) = .list ((products row).map .str) := by
    cases products row <;> rfl
  rw [hl]
  simp only [Value.iter_list, ok_bind, pure_eq_ok, List.filter_map, List.map_map, Function.comp_def, str_str]
  congr 2
  apply List.filter_congr
  intro s _
  cases s <;> rfl

/-- The affected products that name a vendor. -/
def colonProducts (row : CveRow) : List Text := (products row).filter fun s ↦ isIn ":" s

theorem affectedEntries_riskCve (row : CveRow) :
    affectedEntries (((products row).filter (· ≠ [])).map lower) =
      (colonProducts row).filterMap fun s ↦ some (pairEntry (lower s)) := by
  have hp : ∀ s : Text, isIn ":" (lower s) = isIn ":" s := by
    intro s
    rw [Bool.eq_iff_iff, isIn_colon, isIn_colon, colon_mem_lower]
  have hn : ∀ s : Text, (isIn ":" s && decide (s ≠ [])) = isIn ":" s := by
    intro s
    cases s <;> simp [isIn]
  simp only [affectedEntries, colonProducts, List.filter_map, List.filter_filter, List.map_map, Function.comp_def, hp,
    hn, List.filterMap_eq_map']
  rfl

theorem matchEntries_of_nil {row : CveRow} (h : parseColumn row.cpeMatches = []) :
    matchEntries row = (colonProducts row).filterMap fun s ↦ some (pairEntry s) := by
  rw [matchEntries, h]
  dsimp only
  rw [parseColumn_affected, colonProducts, List.filterMap_map, List.filterMap_filter]
  rfl

theorem matchEntries_of_ne {row : CveRow} (h : parseColumn row.cpeMatches ≠ []) :
    matchEntries row = parseColumn row.cpeMatches := by
  unfold matchEntries
  split
  · rename_i he
    exact (h he).elim
  · rfl

theorem rowScore_of_ne {row : CveRow} {assets : List Asset} (h : parseColumn row.cpeMatches ≠ []) :
    rowScore assets row = scoreCveForAssets (.list (parseColumn row.cpeMatches)) assets := by
  rw [rowScore, matchEntries_of_ne h]

theorem rowScore_of_nil {row : CveRow} (h : parseColumn row.cpeMatches = []) (assets : List Asset) :
    ∃ n, rowScore assets row = .ok n ∧ (0 < n ↔ Named assets (colonProducts row)) := by
  rw [rowScore, matchEntries_of_nil h]
  refine score_standIns (fun s hs ↦ standsFor_pairEntry ?_) assets
  exact isIn_colon.mp (List.mem_filter.mp hs).2

theorem cpeMatchScoreForCve_of_ne {row : CveRow} {assets : List Asset} (ha : assets ≠ [])
    (h : parseColumn row.cpeMatches ≠ []) : cpeMatchScoreForCve (riskCve row) assets = rowScore assets row := by
  have ht : (Value.list (parseColumn row.cpeMatches)).truthy = true := by
    cases hp : parseColumn row.cpeMatches with
    | nil => exact (h hp).elim
    | cons e es => rfl
  rw [cpeMatchScoreForCve, if_neg ha, rowScore_of_ne h]
  dsimp only
  rw [cpeMatches_riskCve, if_pos ht]

theorem cpeMatchScoreForCve_of_nil {row : CveRow} {assets : List Asset} (ha : assets ≠ [])
    (h : parseColumn row.cpeMatches = []) :
    ∃ n, cpeMatchScoreForCve (riskCve row) assets = .ok n ∧ (0 < n ↔ Named assets (colonProducts row)) := by
  have hs : cpeMatchScoreForCve (riskCve row) assets =
      scoreCveForAssets (.list ((colonProducts row).filterMap fun s ↦ some (pairEntry (lower s)))) assets := by
    rw [cpeMatchScoreForCve, if_neg ha]
    dsimp only
    rw [cpeMatches_riskCve, h, affectedProducts_riskCve, ok_bind, affectedEntries_riskCve]
    rfl
  rw [hs]
  refine score_standIns (fun s hs ↦ standsFor_pairEntry_lower ?_) assets
  exact isIn_colon.mp (List.mem_filter.mp hs).2

/-- `cve_matches_assets` looks at the affected products also when the row has CPE entries. -/
theorem cveMatchesAssets_eq {row : CveRow} {assets : List Asset} (ha : assets ≠ [])
    (hs : Scorable assets (parseColumn row.cpeMatches)) :
    ∃ b, cveMatchesAssets (column row.cpeMatches) (column row.affectedProducts) assets = .ok b ∧
      (b = true ↔ Hits assets (parseColumn row.cpeMatches) ∨ Named assets (products row)) := by
  obtain ⟨n, hn⟩ := scorable_iff.mp hs
  have hpos := scoreCveForAssets_pos hn
  have hc : affectedToCpes (column row.affectedProducts) =
      (products row).filterMap fun s ↦ affectedToCpe (.str s) := by
    rw [affectedToCpes, parseJsonList_column, parseColumn_affected, List.filterMap_map]
    rfl
  obtain ⟨m, hm, hnamed⟩ := score_standIns (fun s (_ : s ∈ products row) ↦ standsFor_affectedToCpe s) assets
  rw [cveMatchesAssets, if_neg ha, parseJsonList_column, isDict_of_scorable ha hs, hn, ok_bind, hc, hm]
  by_cases h : 0 < n
  · refine ⟨true, by rw [if_pos h]; rfl, ?_⟩
    simp only [true_iff]
    exact .inl (hpos.mp h)
  · refine ⟨decide (0 < m), by rw [if_neg h]; rfl, ?_⟩
    rw [decide_eq_true_eq, hnamed]
    exact ⟨.inr, fun h' ↦ h'.resolve_left fun hh ↦ h (hpos.mpr hh)⟩

theorem scan_keys {assets : List Asset} {rows : List CveRow} {acc scores : List (Text × ℕ)}
    (h : rows.foldlM (scanRow assets) acc = .ok scores) :
    (∀ r ∈ rows, ∃ n, rowScore assets r = .ok n) ∧ ∀ key, (∃ s, (key, s) ∈ scores) ↔
      (∃ s, (key, s) ∈ acc) ∨ ∃ r ∈ rows, r.cveId = key ∧ ∃ n, rowScore assets r = .ok n ∧ 0 < n := by
  induction rows generalizing acc with
  | nil =>
    have he : acc = scores := by simpa using h
    simp [he]
  | cons r rows ih =>
    simp only [List.foldlM_cons, scanRow, bind_eq_ok, pure_eq_ok, Except.ok.injEq] at h
    obtain ⟨acc', ⟨n, hn, rfl⟩, hrest⟩ := h
    obtain ⟨hd, hk⟩ := ih hrest
    refine ⟨List.forall_mem_cons.mpr ⟨⟨n, hn⟩, hd⟩, fun key ↦ ?_⟩
    have hr : (∃ m, rowScore assets r = .ok m ∧ 0 < m) ↔ 0 < n := by simp [hn]
    simp only [hk, List.exists_mem_cons_iff, hr]
    by_cases hpos : 0 < n
    · simp only [hpos, if_true, mem_assign, and_true, eq_comm (a := key)]
      tauto
    · simp only [hpos, if_false, and_false, false_or]

theorem matchCvesForAssets_defined {assets : List Asset} {rows : List CveRow}
    (h : ∀ r ∈ rows, ∃ n, rowScore assets r = .ok n) : ∃ scores, matchCvesForAssets rows assets = .ok scores := by
  suffices ∀ acc, ∃ scores, rows.foldlM (scanRow assets) acc = .ok scores from this []
  induction rows with
  | nil => exact fun acc ↦ ⟨acc, rfl⟩
  | cons r rows ih =>
    intro acc
    obtain ⟨n, hn⟩ := h r (.head _)
    obtain ⟨scores, hs⟩ := ih (fun r hr ↦ h r (.tail _ hr)) (if 0 < n then assign acc r.cveId n else acc)
    exact ⟨scores, by simpa only [List.foldlM_cons, scanRow, hn, ok_bind, pure_eq_ok] using hs⟩

/-- The scan keeps a row exactly when the row's own score is positive. -/
theorem matchCvesForAssets_mem {assets : List Asset} {rows : List CveRow} {scores : List (Text × ℕ)} {row : CveRow}
    {n : ℕ} (hids : (rows.map (·.cveId)).Nodup) (hrow : row ∈ rows) (hn : rowScore assets row = .ok n)
    (h : matchCvesForAssets rows assets = .ok scores) : (∃ s, (row.cveId, s) ∈ scores) ↔ 0 < n := by
  rw [(scan_keys h).2 row.cveId]
  constructor
  · rintro (⟨s, hs⟩ | ⟨r, hr, hid, m, hm, hpos⟩)
    · exact absurd hs List.not_mem_nil
    · have he : r = row := List.inj_on_of_nodup_map hids hr hrow hid
      rw [he, hn] at hm
      cases hm
      exact hpos
  · exact fun hpos ↦ .inr ⟨row, hrow, rfl, n, hn, hpos⟩

/-- All three paths return, and they agree on whether the row touches the assets. -/
def Agree (rows : List CveRow) (row : CveRow) (assets : List Asset) : Prop :=
  ∃ b n scores, cveMatchesAssets (column row.cpeMatches) (column row.affectedProducts) assets = .ok b ∧
    cpeMatchScoreForCve (riskCve row) assets = .ok n ∧ matchCvesForAssets rows assets = .ok scores ∧
    (b = true ↔ 0 < n) ∧ ((∃ s, (row.cveId, s) ∈ scores) ↔ 0 < n)

theorem scorable_row {assets : List Asset} {row : CveRow} :
    Scorable assets (parseColumn row.cpeMatches) ↔ ∃ n, rowScore assets row = .ok n := by
  by_cases h : parseColumn row.cpeMatches = []
  · obtain ⟨n, hn, -⟩ := rowScore_of_nil h assets
    simp [h, Scorable, hn]
  · rw [rowScore_of_ne h, scorable_iff]

/-- What the risk score and the correlation scan decide: the affected products count only for a
row without CPE entries, and only those that name a vendor. -/
def Touches (row : CveRow) (assets : List Asset) : Prop :=
  if parseColumn row.cpeMatches = [] then Named assets (colonProducts row)
  else Hits assets (parseColumn row.cpeMatches)

theorem Touches.hits_or_named {row : CveRow} {assets : List Asset} (h : Touches row assets) :
    Hits assets (parseColumn row.cpeMatches) ∨ Named assets (products row) := by
  unfold Touches at h
  split at h
  · obtain ⟨a, ha, s, hs, hk⟩ := h
    exact .inr ⟨a, ha, s, (List.mem_filter.mp hs).1, hk⟩
  · exact .inl h

theorem Touches.of_hits {row : CveRow} {assets : List Asset} (h : Hits assets (parseColumn row.cpeMatches)) :
    Touches row assets := by
  obtain ⟨a, ha, e, he, hk⟩ := h
  rw [Touches, if_neg (List.ne_nil_of_mem he)]
  exact ⟨a, ha, e, he, hk⟩

theorem rowScore_pos {row : CveRow} {assets : List Asset} {n : ℕ} (h : rowScore assets row = .ok n) :
    0 < n ↔ Touches row assets := by
  unfold Touches
  split
  · rename_i hc
    obtain ⟨m, hm, hpos⟩ := rowScore_of_nil hc assets
    rw [h] at hm
    cases hm
    exact hpos
  · rename_i hc
    rw [rowScore_of_ne hc] at h
    exact scoreCveForAssets_pos h

theorem cpeMatchScoreForCve_pos {row : CveRow} {assets : List Asset} (ha : assets ≠ [])
    (h : Scorable assets (parseColumn row.cpeMatches)) :
    ∃ n, cpeMatchScoreForCve (riskCve row) assets = .ok n ∧ (0 < n ↔ Touches row assets) := by
  by_cases hc : parseColumn row.cpeMatches = []
  · obtain ⟨n, hn, hpos⟩ := cpeMatchScoreForCve_of_nil ha hc
    refine ⟨n, hn, ?_⟩
    rw [hpos, Touches, if_pos hc]
  · obtain ⟨n, hn⟩ := scorable_row.mp h
    exact ⟨n, (cpeMatchScoreForCve_of_ne ha hc).trans hn, rowScore_pos hn⟩

theorem agree_nil {rows : List CveRow} {row : CveRow} : Agree rows row [] := by
  have hz : ∀ r : CveRow, rowScore [] r = .ok 0 := fun _ ↦ rfl
  obtain ⟨scores, hm⟩ := matchCvesForAssets_defined fun r (_ : r ∈ rows) ↦ ⟨0, hz r⟩
  refine ⟨false, 0, scores, rfl, rfl, hm, by simp, ?_⟩
  rw [(scan_keys hm).2 row.cveId]
  simp [hz]

theorem agree_iff {rows : List CveRow} {row : CveRow} {assets : List Asset}
    (hids : (rows.map (·.cveId)).Nodup) (hrow : row ∈ rows) :
    Agree rows row assets ↔ assets = [] ∨ ((∀ r ∈ rows, Scorable assets (parseColumn r.cpeMatches)) ∧
      (Named assets (products row) → Touches row assets)) := by
  by_cases ha : assets = []
  · simp only [ha, true_or, iff_true]
    exact agree_nil
  simp only [ha, false_or]
  constructor
  · intro ⟨b, n, scores, hb, hn, hm, hbn, _⟩
    have hd : ∀ r ∈ rows, Scorable assets (parseColumn r.cpeMatches) :=
      fun r hr ↦ scorable_row.mpr ((scan_keys hm).1 r hr)
    obtain ⟨b', hb', hiff⟩ := cveMatchesAssets_eq ha (hd row hrow)
    obtain ⟨n', hn', hpos⟩ := cpeMatchScoreForCve_pos ha (hd row hrow)
    obtain rfl : b = b' := Except.ok.inj (hb.symm.trans hb')
    obtain rfl : n = n' := Except.ok.inj (hn.symm.trans hn')
    exact ⟨hd, fun hp ↦ hpos.mp (hbn.mp (hiff.mpr (.inr hp)))⟩
  · intro ⟨hd, hp⟩
    obtain ⟨b, hb, hiff⟩ := cveMatchesAssets_eq ha (hd row hrow)
    obtain ⟨n, hn, hpos⟩ := cpeMatchScoreForCve_pos ha (hd row hrow)
    obtain ⟨scores, hm⟩ := matchCvesForAssets_defined fun r hr ↦ scorable_row.mp (hd r hr)
    obtain ⟨m, hrs⟩ := scorable_row.mp (hd row hrow)
    refine ⟨b, n, scores, hb, hn, hm, ?_, ?_⟩
    · rw [hiff, hpos]
      exact ⟨fun h ↦ h.elim Touches.of_hits hp, Touches.hits_or_named⟩
    · rw [matchCvesForAssets_mem hids hrow hrs hm, rowScore_pos hrs, hpos]

end

section

def nginxEntry : Value :=
  .dict [("vendor", .str "f5"), ("product", .str "nginx"), ("version", .str "*"),
    ("version_end_excluding", .str "1.20.0")]

def nginxCpeText : Text :=
  "[\x7b\"vendor\": \"f5\", \"product\": \"nginx\", \"version\": \"*\", \"version_end_excluding\": \"1.20.0\"\x7d]"

def nginxAffectedText : Text := "[\"f5:nginx\"]"

def nginxLoads (s : Text) : Option Value :=
  if s = nginxCpeText then some (.list [nginxEntry])
  else if s = nginxAffectedText then some (.list [.str "f5:nginx"])
  else none

local instance : Interp := ascii nginxLoads

/-- A vulnerability of nginx before 1.20.0. -/
def nginxRow : CveRow where
  cveId := "CVE-2021-23017"
  cpeMatches := some nginxCpeText
  affectedProducts := some nginxAffectedText
  cpe_list s v hs hv := by
    cases hs
    exact ⟨_, (Option.some.inj hv).symm⟩
  affected_list s v hs hv := by
    cases hs
    exact ⟨["f5:nginx"], (Option.some.inj hv).symm⟩

def nginxAsset (version : Text) : Asset := ⟨"nginx", version, "f5"⟩

theorem agree_in_range : Agree [nginxRow] nginxRow [nginxAsset "1.18.0"] := by
  have hs : scoreAssetAgainstCpe (nginxAsset "1.18.0") nginxEntry = .ok (some 100) := rfl
  refine (agree_iff (by decide) (List.mem_singleton.mpr rfl)).mpr (.inr ⟨?_, fun _ ↦ Touches.of_hits ?_⟩)
  · intro r hr a ha e he
    obtain rfl := List.mem_singleton.mp hr
    obtain rfl := List.mem_singleton.mp ha
    obtain rfl : e = nginxEntry := List.mem_singleton.mp he
    exact ⟨_, hs⟩
  · obtain ⟨hk, hf, -⟩ := score_eq_some.mp hs
    exact ⟨_, .head _, nginxEntry, .head _, hk, hf⟩

/-- Version 1.24.0 is outside the range: the score is 0 and the scan leaves the row out, but the
stack feed takes it through its affected product. -/
theorem agree_out_of_range :
    cveMatchesAssets (column nginxRow.cpeMatches) (column nginxRow.affectedProducts) [nginxAsset "1.24.0"] =
      .ok true ∧
    cpeMatchScoreForCve (riskCve nginxRow) [nginxAsset "1.24.0"] = .ok 0 ∧
    matchCvesForAssets [nginxRow] [nginxAsset "1.24.0"] = .ok [] ∧
    ¬Agree [nginxRow] nginxRow [nginxAsset "1.24.0"] := by
  have h1 : cveMatchesAssets (column nginxRow.cpeMatches) (column nginxRow.affectedProducts)
      [nginxAsset "1.24.0"] = .ok true := rfl
  have h2 : cpeMatchScoreForCve (riskCve nginxRow) [nginxAsset "1.24.0"] = .ok 0 := rfl
  refine ⟨h1, h2, rfl, ?_⟩
  intro ⟨b, n, scores, hb, hn, _, hbn, _⟩
  obtain rfl : true = b := Except.ok.inj (h1.symm.trans hb)
  obtain rfl : 0 = n := Except.ok.inj (h2.symm.trans hn)
  exact absurd (hbn.mp rfl) (lt_irrefl 0)

end

end Briefr.Matching.Agreement
