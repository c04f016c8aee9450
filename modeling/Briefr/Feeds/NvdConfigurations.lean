import Mathlib.Data.List.Nodup
import Briefr.Matching.Cpe

namespace Briefr.Feeds.NvdConfigurations

open Briefr.Python Briefr.Matching.Cpe

inductive Operator
  | and
  | or

/-- A `cpeMatch` object. A missing criteria text is read as the empty one. -/
structure CpeMatch where
  vulnerable : Bool
  criteria : Text
  versionStartIncluding : Option Text
  versionStartExcluding : Option Text
  versionEndIncluding : Option Text
  versionEndExcluding : Option Text

structure Node where
  operator : Operator
  negate : Bool
  cpeMatch : List CpeMatch

structure Configuration where
  operator : Option Operator
  negate : Bool
  nodes : List Node

/-- The order in which the three loops visit the `cpeMatch` objects. -/
def allMatches (configurations : List Configuration) : List CpeMatch :=
  configurations.flatMap fun config ↦ config.nodes.flatMap fun node ↦ node.cpeMatch

/-- The tuple by which entries are told apart; an entry holds the same data. -/
structure Key where
  vendor : Text
  product : Text
  cpeVersion : Option Text
  versionStartIncluding : Option Text
  versionStartExcluding : Option Text
  versionEndIncluding : Option Text
  versionEndExcluding : Option Text
  deriving DecidableEq

/-- A name that is neither empty nor a wildcard. -/
def isName (s : Text) : Bool := !(s.isEmpty || decide (s = "*") || decide (s = "-"))

/-- Vendor, product and version of a criteria text. -/
structure Name where
  vendor : Text
  product : Text
  version : Option Text

/-- `cpe.split(":")`: vendor and product are parts 3 and 4, and the version part 5 if there is one. -/
def nameOf (criteria : Text) : Option Name :=
  match criteria.splitOn ':' with
  | _ :: _ :: _ :: vendor :: product :: rest => some ⟨vendor, product, rest.head?⟩
  | _ => none

/-- The key of a `cpeMatch` object that is not skipped. -/
def keyOfMatch (m : CpeMatch) : Option Key :=
  match nameOf m.criteria with
  | some name =>
    if isName name.vendor && isName name.product then
      some ⟨name.vendor, name.product, name.version, m.versionStartIncluding, m.versionStartExcluding,
        m.versionEndIncluding, m.versionEndExcluding⟩
    else none
  | none => none

def optText : Option Text → Value
  | none => .none
  | some s => .str s

def Key.entry (k : Key) : Value :=
  .dict [("vendor", .str k.vendor), ("product", .str k.product), ("version", optText k.cpeVersion),
    ("version_start_including", optText k.versionStartIncluding),
    ("version_start_excluding", optText k.versionStartExcluding),
    ("version_end_including", optText k.versionEndIncluding),
    ("version_end_excluding", optText k.versionEndExcluding)]

/-- One pass of the inner loop; the keys seen so far are those of the entries appended so far. -/
def visit (seen : List Key) (m : CpeMatch) : List Key :=
  match keyOfMatch m with
  | none => seen
  | some k => if k ∈ seen then seen else seen ++ [k]

def extractCpeMatches (configurations : List Configuration) : List Value :=
  ((allMatches configurations).foldl visit []).map Key.entry

theorem mem_visit {seen : List Key} {m : CpeMatch} {k : Key} :
    k ∈ visit seen m ↔ k ∈ seen ∨ keyOfMatch m = some k := by
  unfold visit
  cases h : keyOfMatch m with
  | none => simp
  | some j =>
    dsimp only
    split
    · rename_i hj
      simp only [Option.some.injEq]
      exact ⟨.inl, fun h ↦ h.elim id fun hjk ↦ hjk ▸ hj⟩
    · simp [eq_comm]

theorem mem_foldl_visit {ms : List CpeMatch} {seen : List Key} {k : Key} :
    k ∈ ms.foldl visit seen ↔ k ∈ seen ∨ ∃ m ∈ ms, keyOfMatch m = some k := by
  induction ms generalizing seen with
  | nil => simp
  | cons m ms ih => rw [List.foldl_cons, ih, mem_visit, List.exists_mem_cons_iff, or_assoc]

theorem nodup_foldl_visit {ms : List CpeMatch} {seen : List Key} (h : seen.Nodup) : (ms.foldl visit seen).Nodup := by
  induction ms generalizing seen with
  | nil => exact h
  | cons m ms ih =>
    apply ih
    unfold visit
    split
    · exact h
    · rename_i k _
      split
      · exact h
      · rename_i hk
        exact List.Nodup.append h (List.nodup_singleton k) (by simpa using hk)

/-- The flat list holds exactly the entries of the objects that are not skipped, from any node and
whatever their flags. -/
theorem mem_extractCpeMatches {configurations : List Configuration} {e : Value} :
    e ∈ extractCpeMatches configurations ↔
      ∃ m ∈ allMatches configurations, ∃ k, keyOfMatch m = some k ∧ e = k.entry := by
  simp only [extractCpeMatches, List.mem_map, mem_foldl_visit, List.not_mem_nil, false_or]
  constructor
  · rintro ⟨k, ⟨m, hm, hk⟩, rfl⟩
    exact ⟨m, hm, k, hk, rfl⟩
  · rintro ⟨m, hm, k, hk, rfl⟩
    exact ⟨k, ⟨m, hm, hk⟩, rfl⟩

theorem Key.entry_injective : Function.Injective Key.entry := by
  have ho : Function.Injective optText := by
    intro a b h
    cases a <;> cases b <;> simp_all [optText]
  intro a b h
  simp only [Key.entry, Value.dict.injEq, List.cons.injEq, Prod.mk.injEq, Value.str.injEq, true_and, and_true] at h
  obtain ⟨h1, h2, h3, h4, h5, h6, h7⟩ := h
  cases a
  cases b
  simp_all [ho.eq_iff]

theorem nodup_extractCpeMatches (configurations : List Configuration) : (extractCpeMatches configurations).Nodup :=
  (nodup_foldl_visit List.nodup_nil).map Key.entry_injective

theorem keyOfMatch_eq_some {m : CpeMatch} {k : Key} (h : keyOfMatch m = some k) :
    ∃ name, nameOf m.criteria = some name ∧
      k = ⟨name.vendor, name.product, name.version, m.versionStartIncluding, m.versionStartExcluding,
        m.versionEndIncluding, m.versionEndExcluding⟩ := by
  unfold keyOfMatch at h
  split at h
  · rename_i name hn
    split at h
    · exact ⟨name, hn, (Option.some.inj h).symm⟩
    · cases h
  · cases h

theorem Key.field_vendor (k : Key) : field k.entry "vendor" = .ok k.vendor := Value.orText_str _

theorem Key.field_product (k : Key) : field k.entry "product" = .ok k.product := Value.orText_str _

theorem Key.field_version (k : Key) : field k.entry "version" = .ok (k.cpeVersion.getD []) := by
  change (optText k.cpeVersion).orText = _
  cases k.cpeVersion with
  | none => rfl
  | some s => exact Value.orText_str s

/-- The bounds of a `cpeMatch` object, as its entry carries them. -/
def CpeMatch.bounds (m : CpeMatch) : Bounds :=
  ⟨optText m.versionStartIncluding, optText m.versionStartExcluding, optText m.versionEndIncluding,
    optText m.versionEndExcluding⟩

section
variable [Interp]

/-- The object names the asset's product and its version constraints admit the asset's version. -/
def CpeMatch.Affects (m : CpeMatch) (asset : Asset) : Prop :=
  ∃ name, nameOf m.criteria = some name ∧
    productKeysMatch asset.product asset.vendor name.vendor name.product = true ∧
    (∀ v, name.version = some v → versionDiffers (strip asset.version) (strip v) = .ok false) ∧
    versionInRange (strip asset.version) m.bounds = .ok true

/-- A kept object's entry gives a score exactly when the object affects the asset. -/
theorem score_entry_iff {m : CpeMatch} {k : Key} (h : keyOfMatch m = some k) {asset : Asset} :
    (∃ n, scoreAssetAgainstCpe asset k.entry = .ok (some n)) ↔ m.Affects asset := by
  obtain ⟨name, hn, hk⟩ := keyOfMatch_eq_some h
  have hb : Briefr.Matching.Cpe.bounds k.entry = .ok m.bounds := by rw [hk]; rfl
  constructor
  · intro ⟨n, hs⟩
    obtain ⟨⟨vendor, product, hv, hp, hkeys⟩, ⟨⟨v, hver, hd⟩, b, hb', hr⟩, -⟩ := score_eq_some.mp hs
    obtain rfl := Except.ok.inj (k.field_vendor.symm.trans hv)
    obtain rfl := Except.ok.inj (k.field_product.symm.trans hp)
    obtain rfl := Except.ok.inj (k.field_version.symm.trans hver)
    obtain rfl := Except.ok.inj (hb.symm.trans hb')
    subst hk
    refine ⟨name, hn, hkeys, fun v hv ↦ ?_, hr⟩
    simpa only [hv, Option.getD_some] using hd
  · intro ⟨name', hn', hkeys, hd, hr⟩
    obtain rfl := Option.some.inj (hn.symm.trans hn')
    subst hk
    refine ⟨_, score_eq_some.mpr ⟨⟨_, _, Key.field_vendor _, Key.field_product _, hkeys⟩,
      ⟨⟨_, Key.field_version _, ?_⟩, _, hb, hr⟩, rfl⟩⟩
    dsimp only
    cases hv : name.version with
    | none => rfl
    | some v => exact hd v hv

def Matches (configurations : List Configuration) (asset : Asset) : Prop :=
  ∃ e ∈ extractCpeMatches configurations, ∃ n, 0 < n ∧ scoreAssetAgainstCpe asset e = .ok (some n)

theorem matches_iff {configurations : List Configuration} {asset : Asset} :
    Matches configurations asset ↔
      ∃ m ∈ allMatches configurations, (keyOfMatch m).isSome = true ∧ m.Affects asset := by
  have hpos : ∀ e n, scoreAssetAgainstCpe asset e = .ok (some n) → 0 < n := by
    intro e n h
    obtain ⟨-, -, rfl⟩ := score_eq_some.mp h
    split <;> decide
  constructor
  · intro ⟨e, he, n, _, hs⟩
    obtain ⟨m, hm, k, hk, rfl⟩ := mem_extractCpeMatches.mp he
    exact ⟨m, hm, by rw [hk]; rfl, (score_entry_iff hk).mp ⟨n, hs⟩⟩
  · intro ⟨m, hm, hk, ha⟩
    obtain ⟨k, hk⟩ := Option.isSome_iff_exists.mp hk
    obtain ⟨n, hs⟩ := (score_entry_iff hk).mpr ha
    exact ⟨k.entry, mem_extractCpeMatches.mpr ⟨m, hm, k, hk, rfl⟩, n, hpos _ _ hs, hs⟩

/-- A match means that a vulnerable object affects the asset, except exactly where only platform
objects do: the extraction drops the `vulnerable` flag. -/
theorem match_sound_iff (configurations : List Configuration) (asset : Asset) :
    (Matches configurations asset → ∃ m ∈ allMatches configurations, m.vulnerable = true ∧ m.Affects asset) ↔
      (∀ m ∈ allMatches configurations, m.vulnerable = false → (keyOfMatch m).isSome = true → ¬m.Affects asset) ∨
        ∃ m ∈ allMatches configurations, m.vulnerable = true ∧ m.Affects asset := by
  rw [matches_iff]
  constructor
  · intro h
    by_cases hv : ∃ m ∈ allMatches configurations, m.vulnerable = true ∧ m.Affects asset
    · exact .inr hv
    · exact .inl fun m hm _ hk ha ↦ hv (h ⟨m, hm, hk, ha⟩)
  · rintro (h | h) ⟨m, hm, hk, ha⟩
    · cases hv : m.vulnerable with
      | true => exact ⟨m, hm, hv, ha⟩
      | false => exact (h m hm hv hk ha).elim
    · exact h

end

section
local instance : Interp := ascii fun _ ↦ none

def plainMatch (vulnerable : Bool) (criteria : Text) : CpeMatch := ⟨vulnerable, criteria, none, none, none, none⟩

/-- Plugin 1.0 is vulnerable when it runs on Windows 10. -/
def pluginOnWindows : List Configuration :=
  [⟨some .and, false,
    [⟨.or, false, [plainMatch true "cpe:2.3:a:acme:plugin:1.0:*:*:*:*:*:*:*"]⟩,
      ⟨.or, false, [plainMatch false "cpe:2.3:o:microsoft:windows_10:-:*:*:*:*:*:*:*"]⟩]⟩]

def windowsAsset : Asset := ⟨"windows_10", "22H2", "microsoft"⟩

/-- The platform entry alone matches an asset that is not vulnerable itself. -/
theorem platform_matches : Matches pluginOnWindows windowsAsset ∧
    ¬∃ m ∈ allMatches pluginOnWindows, m.vulnerable = true ∧ m.Affects windowsAsset := by
  refine ⟨⟨_, .tail _ (.head _), 100, by decide, rfl⟩, ?_⟩
  intro ⟨m, hm, hv, name, hn, hk, _⟩
  simp only [allMatches, pluginOnWindows, List.flatMap_cons, List.flatMap_nil, List.append_nil, List.mem_append,
    List.mem_cons, List.not_mem_nil, or_false] at hm
  rcases hm with rfl | rfl
  · cases hn
    exact absurd hk (by decide)
  · cases hv

end

end Briefr.Feeds.NvdConfigurations
