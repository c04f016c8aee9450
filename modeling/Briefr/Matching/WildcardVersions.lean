import Briefr.Matching.Cpe

namespace Briefr.Matching.Cpe

open Briefr.Python

section
variable [Interp] {asset : Asset} {cpe : Value}

/-- A version that says nothing: blank or one of the wildcards that `_is_version_bound` leaves out. -/
abbrev Unspecified := { w : Text // isVersionBound (.str w) = false }

def Asset.withVersion (asset : Asset) (version : Text) : Asset := { asset with version }

/-- The asset is scored as one without a version. -/
structure ScoredUnversioned (asset : Asset) (version : Text) (cpe : Value) : Prop where
  same_score : scoreAssetAgainstCpe (asset.withVersion version) cpe = scoreAssetAgainstCpe (asset.withVersion []) cpe
  not_excluded : KeysMatch asset cpe → scoreAssetAgainstCpe (asset.withVersion version) cpe ≠ .ok none
  not_verified : scoreAssetAgainstCpe (asset.withVersion version) cpe ≠ .ok (some 100)

theorem keysMatch_withVersion (version : Text) : KeysMatch (asset.withVersion version) cpe ↔ KeysMatch asset cpe := .rfl

/-- Once the keys match, the score is that of the version. -/
theorem score_of_keysMatch (h : KeysMatch asset cpe) (version : Text) :
    scoreAssetAgainstCpe (asset.withVersion version) cpe = scoreVersion (strip version) cpe := by
  obtain ⟨vendor, product, hv, hp, hk⟩ := h
  rw [scoreAssetAgainstCpe, hv, ok_bind, hp, ok_bind]
  exact if_pos hk

theorem score_of_not_keysMatch (h : ¬KeysMatch asset cpe) (v w : Text) :
    scoreAssetAgainstCpe (asset.withVersion v) cpe = scoreAssetAgainstCpe (asset.withVersion w) cpe := by
  simp only [scoreAssetAgainstCpe]
  cases hv : field cpe "vendor" with
  | error e => rfl
  | ok vendor =>
    cases hp : field cpe "product" with
    | error e => rfl
    | ok product =>
      have hk : productKeysMatch asset.product asset.vendor vendor product = false :=
        Bool.eq_false_iff.mpr fun hk ↦ h ⟨vendor, product, hv, hp, hk⟩
      simp only [ok_bind, Asset.withVersion, hk, Bool.false_eq_true, ↓reduceIte]

omit [Interp] in
theorem exists_bounds {v : Text} (h : field cpe "version" = .ok v) : ∃ b, bounds cpe = .ok b := by
  cases cpe with
  | dict fields => exact ⟨_, rfl⟩
  | _ => cases h

/-- Without a version nothing but the product is matched. -/
theorem scoreVersion_nil {v : Text} (h : field cpe "version" = .ok v) : scoreVersion [] cpe = .ok (some 55) := by
  obtain ⟨b, hb⟩ := exists_bounds h
  have hd : versionDiffers [] (strip v) = .ok false := versionDiffers_eq_false.mpr fun _ hn ↦ absurd rfl hn
  exact scoreVersion_eq_some.mpr ⟨⟨⟨v, h, hd⟩, b, hb, versionInRange_nil b⟩, rfl⟩

theorem scoreVersion_error {e : Exc} (h : field cpe "version" = .error e) (version : Text) :
    scoreVersion version cpe = .error e := by
  rw [scoreVersion, h]
  rfl

/-- A version without a value in it is scored as none at all exactly when it is blank or is not looked at. -/
theorem wildcard_unversioned_iff (asset : Asset) (w : Unspecified) (cpe : Value) :
    ScoredUnversioned asset w.1 cpe ↔
      strip w.1 = [] ∨ ¬KeysMatch asset cpe ∨ ∃ e, field cpe "version" = .error e := by
  constructor
  · intro h
    by_contra hn
    rw [not_or, not_or, not_not, not_exists] at hn
    obtain ⟨hw, hk, he⟩ := hn
    obtain ⟨v, hv⟩ : ∃ v, field cpe "version" = .ok v := by
      cases hf : field cpe "version" with
      | ok v => exact ⟨v, rfl⟩
      | error e => exact absurd hf (he e)
    have hs := h.same_score
    rw [score_of_keysMatch hk, score_of_keysMatch hk, strip_eq_self (List.forall_mem_nil _), scoreVersion_nil hv] at hs
    have hn := (scoreVersion_eq_some.mp hs).2
    rw [if_neg hw] at hn
    omega
  · intro h
    by_cases hk : KeysMatch asset cpe
    · rcases hf : field cpe "version" with e | v
      · have hs := fun version ↦ (score_of_keysMatch hk version).trans (scoreVersion_error hf _)
        refine ⟨(hs w.1).trans (hs []).symm, fun _ ↦ ?_, ?_⟩
        · rw [hs]
          exact nofun
        · rw [hs]
          exact nofun
      · have hw : strip w.1 = [] := by
          rcases h with h | h | ⟨e, h⟩
          · exact h
          · exact absurd hk h
          · rw [hf] at h
            cases h
        have hs : ∀ version, strip version = [] →
            scoreAssetAgainstCpe (asset.withVersion version) cpe = .ok (some 55) := by
          intro version hv
          rw [score_of_keysMatch hk, hv, scoreVersion_nil hf]
        refine ⟨(hs w.1 hw).trans (hs [] (strip_eq_self (List.forall_mem_nil _))).symm, fun _ ↦ ?_, ?_⟩
        · rw [hs w.1 hw]
          exact nofun
        · rw [hs w.1 hw]
          simp
    · refine ⟨score_of_not_keysMatch hk w.1 [], fun hk' ↦ absurd hk' hk, fun hs ↦ hk ?_⟩
      exact (keysMatch_withVersion w.1).mp (score_eq_some.mp hs).1

end

section
local instance wildcardInterp : Interp := ascii fun _ ↦ none

def log4jAsset : Asset := ⟨"log4j", "", "apache"⟩

def log4jEntry (version : Text) : Value :=
  .dict [("vendor", .str "apache"), ("product", .str "log4j"), ("version", .str version)]

/-- The wildcard is excluded by a concrete version, and version-verified by an entry for every version. -/
theorem wildcard_not_unversioned :
    scoreAssetAgainstCpe (log4jAsset.withVersion "*") (log4jEntry "2.14.1") = .ok none ∧
    scoreAssetAgainstCpe (log4jAsset.withVersion "") (log4jEntry "2.14.1") = .ok (some 55) ∧
    scoreAssetAgainstCpe (log4jAsset.withVersion "-") (log4jEntry "*") = .ok (some 100) ∧
    scoreAssetAgainstCpe (log4jAsset.withVersion "") (log4jEntry "*") = .ok (some 55) :=
  ⟨rfl, rfl, rfl, rfl⟩

end

end Briefr.Matching.Cpe
