import Briefr.Preferences.Profile

namespace Briefr.Preferences

open Briefr.Python Briefr.Matching.Cpe Briefr.Scoring.AssetMatch Briefr.Scoring.Environment

section Lists

variable {α β : Type} {f g : α → Option β} {l : List α}

theorem length_filterMap_le (h : ∀ x ∈ l, (f x).isSome → (g x).isSome) :
    (l.filterMap f).length ≤ (l.filterMap g).length := by
  induction l with
  | nil => exact le_rfl
  | cons x l ih =>
    have ih := ih fun y hy ↦ h y (.tail _ hy)
    have hx := h x (.head _)
    rw [List.filterMap_cons, List.filterMap_cons]
    cases hf : f x with
    | none =>
      cases g x with
      | none => exact ih
      | some b => exact ih.trans (Nat.le_succ _)
    | some a =>
      obtain ⟨b, hb⟩ := Option.isSome_iff_exists.mp (hx (by rw [hf]; rfl))
      rw [hb]
      exact Nat.succ_le_succ ih

/-- Where the second drops no more than the first, the results are the same only element by element. -/
theorem filterMap_eq_filterMap_iff (h : ∀ x ∈ l, (f x).isSome → (g x).isSome) :
    l.filterMap f = l.filterMap g ↔ ∀ x ∈ l, f x = g x := by
  refine ⟨fun he ↦ ?_, List.filterMap_congr⟩
  induction l with
  | nil => exact fun x hx ↦ absurd hx List.not_mem_nil
  | cons x l ih =>
    have hx := h x (.head _)
    have htail : ∀ y ∈ l, (f y).isSome → (g y).isSome := fun y hy ↦ h y (.tail _ hy)
    cases hf : f x with
    | none =>
      rw [List.filterMap_cons_none hf] at he
      cases hg : g x with
      | none =>
        rw [List.filterMap_cons_none hg] at he
        exact List.forall_mem_cons.mpr ⟨hf.trans hg.symm, ih htail he⟩
      | some b =>
        rw [List.filterMap_cons_some hg] at he
        have hlength := congrArg List.length he
        have hle := length_filterMap_le htail
        simp only [List.length_cons] at hlength
        omega
    | some a =>
      obtain ⟨b, hb⟩ := Option.isSome_iff_exists.mp (hx (by rw [hf]; rfl))
      rw [List.filterMap_cons_some hf, List.filterMap_cons_some hb] at he
      obtain ⟨hab, hrest⟩ := List.cons.inj he
      exact List.forall_mem_cons.mpr ⟨hf.trans (hab ▸ hb.symm), ih htail hrest⟩

end Lists

section Readers

variable [Interp] {p : Dict} {l : List Value}

@[simp] theorem strOr_str (s : Text) : strOr (.str s) = s := by
  cases s <;> rfl

omit [Interp] in
@[simp] theorem orElse_list (l : List Value) : (Value.list l).orElse (.list []) = .list l := by
  cases l <;> rfl

omit [Interp] in
/-- The readers go over the items of a list, and over characters or keys elsewhere. -/
theorem items_cases {key : Text} (h : items p key = .ok l) :
    p.get key = .list l ∨ ((∀ m, p.get key ≠ .list m) ∧ ∀ item ∈ l, ∃ s, item = .str s) := by
  by_cases hlist : ∃ m, p.get key = .list m
  · obtain ⟨m, hm⟩ := hlist
    rw [items, hm, orElse_list] at h
    cases h
    exact .inl hm
  refine .inr ⟨fun m hm ↦ hlist ⟨m, hm⟩, fun item hi ↦ ?_⟩
  rw [items] at h
  cases hv : p.get key with
  | list m => exact absurd ⟨m, hv⟩ hlist
  | none =>
    rw [hv] at h
    cases h
    exact absurd hi List.not_mem_nil
  | bool b =>
    rw [hv] at h
    cases b with
    | false =>
      cases h
      exact absurd hi List.not_mem_nil
    | true => cases h
  | num shown zero =>
    rw [hv] at h
    cases zero with
    | true =>
      cases h
      exact absurd hi List.not_mem_nil
    | false => cases h
  | str s =>
    rw [hv] at h
    cases s with
    | nil =>
      cases h
      exact absurd hi List.not_mem_nil
    | cons c s =>
      cases h
      obtain ⟨d, _, rfl⟩ := List.mem_map.mp hi
      exact ⟨[d], rfl⟩
  | dict f =>
    rw [hv] at h
    cases f with
    | nil =>
      cases h
      exact absurd hi List.not_mem_nil
    | cons q f =>
      cases h
      obtain ⟨d, _, rfl⟩ := List.mem_map.mp hi
      exact ⟨d.1, rfl⟩

theorem get_operatingSystems :
    Dict.get (sanitizeProfile p) "operatingSystems" = .list ((listItems (p.get "operatingSystems")).filterMap cleanOs) := rfl

theorem get_applications :
    Dict.get (sanitizeProfile p) "applications" = .list ((listItems (p.get "applications")).filterMap cleanApp) := rfl

theorem get_aiSystems :
    Dict.get (sanitizeProfile p) "aiSystems" = .list ((listItems (p.get "aiSystems")).filterMap cleanAi) := rfl

omit [Interp] in
theorem items_of_list {key : Text} (h : p.get key = .list l) : items p key = .ok l := by
  rw [items, h, orElse_list]
  rfl

omit [Interp] in
/-- A reader that looks only at objects, and at those fields of them that the sanitiser keeps, reads the same. -/
theorem flatMap_clean {γ : Type} {key : Text} {read : Value → List γ} {clean : Value → Option Value}
    (hread : ∀ v, read v = ((clean v).map read).getD []) (hclean : ∀ s, clean (.str s) = none)
    (h : items p key = .ok l) : l.flatMap read = ((listItems (p.get key)).filterMap clean).flatMap read := by
  rcases items_cases h with hlist | ⟨hne, hstr⟩
  · rw [hlist, listItems]
    clear h hlist
    induction l with
    | nil => rfl
    | cons item l ih =>
      rw [List.flatMap_cons, ih, hread item]
      cases hc : clean item with
      | none => rw [List.filterMap_cons_none hc]; rfl
      | some v => rw [List.filterMap_cons_some hc, List.flatMap_cons]; rfl
  · have hnil : listItems (p.get key) = [] := by
      cases hv : p.get key with
      | list m => exact absurd hv (hne m)
      | _ => rfl
    rw [hnil]
    refine List.flatMap_eq_nil_iff.mpr fun item hi ↦ ?_
    obtain ⟨s, rfl⟩ := hstr item hi
    rw [hread, hclean]
    rfl

end Readers

section Meaning

variable [PyStr] {p : Dict} {l : List Value}

theorem str_ne_nil {v : Value} (h : v.truthy = true) : str v ≠ [] := by
  have hother : ∀ v, strOther v ≠ [] := fun v hv ↦ strOther_not_blank v (by rw [hv]; rfl)
  cases v with
  | str s =>
    intro hs
    obtain rfl : s = [] := hs
    cases h
  | _ => exact hother _

theorem strOr_truthy {v : Value} (h : v.truthy = true) : strOr v = str v := if_pos h

theorem strOr_falsy {v : Value} (h : v.truthy = false) : strOr v = [] := by simp [strOr, h]

omit [PyStr] in
theorem truthy_str {s : Text} (h : s ≠ []) : (Value.str s).truthy = true := by
  cases s with
  | nil => exact absurd rfl h
  | cons => rfl

/-- `str(a or b or "")` is the same after each of the two was made a text. -/
theorem strOr_orElse_clean (a b : Value) :
    strOr ((Value.str (strOr a)).orElse (.str (strOr b))) = strOr (a.orElse b) := by
  cases ha : a.truthy with
  | true =>
    have hs : (Value.str (strOr a)).truthy = true := truthy_str (strOr_truthy ha ▸ str_ne_nil ha)
    rw [Value.orElse, if_pos hs, Value.orElse, if_pos ha, strOr_str]
  | false =>
    have hs : (Value.str (strOr a)).truthy = false := by rw [strOr_falsy ha]; rfl
    simp [Value.orElse, hs, ha]

theorem textField_of_get {d d' : Dict} {key : Text} (h : d'.get key = .str (strOr (d.get key))) :
    textField d' key = textField d key := by
  rw [textField, h, strOr_str, textField]

theorem lowerField_of_get {d d' : Dict} {key : Text} (h : d'.get key = .str (strOr (d.get key))) :
    lowerField d' key = lowerField d key := by
  rw [lowerField, h, strOr_str, lowerField]

def osDict (d : Dict) : Dict := [cleanField d "product", cleanField d "version", cleanField d "vendor"]

def appDict (d : Dict) : Dict :=
  [cleanField d "product", cleanField d "cpeProduct", cleanField d "version", cleanField d "vendor"]

theorem osAsset_osDict (d : Dict) : osAsset (.dict (osDict d)) = osAsset (.dict d) := by
  have hproduct : textField (osDict d) "product" = textField d "product" := textField_of_get rfl
  have hversion : textField (osDict d) "version" = textField d "version" := textField_of_get rfl
  have hvendor : textField (osDict d) "vendor" = textField d "vendor" := textField_of_get rfl
  simp only [osAsset, hproduct, hversion, hvendor]

theorem osOffers_osDict (affected : List Text) (blob : Text) (d : Dict) :
    osOffers affected blob (.dict (osDict d)) = osOffers affected blob (.dict d) := by
  have hlower : lowerField (osDict d) "product" = lowerField d "product" := lowerField_of_get rfl
  have hproduct : textField (osDict d) "product" = textField d "product" := textField_of_get rfl
  have hversion : textField (osDict d) "version" = textField d "version" := textField_of_get rfl
  simp only [osOffers, hlower, hproduct, hversion]

theorem appAsset_appDict (d : Dict) : appAsset (.dict (appDict d)) = appAsset (.dict d) := by
  have hname : strOr ((Dict.get (appDict d) "product").orElse (Dict.get (appDict d) "cpeProduct")) =
      strOr ((Dict.get d "product").orElse (Dict.get d "cpeProduct")) := strOr_orElse_clean _ _
  have hcpe : strOr ((Dict.get (appDict d) "cpeProduct").orElse (Dict.get (appDict d) "product")) =
      strOr ((Dict.get d "cpeProduct").orElse (Dict.get d "product")) := strOr_orElse_clean _ _
  have hversion : textField (appDict d) "version" = textField d "version" := textField_of_get rfl
  have hvendor : textField (appDict d) "vendor" = textField d "vendor" := textField_of_get rfl
  simp only [appAsset, hname, hcpe, hversion, hvendor]

theorem appOffers_appDict (affected : List Text) (blob : Text) (d : Dict) :
    appOffers affected blob (.dict (appDict d)) = appOffers affected blob (.dict d) := by
  have happ : App.of (appDict d) = App.of d := by
    have hvendor : lowerField (appDict d) "vendor" = lowerField d "vendor" := lowerField_of_get rfl
    have hcpe : lowerField (appDict d) "cpeProduct" = lowerField d "cpeProduct" := lowerField_of_get rfl
    have hproduct : textField (appDict d) "product" = textField d "product" := textField_of_get rfl
    have hversion : textField (appDict d) "version" = textField d "version" := textField_of_get rfl
    simp only [App.of, hvendor, hcpe, hproduct, hversion]
  simp only [appOffers, happ]

omit [PyStr] in
/-- What a reader of operating systems and one of applications makes of an item, before and after. -/
theorem read_clean {γ : Type} {read : Value → List γ} (hother : ∀ v, v.isDict = false → read v = []) {clean : Value → Option Value}
    {cleanDict : Dict → Dict} (hclean : ∀ d, clean (.dict d) = some (.dict (cleanDict d)))
    (hnone : ∀ v, v.isDict = false → clean v = none) (hdict : ∀ d, read (.dict (cleanDict d)) = read (.dict d)) (v : Value) :
    read v = ((clean v).map read).getD [] := by
  cases v with
  | dict d =>
    rw [hclean, Option.map_some, Option.getD_some, hdict]
  | _ =>
    rw [hnone _ rfl, hother _ rfl]
    rfl

omit [PyStr] in
theorem filterMap_eq_flatMap {α β : Type} (f : α → Option β) (m : List α) :
    m.filterMap f = m.flatMap fun x ↦ (f x).toList := by
  rw [List.filterMap_eq_flatMap_toList]

theorem flatMap_cleanOs {γ : Type} {read : Value → List γ} (hother : ∀ v, v.isDict = false → read v = [])
    (hdict : ∀ d, read (.dict (osDict d)) = read (.dict d)) (h : items p "operatingSystems" = .ok l) :
    l.flatMap read = ((listItems (p.get "operatingSystems")).filterMap cleanOs).flatMap read := by
  refine flatMap_clean (read_clean hother (fun _ ↦ rfl) ?_ hdict) (fun _ ↦ rfl) h
  intro v hv
  cases v <;> first | rfl | cases hv

theorem flatMap_cleanApp {γ : Type} {read : Value → List γ} (hother : ∀ v, v.isDict = false → read v = [])
    (hdict : ∀ d, read (.dict (appDict d)) = read (.dict d)) (h : items p "applications" = .ok l) :
    l.flatMap read = ((listItems (p.get "applications")).filterMap cleanApp).flatMap read := by
  refine flatMap_clean (read_clean hother (fun _ ↦ rfl) ?_ hdict) (fun _ ↦ rfl) h
  intro v hv
  cases v <;> first | rfl | cases hv

theorem filterMap_osAsset (h : items p "operatingSystems" = .ok l) :
    l.filterMap osAsset = ((listItems (p.get "operatingSystems")).filterMap cleanOs).filterMap osAsset := by
  rw [filterMap_eq_flatMap osAsset, filterMap_eq_flatMap osAsset]
  refine flatMap_cleanOs ?_ (fun d ↦ congrArg Option.toList (osAsset_osDict d)) h
  intro v hv
  cases v <;> first | rfl | cases hv

theorem filterMap_appAsset (h : items p "applications" = .ok l) :
    l.filterMap appAsset = ((listItems (p.get "applications")).filterMap cleanApp).filterMap appAsset := by
  rw [filterMap_eq_flatMap appAsset, filterMap_eq_flatMap appAsset]
  refine flatMap_cleanApp ?_ (fun d ↦ congrArg Option.toList (appAsset_appDict d)) h
  intro v hv
  cases v <;> first | rfl | cases hv

theorem flatMap_osOffers (affected : List Text) (blob : Text) (h : items p "operatingSystems" = .ok l) :
    l.flatMap (osOffers affected blob) =
      ((listItems (p.get "operatingSystems")).filterMap cleanOs).flatMap (osOffers affected blob) := by
  refine flatMap_cleanOs ?_ (osOffers_osDict affected blob) h
  intro v hv
  cases v <;> first | rfl | cases hv

theorem flatMap_appOffers (affected : List Text) (blob : Text) (h : items p "applications" = .ok l) :
    l.flatMap (appOffers affected blob) =
      ((listItems (p.get "applications")).filterMap cleanApp).flatMap (appOffers affected blob) := by
  refine flatMap_cleanApp ?_ (appOffers_appDict affected blob) h
  intro v hv
  cases v <;> first | rfl | cases hv

theorem aiAsset_congr {v w : Value} (h : profileProductName v = profileProductName w) : aiAsset v = aiAsset w := by
  rw [aiAsset, aiAsset, h]

theorem aiAsset_eq_none {v : Value} : aiAsset v = none ↔ profileProductName v = [] := by
  unfold aiAsset
  split
  · rename_i h
    exact ⟨fun _ ↦ h, fun _ ↦ rfl⟩
  · rename_i h
    exact ⟨nofun, fun he ↦ absurd he h⟩

theorem aiOffers_congr {v w : Value} (affected : List Text) (blob : Text)
    (h : profileProductName v = profileProductName w) : aiOffers affected blob v = aiOffers affected blob w := by
  rw [aiOffers, aiOffers, h]

theorem aiOffers_nil {v : Value} (affected : List Text) (blob : Text) (h : profileProductName v = []) :
    aiOffers affected blob v = [] := by
  rw [aiOffers]
  exact if_pos h

omit [PyStr] in
theorem eq_none_of_isNone {v : Value} (h : v.isNone = true) : v = .none := by
  cases v with
  | none => rfl
  | _ => cases h

/-- An AI system that the sanitiser turns into a text is read as the same asset exactly where its name is that text. -/
theorem aiAsset_clean (item : Value) :
    aiAsset item = (cleanAi item).bind aiAsset ↔ item.isNone = true ∨ profileProductName item = strip (str item) := by
  cases hn : item.isNone with
  | true =>
    obtain rfl := eq_none_of_isNone hn
    exact ⟨fun _ ↦ .inl rfl, fun _ ↦ rfl⟩
  | false =>
    have hclean : cleanAi item = some (.str (str item)) := by simp [cleanAi, hn]
    rw [hclean, Option.bind_some]
    constructor
    · intro he
      refine .inr ?_
      have hname : profileProductName (.str (str item)) = strip (str item) := rfl
      rw [← hname]
      simp only [aiAsset] at he
      split at he
      · rename_i hl
        split at he
        · rename_i hr
          rw [hl, hr]
        · cases he
      · split at he
        · cases he
        · exact congrArg Asset.product (Option.some.inj he)
    · exact fun h ↦ aiAsset_congr (h.resolve_left nofun)

theorem aiAsset_isSome_clean {item : Value} (h : (aiAsset item).isSome) : ((cleanAi item).bind aiAsset).isSome := by
  have hname : profileProductName item ≠ [] := fun hn ↦ by simp [aiAsset_eq_none.mpr hn] at h
  have hsome : ∀ s : Text, strip s ≠ [] → (aiAsset (.str s)).isSome := by
    intro s hs
    rw [Option.isSome_iff_ne_none]
    exact fun he ↦ hs (aiAsset_eq_none.mp he)
  cases item with
  | none | bool | num | list => exact absurd rfl hname
  | str s => exact hsome s hname
  | dict d => exact hsome _ (strOther_not_blank _)

theorem filterMap_aiAsset_iff (h : items p "aiSystems" = .ok l) :
    ((listItems (p.get "aiSystems")).filterMap cleanAi).filterMap aiAsset = l.filterMap aiAsset ↔
      AiNamesKept (p.get "aiSystems") l := by
  rw [List.filterMap_filterMap, eq_comm]
  rcases items_cases h with hlist | ⟨hne, _⟩
  · rw [hlist, listItems, filterMap_eq_filterMap_iff fun item _ ↦ aiAsset_isSome_clean]
    exact forall₂_congr fun item _ ↦ aiAsset_clean item
  · have hraw : listItems (p.get "aiSystems") = [] ∧
        (AiNamesKept (p.get "aiSystems") l ↔ ∀ item ∈ l, profileProductName item = []) := by
      cases hv : p.get "aiSystems" with
      | list m => exact absurd hv (hne m)
      | _ => exact ⟨rfl, Iff.rfl⟩
    rw [hraw.1, hraw.2, List.filterMap_nil, List.filterMap_eq_nil_iff]
    exact forall₂_congr fun item _ ↦ aiAsset_eq_none

theorem flatMap_aiOffers (affected : List Text) (blob : Text) (h : items p "aiSystems" = .ok l)
    (hk : AiNamesKept (p.get "aiSystems") l) :
    l.flatMap (aiOffers affected blob) =
      ((listItems (p.get "aiSystems")).filterMap cleanAi).flatMap (aiOffers affected blob) := by
  rcases items_cases h with hlist | ⟨hne, _⟩
  · rw [hlist] at hk ⊢
    rw [listItems]
    clear h hlist
    induction l with
    | nil => rfl
    | cons item l ih =>
      obtain ⟨hitem, hrest⟩ := List.forall_mem_cons.mp hk
      rw [List.flatMap_cons, ih hrest]
      cases hn : item.isNone with
      | true =>
        have hclean : cleanAi item = none := by simp [cleanAi, hn]
        obtain rfl := eq_none_of_isNone hn
        rw [List.filterMap_cons_none hclean]
        rfl
      | false =>
        have hclean : cleanAi item = some (.str (str item)) := by simp [cleanAi, hn]
        rw [List.filterMap_cons_some hclean, List.flatMap_cons]
        rw [aiOffers_congr (w := .str (str item)) affected blob (hitem.resolve_left (by simp [hn]))]
  · have hraw : listItems (p.get "aiSystems") = [] ∧ ∀ item ∈ l, profileProductName item = [] := by
      cases hv : p.get "aiSystems" with
      | list m => exact absurd hv (hne m)
      | _ =>
        rw [hv] at hk
        exact ⟨rfl, hk⟩
    rw [hraw.1]
    exact List.flatMap_eq_nil_iff.mpr fun item hi ↦ aiOffers_nil affected blob (hraw.2 item hi)

theorem sanitize_ne_nil (p : Dict) : sanitizeProfile p ≠ [] := nofun

theorem assets_sanitized (p : Dict) : profileToMatchAssets (some (sanitizeProfile p)) =
    .ok (((listItems (p.get "operatingSystems")).filterMap cleanOs).filterMap osAsset ++
      ((listItems (p.get "applications")).filterMap cleanApp).filterMap appAsset ++
      ((listItems (p.get "aiSystems")).filterMap cleanAi).filterMap aiAsset) := by
  rw [profileToMatchAssets, if_neg (sanitize_ne_nil p), items_of_list get_operatingSystems,
    items_of_list get_applications, items_of_list get_aiSystems]
  rfl

theorem assets_eq_iff (hp : p ≠ []) :
    profileToMatchAssets (some (sanitizeProfile p)) = profileToMatchAssets (some p) ↔
      (∃ l, items p "operatingSystems" = .ok l) ∧ (∃ l, items p "applications" = .ok l) ∧
        ∃ l, items p "aiSystems" = .ok l ∧ AiNamesKept (p.get "aiSystems") l := by
  rw [assets_sanitized, eq_comm, profileToMatchAssets, if_neg hp]
  simp only [bind_eq_ok, pure_eq_ok, Except.ok.injEq]
  constructor
  · rintro ⟨oses, hoses, apps, happs, ais, hais, he⟩
    rw [filterMap_osAsset hoses, filterMap_appAsset happs] at he
    exact ⟨⟨oses, hoses⟩, ⟨apps, happs⟩, ais, hais, (filterMap_aiAsset_iff hais).mp (List.append_cancel_left he).symm⟩
  · rintro ⟨⟨oses, hoses⟩, ⟨apps, happs⟩, ais, hais, hk⟩
    refine ⟨oses, hoses, apps, happs, ais, hais, ?_⟩
    rw [filterMap_osAsset hoses, filterMap_appAsset happs, (filterMap_aiAsset_iff hais).mpr hk]

theorem offers_sanitized (cve : Dict) {oses apps ais : List Value} (hoses : items p "operatingSystems" = .ok oses)
    (happs : items p "applications" = .ok apps) (hais : items p "aiSystems" = .ok ais)
    (hk : AiNamesKept (p.get "aiSystems") ais) : offers cve (sanitizeProfile p) = offers cve p := by
  simp only [offers, hoses, happs, hais, items_of_list get_operatingSystems, items_of_list get_applications,
    items_of_list get_aiSystems, ok_bind, flatMap_osOffers _ _ hoses, flatMap_appOffers _ _ happs,
    flatMap_aiOffers _ _ hais hk]

omit [PyStr] in
theorem classify_congr [Interp] {p q : Dict} (hp : p ≠ []) (hq : q ≠ []) {cve : Dict} (h : offers cve q = offers cve p)
    (backend : Option ℕ) : classifyEnvironment cve (some q) backend = classifyEnvironment cve (some p) backend := by
  have hpresent : present (some p) = present (some q) := by
    obtain ⟨a, p, rfl⟩ := List.exists_cons_of_ne_nil hp
    obtain ⟨b, q, rfl⟩ := List.exists_cons_of_ne_nil hq
    rfl
  have hinfo : assetMatchInfo cve (some q) = assetMatchInfo cve (some p) := by
    rw [assetMatchInfo, assetMatchInfo, if_neg hp, if_neg hq, h]
  simp only [classifyEnvironment, resolveAssetComponent, hpresent, hinfo]

/-- The empty profile is no profile to the fuzzy matcher, and a profile without assets once it is saved. -/
theorem classify_empty_ne :
    classifyEnvironment [] (some (sanitizeProfile [])) none ≠ classifyEnvironment [] (some []) none := by
  have hempty : classifyEnvironment [] (some []) none = .ok (grade defaultAssetUnknown [] 0) := rfl
  have hsaved : classifyEnvironment [] (some (sanitizeProfile [])) none = .ok (grade 0 noMatchLabel 0) := rfl
  have hweak : (grade defaultAssetUnknown [] 0).tier = .weak := grade_low (by decide) (by decide)
  have hnoMatch : (grade 0 noMatchLabel 0).tier = .noMatch := grade_low (by decide) (by decide)
  rw [hempty, hsaved]
  intro he
  have htier := congrArg Relevance.tier (Except.ok.inj he)
  rw [hweak, hnoMatch] at htier
  exact absurd htier (by decide)

theorem flags_sanitized (p : Dict) : extractProfileExposureFlags (some (sanitizeProfile p)) = ⟨none, none, none, none⟩ := rfl

omit [PyStr] in
theorem flag_eq_none {key : String} : flag p key = none ↔ (p.get key).isNone = true := by
  unfold flag
  split
  · rename_i h
    exact ⟨fun _ ↦ h, fun _ ↦ rfl⟩
  · rename_i h
    exact ⟨nofun, fun he ↦ absurd he h⟩

theorem criticality_eq_none :
    criticality p = none ↔ ∀ s, p.get "criticality" = .str s → upper (strip s) ∉ criticalityValues := by
  unfold criticality
  split
  · rename_i s hs
    rw [hs]
    split
    · rename_i hm
      exact ⟨nofun, fun h ↦ absurd hm (h s rfl)⟩
    · rename_i hm
      refine ⟨fun _ t ht ↦ ?_, fun _ ↦ rfl⟩
      cases ht
      exact hm
  · rename_i hne
    exact ⟨fun _ s hs ↦ absurd hs (hne s), fun _ ↦ rfl⟩

theorem flags_eq_iff :
    extractProfileExposureFlags (some (sanitizeProfile p)) = extractProfileExposureFlags (some p) ↔
      (p.get "internet_facing").isNone = true ∧
        (∀ s, p.get "criticality" = .str s → upper (strip s) ∉ criticalityValues) ∧
        (p.get "privileged_service").isNone = true ∧ (p.get "ot_safety").isNone = true := by
  rw [flags_sanitized, eq_comm, extractProfileExposureFlags, ExposureFlags.mk.injEq, flag_eq_none, criticality_eq_none,
    flag_eq_none, flag_eq_none]

omit [PyStr] in
theorem filterMap_fixed {α : Type} {f : α → Option α} (l : List α) (h : ∀ x y, f x = some y → f y = some y) :
    (l.filterMap f).filterMap f = l.filterMap f := by
  rw [List.filterMap_filterMap]
  refine List.filterMap_congr fun x _ ↦ ?_
  cases hy : f x with
  | none => rfl
  | some y => exact h x y hy

theorem cleanField_of_get {d d' : Dict} {key : String} (h : d'.get key = .str (strOr (d.get key))) :
    cleanField d' key = cleanField d key := by
  rw [cleanField, h, strOr_str, cleanField]

theorem cleanOs_fixed {v w : Value} (h : cleanOs v = some w) : cleanOs w = some w := by
  cases v with
  | dict d =>
    obtain rfl : Value.dict (osDict d) = w := Option.some.inj h
    have hproduct : cleanField (osDict d) "product" = cleanField d "product" := cleanField_of_get rfl
    have hversion : cleanField (osDict d) "version" = cleanField d "version" := cleanField_of_get rfl
    have hvendor : cleanField (osDict d) "vendor" = cleanField d "vendor" := cleanField_of_get rfl
    simp only [cleanOs, hproduct, hversion, hvendor]
    rfl
  | _ => cases h

theorem cleanApp_fixed {v w : Value} (h : cleanApp v = some w) : cleanApp w = some w := by
  cases v with
  | dict d =>
    obtain rfl : Value.dict (appDict d) = w := Option.some.inj h
    have hproduct : cleanField (appDict d) "product" = cleanField d "product" := cleanField_of_get rfl
    have hcpe : cleanField (appDict d) "cpeProduct" = cleanField d "cpeProduct" := cleanField_of_get rfl
    have hversion : cleanField (appDict d) "version" = cleanField d "version" := cleanField_of_get rfl
    have hvendor : cleanField (appDict d) "vendor" = cleanField d "vendor" := cleanField_of_get rfl
    simp only [cleanApp, hproduct, hcpe, hversion, hvendor]
    rfl
  | _ => cases h

theorem cleanAi_fixed {v w : Value} (h : cleanAi v = some w) : cleanAi w = some w := by
  cases v with
  | none => cases h
  | _ =>
    cases h
    rfl

omit [PyStr] in
theorem orElse_orElse (v : Value) {default : Value} (hd : default.truthy = true) :
    (v.orElse default).truthy = true ∧ (v.orElse default).orElse default = v.orElse default := by
  have ht : (v.orElse default).truthy = true := by
    unfold Value.orElse
    split
    · assumption
    · exact hd
  exact ⟨ht, if_pos ht⟩

theorem cleanEnv_of_get {d d' : Dict} {key default : String} (hd : (Value.str default).truthy = true)
    (h : d'.get key = (cleanEnv d key default).2) : cleanEnv d' key default = cleanEnv d key default := by
  have ht := (orElse_orElse (d.get key) hd).1
  have hs : (Value.str (str ((d.get key).orElse (.str default)))).truthy = true := truthy_str (str_ne_nil ht)
  rw [cleanEnv, h, cleanEnv, Value.orElse, if_pos hs]
  rfl

theorem sanitize_idem (p : Dict) : sanitizeProfile (sanitizeProfile p) = sanitizeProfile p := by
  have hversion : (Dict.get (sanitizeProfile p) "version").orElse (.num "1" false) =
      (p.get "version").orElse (.num "1" false) := (orElse_orElse (p.get "version") rfl).2
  have hfacing : cleanEnv (environment (sanitizeProfile p)) "internetFacing" "Some" =
      cleanEnv (environment p) "internetFacing" "Some" := cleanEnv_of_get rfl rfl
  have hindustry : cleanEnv (environment (sanitizeProfile p)) "industry" "Technology" =
      cleanEnv (environment p) "industry" "Technology" := cleanEnv_of_get rfl rfl
  have hcriticality : cleanEnv (environment (sanitizeProfile p)) "criticality" "Medium" =
      cleanEnv (environment p) "criticality" "Medium" := cleanEnv_of_get rfl rfl
  have hoses := filterMap_fixed (listItems (p.get "operatingSystems")) fun _ _ ↦ cleanOs_fixed
  have happs := filterMap_fixed (listItems (p.get "applications")) fun _ _ ↦ cleanApp_fixed
  have hais := filterMap_fixed (listItems (p.get "aiSystems")) fun _ _ ↦ cleanAi_fixed
  rw [sanitizeProfile, hversion, hfacing, hindustry, hcriticality, get_operatingSystems, get_applications,
    get_aiSystems, listItems, listItems, listItems, hoses, happs, hais, sanitizeProfile]

theorem readBack (p : Dict) : decodeProfile (storedProfile p) = some (sanitizeProfile p) :=
  congrArg some (sanitize_idem p)

/-- Saving keeps what a profile means exactly where the profile is plain: the sanitiser drops the exposure fields that
its readers look up, and it makes a text of every item of `aiSystems`. -/
theorem saved_profile_means_the_same_iff (p : Dict) : SameMeaning p ↔ Plain p := by
  constructor
  · intro h
    have hp : p ≠ [] := by
      rintro rfl
      exact classify_empty_ne (h.classify [] none)
    obtain ⟨hoses, happs, hais⟩ := (assets_eq_iff hp).mp h.assets
    obtain ⟨hfacing, hcriticality, hprivileged, hsafety⟩ := flags_eq_iff.mp h.flags
    exact ⟨hp, hfacing, hcriticality, hprivileged, hsafety, hoses, happs, hais⟩
  · intro h
    obtain ⟨oses, hoses⟩ := h.operatingSystems
    obtain ⟨apps, happs⟩ := h.applications
    obtain ⟨ais, hais, hk⟩ := h.aiSystems
    refine ⟨readBack p, ?_, ?_, fun cve ↦ ?_⟩
    · exact flags_eq_iff.mpr ⟨h.internetFacing, h.criticality, h.privilegedService, h.otSafety⟩
    · exact (assets_eq_iff h.nonempty).mpr ⟨⟨oses, hoses⟩, ⟨apps, happs⟩, ais, hais, hk⟩
    · exact classify_congr h.nonempty (sanitize_ne_nil p) (offers_sanitized cve hoses happs hais hk)

end Meaning

section

/-- `str` of what is no string; of a number, a list and a dict only the kind is shown. -/
def showOther : Value → Text
  | .none => "None"
  | .bool true => "True"
  | .bool false => "False"
  | .num _ _ => "0"
  | .str _ => "text"
  | .list _ => "[]"
  | .dict _ => "{}"

local instance profileInterp : Interp := { ascii fun _ ↦ none with strOther := showOther }

theorem strip_showOther (v : Value) : strip (showOther v) ≠ [] := by
  cases v with
  | bool b => cases b <;> (simp only [showOther]; decide)
  | _ =>
    simp only [showOther]
    decide

local instance profileStr : PyStr := ⟨strip_showOther⟩

/-- What the asset wizard sends for an internet-facing stack without assets. -/
def facingProfile : Dict := [("internet_facing", .bool true)]

/-- The profile says that the stack faces the internet; the saved one says nothing of it. -/
theorem saved_profile_loses_exposure : ¬∀ p : Dict, SameMeaning p := by
  intro h
  have hfacing := (flags_eq_iff.mp (h facingProfile).flags).1
  exact absurd hfacing (by decide)

end

end Briefr.Preferences
