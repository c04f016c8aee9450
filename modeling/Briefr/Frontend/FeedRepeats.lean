import Briefr.Frontend.FeedReading

namespace Briefr.Frontend.FeedRepeats

open Briefr.Frontend.FeedQueryParser Briefr.Frontend.FeedReading

abbrev Key [Js] := ChipType × ChipValue

section
variable [Js]

/-- The types and values of the chips. -/
def keys (result : Result) : List Key := result.chips.map fun chip ↦ (chip.type, chip.value)

/-- The chips of flags, vendors and severities are those of the filters. -/
structure Inv (result : Result) : Prop where
  flag : ∀ f, (.flag f, .true) ∈ keys result ↔ result.flag f = true
  vendor : ∀ v, (.vendor, .text v) ∈ keys result ↔ v ∈ result.vendors
  excludeVendor : ∀ v, (.excludeVendor, .text v) ∈ keys result ↔ v ∈ result.excludeVendors
  severity : ∀ sev : Severity, (.severity, .text sev.text) ∈ keys result ↔ sev ∈ result.severities

theorem inv_empty : Inv emptyResult := by
  constructor <;> simp [keys, emptyResult]

theorem keys_addChip (result : Result) (type : ChipType) (label : Text) (value : ChipValue) :
    keys (addChip result type label value) = keys result ++ [(type, value)] := by
  rw [keys, addChip, List.map_append]
  rfl

end

theorem text_injective {a b : Severity} (h : a.text = b.text) : a = b := by
  cases a <;> cases b <;> first | rfl | cases h

section
variable [Js] {result : Result}

theorem Inv.added {result' : Result} {key : Key} (h : Inv result) (hkeys : keys result' = keys result ++ [key])
    (hflag : ∀ f, result'.flag f = true ↔ result.flag f = true ∨ (.flag f, .true) = key)
    (hvendor : ∀ v, v ∈ result'.vendors ↔ v ∈ result.vendors ∨ (.vendor, .text v) = key)
    (hexclude : ∀ v, v ∈ result'.excludeVendors ↔ v ∈ result.excludeVendors ∨ (.excludeVendor, .text v) = key)
    (hseverity : ∀ sev : Severity, sev ∈ result'.severities ↔
      sev ∈ result.severities ∨ (.severity, .text sev.text) = key) : Inv result' := by
  refine ⟨fun f ↦ ?_, fun v ↦ ?_, fun v ↦ ?_, fun sev ↦ ?_⟩
  · rw [hkeys, List.mem_append, List.mem_singleton, h.flag, hflag]
  · rw [hkeys, List.mem_append, List.mem_singleton, h.vendor, hvendor]
  · rw [hkeys, List.mem_append, List.mem_singleton, h.excludeVendor, hexclude]
  · rw [hkeys, List.mem_append, List.mem_singleton, h.severity, hseverity]

theorem inv_addVendor (h : Inv result) (v : Text) : Inv (addVendor result v) := by
  by_cases hv : v ∈ result.vendors
  · rwa [addVendor, if_pos hv]
  · rw [addVendor, if_neg hv]
    refine h.added (keys_addChip _ _ _ _) ?_ ?_ ?_ ?_ <;> simp [addChip]

theorem inv_excludeVendor (h : Inv result) (v : Text) : Inv (excludeVendor result v) := by
  by_cases hv : v ∈ result.excludeVendors
  · rwa [excludeVendor, if_pos hv]
  · rw [excludeVendor, if_neg hv]
    refine h.added (keys_addChip _ _ _ _) ?_ ?_ ?_ ?_ <;> simp [addChip]

theorem inv_addSeverity (h : Inv result) (sev : Severity) : Inv (addSeverity result sev) := by
  by_cases hsev : sev ∈ result.severities
  · rwa [addSeverity, if_pos hsev]
  · rw [addSeverity, if_neg hsev]
    have htext : ∀ other : Severity, other = sev ↔ other.text = sev.text :=
      fun other ↦ ⟨congrArg Severity.text, text_injective⟩
    refine h.added (keys_addChip _ _ _ _) ?_ ?_ ?_ ?_ <;> simp [addChip, htext]

theorem inv_setFlag (h : Inv result) (f : Flag) : Inv (setFlag result f) := by
  refine h.added (keys_addChip _ _ _ _) (fun g ↦ ?_) ?_ ?_ ?_
  · by_cases hg : g = f
    · subst hg
      simp [setFlag, addChip]
    · simp [setFlag, addChip, hg]
  all_goals simp [setFlag, addChip]

/-- The chip of a filter that is set and not collected. -/
def setKey? : Part → Option Key
  | .vendors _ | .severities _ => none
  | .flag f => some (.flag f, .true)
  | .epss n => some (.epssMin, .number n)
  | .technique id => some (.technique, .text id)
  | .date d => some (.publishedOn, .text d)
  | .stack terms => some (.stack, .text terms)
  | .cveId id => some (.cveId, .text id)

/-- The chips that a filter stands for once it is asked for. -/
def partKeys : Part → List Key
  | .vendors vs => vs.map fun v ↦ (.vendor, .text v)
  | .severities sevs => sevs.map fun sev ↦ (.severity, .text sev.text)
  | part => (setKey? part).toList

theorem inv_applyPart (h : Inv result) (part : Part) : Inv (applyPart result part) := by
  cases part with
  | vendors vs =>
    induction vs generalizing result with
    | nil => exact h
    | cons v vs ih => exact ih (inv_addVendor h v)
  | severities sevs =>
    induction sevs generalizing result with
    | nil => exact h
    | cons sev sevs ih => exact ih (inv_addSeverity h sev)
  | flag f => exact inv_setFlag h f
  | epss n => refine h.added (keys_addChip _ _ _ _) ?_ ?_ ?_ ?_ <;> simp [applyPart, setEpss, addChip]
  | technique id => refine h.added (keys_addChip _ _ _ _) ?_ ?_ ?_ ?_ <;> simp [applyPart, setTechnique, addChip]
  | date d => refine h.added (keys_addChip _ _ _ _) ?_ ?_ ?_ ?_ <;> simp [applyPart, setDate, addChip]
  | stack terms => refine h.added (keys_addChip _ _ _ _) ?_ ?_ ?_ ?_ <;> simp [applyPart, addStack, addChip]
  | cveId id => refine h.added (keys_addChip _ _ _ _) ?_ ?_ ?_ ?_ <;> simp [applyPart, setCveId, addChip]

theorem nodup_added {result' : Result} {key : Key} (hkeys : keys result' = keys result ++ [key]) :
    (keys result').Nodup ↔ (keys result).Nodup ∧ key ∉ keys result := by
  rw [hkeys, List.nodup_append]
  constructor
  · rintro ⟨hkeys, -, hne⟩
    exact ⟨hkeys, fun hmem ↦ hne key hmem key (.head _) rfl⟩
  · rintro ⟨hkeys, hnot⟩
    refine ⟨hkeys, List.pairwise_singleton _ _, fun k hk k' hk' heq ↦ hnot ?_⟩
    rw [← List.mem_singleton.mp hk', ← heq]
    exact hk

/-- What a collected filter does to the chips: those that are there stay and stay different. -/
structure Collects (result result' : Result) : Prop where
  subset : keys result ⊆ keys result'
  nodup : (keys result').Nodup ↔ (keys result).Nodup

theorem Collects.refl (result : Result) : Collects result result := ⟨fun _ h ↦ h, Iff.rfl⟩

theorem Collects.trans {a b c : Result} (h : Collects a b) (h' : Collects b c) : Collects a c :=
  ⟨fun _ hk ↦ h'.subset (h.subset hk), h'.nodup.trans h.nodup⟩

theorem Collects.added {result' : Result} {key : Key} (hkeys : keys result' = keys result ++ [key])
    (h : key ∉ keys result) : Collects result result' := by
  refine ⟨?_, (nodup_added hkeys).trans (and_iff_left h)⟩
  rw [hkeys]
  exact List.subset_append_left _ _

theorem addVendor_collects (h : Inv result) (v : Text) : Collects result (addVendor result v) := by
  by_cases hv : v ∈ result.vendors
  · rw [addVendor, if_pos hv]
    exact .refl result
  · rw [addVendor, if_neg hv]
    exact .added (keys_addChip _ _ _ _) (mt (h.vendor v).mp hv)

theorem excludeVendor_collects (h : Inv result) (v : Text) : Collects result (excludeVendor result v) := by
  by_cases hv : v ∈ result.excludeVendors
  · rw [excludeVendor, if_pos hv]
    exact .refl result
  · rw [excludeVendor, if_neg hv]
    exact .added (keys_addChip _ _ _ _) (mt (h.excludeVendor v).mp hv)

theorem addSeverity_collects (h : Inv result) (sev : Severity) : Collects result (addSeverity result sev) := by
  by_cases hsev : sev ∈ result.severities
  · rw [addSeverity, if_pos hsev]
    exact .refl result
  · rw [addSeverity, if_neg hsev]
    exact .added (keys_addChip _ _ _ _) (mt (h.severity sev).mp hsev)

theorem addToken_spec (h : Inv result) (exclude : Bool) (v : Text) :
    Inv (addToken exclude result v) ∧ Collects result (addToken exclude result v) := by
  cases exclude with
  | true => exact ⟨inv_excludeVendor h v, excludeVendor_collects h v⟩
  | false => exact ⟨inv_addVendor h v, addVendor_collects h v⟩

theorem addTokens_spec (h : Inv result) (exclude : Bool) (vs : List Text) :
    Inv (vs.foldl (addToken exclude) result) ∧ Collects result (vs.foldl (addToken exclude) result) := by
  induction vs generalizing result with
  | nil => exact ⟨h, .refl result⟩
  | cons v vs ih =>
    obtain ⟨hinv, hcollects⟩ := addToken_spec h exclude v
    obtain ⟨hinv', hcollects'⟩ := ih hinv
    exact ⟨hinv', hcollects.trans hcollects'⟩

theorem mem_keys_addVendor (v : Text) (h : Inv result) : (.vendor, .text v) ∈ keys (addVendor result v) := by
  refine ((inv_addVendor h v).vendor v).mpr ?_
  rw [addVendor]
  split_ifs with hv
  · exact hv
  · exact List.mem_append_right _ (.head _)

theorem mem_keys_addSeverity (sev : Severity) (h : Inv result) :
    (.severity, .text sev.text) ∈ keys (addSeverity result sev) := by
  refine ((inv_addSeverity h sev).severity sev).mpr ?_
  rw [addSeverity]
  split_ifs with hsev
  · exact hsev
  · exact List.mem_append_right _ (.head _)

/-- What a filter that is asked for does to the chips. -/
structure Asks (part : Part) (result result' : Result) : Prop where
  subset : keys result ⊆ keys result'
  asked : partKeys part ⊆ keys result'
  nodup : (keys result').Nodup ↔ (keys result).Nodup ∧ ∀ key, setKey? part = some key → key ∉ keys result

theorem addVendors_asks (h : Inv result) (vs : List Text) : Asks (.vendors vs) result (vs.foldl addVendor result) := by
  have hcollects : Collects result (vs.foldl addVendor result) ∧ partKeys (.vendors vs) ⊆ keys (vs.foldl addVendor result) := by
    induction vs generalizing result with
    | nil => exact ⟨.refl result, List.nil_subset _⟩
    | cons v vs ih =>
      obtain ⟨hcollects, hasked⟩ := ih (inv_addVendor h v)
      refine ⟨(addVendor_collects h v).trans hcollects, List.cons_subset.mpr ⟨?_, hasked⟩⟩
      exact hcollects.subset (mem_keys_addVendor v h)
  refine ⟨hcollects.1.subset, hcollects.2, hcollects.1.nodup.trans (and_iff_left ?_).symm⟩
  intro key hkey
  cases hkey

theorem addSeverities_asks (h : Inv result) (sevs : List Severity) :
    Asks (.severities sevs) result (sevs.foldl addSeverity result) := by
  have hcollects : Collects result (sevs.foldl addSeverity result) ∧
      partKeys (.severities sevs) ⊆ keys (sevs.foldl addSeverity result) := by
    induction sevs generalizing result with
    | nil => exact ⟨.refl result, List.nil_subset _⟩
    | cons sev sevs ih =>
      obtain ⟨hcollects, hasked⟩ := ih (inv_addSeverity h sev)
      refine ⟨(addSeverity_collects h sev).trans hcollects, List.cons_subset.mpr ⟨?_, hasked⟩⟩
      exact hcollects.subset (mem_keys_addSeverity sev h)
  refine ⟨hcollects.1.subset, hcollects.2, hcollects.1.nodup.trans (and_iff_left ?_).symm⟩
  intro key hkey
  cases hkey

theorem Asks.added {part : Part} {result' : Result} {key : Key} (hkeys : keys result' = keys result ++ [key])
    (hset : setKey? part = some key) (hpart : partKeys part = [key]) : Asks part result result' := by
  refine ⟨?_, ?_, ?_⟩
  · rw [hkeys]
    exact List.subset_append_left _ _
  · rw [hkeys, hpart]
    exact List.subset_append_right _ _
  · rw [nodup_added hkeys, hset]
    refine and_congr_right fun _ ↦ ⟨fun h key hkey ↦ ?_, fun h ↦ h _ rfl⟩
    exact Option.some.inj hkey ▸ h

theorem applyPart_asks (h : Inv result) (part : Part) : Asks part result (applyPart result part) := by
  cases part with
  | vendors vs => exact addVendors_asks h vs
  | severities sevs => exact addSeverities_asks h sevs
  | flag f => exact .added (keys_addChip _ _ _ _) rfl rfl
  | epss n => exact .added (keys_addChip _ _ _ _) rfl rfl
  | technique id => exact .added (keys_addChip _ _ _ _) rfl rfl
  | date d => exact .added (keys_addChip _ _ _ _) rfl rfl
  | stack terms => exact .added (keys_addChip _ _ _ _) rfl rfl
  | cveId id => exact .added (keys_addChip _ _ _ _) rfl rfl

/-- The chip that the turn of a reading adds whatever the state. -/
def readingKey? : Reading → Option Key
  | .part part => setKey? part
  | .nothing | .keyword _ | .group _ | .other => none

/-- The chips that are there once a reading had its turn. -/
def readingKeys : Reading → List Key
  | .part part => partKeys part
  | .keyword f => [(.flag f, .true)]
  | .nothing | .group _ | .other => []

/-- What one turn does to the chips; `key?` is the chip that it adds whatever the state. -/
structure Turn (key? : Option Key) (result result' : Result) : Prop where
  inv : Inv result'
  subset : keys result ⊆ keys result'
  nodup : (keys result').Nodup ↔ (keys result).Nodup ∧ ∀ key, key? = some key → key ∉ keys result

theorem Turn.collects {result' : Result} (hinv : Inv result') (h : Collects result result') : Turn none result result' :=
  ⟨hinv, h.subset, h.nodup.trans (and_iff_left fun _ hkey ↦ by cases hkey).symm⟩

theorem performOther_turn {state : State} (h : Inv state.result) (word : Text) (exclude : Bool) :
    Turn none state.result (performOther state word exclude).result := by
  rw [performOther]
  cases resolveVendorToken word with
  | some v =>
    obtain ⟨hinv, hcollects⟩ := addToken_spec h exclude v
    exact .collects hinv hcollects
  | none => cases exclude <;> exact .collects h (.refl _)

theorem perform_turn (state : State) (h : Inv state.result) (word : Text) (exclude : Bool) (reading : Reading) :
    Turn (readingKey? reading) state.result (perform state word exclude reading).result ∧
      readingKeys reading ⊆ keys (perform state word exclude reading).result := by
  cases reading with
  | nothing => exact ⟨.collects h (.refl _), List.nil_subset _⟩
  | part part =>
    have hasks := applyPart_asks h part
    exact ⟨⟨inv_applyPart h part, hasks.subset, hasks.nodup⟩, hasks.asked⟩
  | group vs =>
    obtain ⟨hinv, hcollects⟩ := addTokens_spec h exclude vs
    exact ⟨.collects hinv hcollects, List.nil_subset _⟩
  | other => exact ⟨performOther_turn h word exclude, List.nil_subset _⟩
  | keyword f =>
    cases hflag : state.result.flag f with
    | true =>
      have hperform : perform state word exclude (.keyword f) = performOther state word exclude := if_pos hflag
      have hturn := performOther_turn h word exclude
      rw [hperform]
      exact ⟨hturn, List.cons_subset.mpr ⟨hturn.subset ((h.flag f).mpr hflag), List.nil_subset _⟩⟩
    | false =>
      have hne : ¬state.result.flag f = true := by rw [hflag]; exact Bool.false_ne_true
      have hperform : (perform state word exclude (.keyword f)).result = setFlag state.result f :=
        congrArg State.result (if_neg hne)
      have hkeys : keys (setFlag state.result f) = keys state.result ++ [(.flag f, .true)] := keys_addChip _ _ _ _
      rw [hperform]
      refine ⟨.collects (inv_setFlag h f) (.added hkeys (mt (h.flag f).mp hne)), ?_⟩
      rw [hkeys]
      exact List.subset_append_right _ _

end

section
variable [Js] {state state' : State} {token : Token} {word : Text}

/-- The chip that a token adds whatever the state. -/
def tokenKey? (token : Token) : Option Key :=
  match token with
  | .quoted value => some (.search, .text value)
  | .text word | .word word => if word = [] ∨ isNot word then none else (readTerm (bare word)).bind readingKey?

theorem tokenKey?_term (h : term? token = some word) : tokenKey? token = (readTerm (bare word)).bind readingKey? := by
  cases token with
  | quoted value => cases h
  | text value | word value =>
    rw [term?] at h
    split_ifs at h with hterm
    obtain rfl := Option.some.inj h
    rw [tokenKey?, if_neg hterm]

theorem tokenKey?_no_term (h : term? token = none) (hquoted : ∀ value, token ≠ .quoted value) :
    tokenKey? token = none := by
  cases token with
  | quoted value => exact absurd rfl (hquoted value)
  | text value | word value =>
    rw [term?] at h
    split_ifs at h with hterm
    rw [tokenKey?, if_pos hterm]

theorem step_turn (hinv : Inv state.result) (h : step state token = some state') :
    Turn (tokenKey? token) state.result state'.result ∧ ∀ word reading, term? token = some word →
      readTerm (bare word) = some reading → readingKeys reading ⊆ keys state'.result := by
  cases hterm : term? token with
  | some word =>
    rw [step_term hterm, stepWord_eq] at h
    obtain ⟨reading, hread, rfl⟩ := Option.map_eq_some_iff.mp h
    obtain ⟨hturn, hkeys⟩ := perform_turn { state with pendingExclude := isDash word && state.pendingExclude } hinv
      (bare word) (isDash word || state.pendingExclude) reading
    rw [tokenKey?_term hterm, hread]
    refine ⟨hturn, fun word' reading' hword' hread' ↦ ?_⟩
    obtain rfl := Option.some.inj hword'
    rw [hread] at hread'
    obtain rfl := Option.some.inj hread'
    exact hkeys
  | none =>
    refine ⟨?_, fun _ _ hword ↦ by cases hword⟩
    by_cases hquoted : ∃ value, token = .quoted value
    · obtain ⟨value, rfl⟩ := hquoted
      obtain rfl := Option.some.inj h
      have hkeys : keys (addChip state.result .search ('"' :: value ++ ['"']) (.text value)) =
          keys state.result ++ [(.search, .text value)] := keys_addChip _ _ _ _
      refine ⟨?_, ?_, ?_⟩
      · refine hinv.added hkeys ?_ ?_ ?_ ?_ <;> simp [addChip]
      · change keys state.result ⊆ keys (addChip _ _ _ _)
        rw [hkeys]
        exact List.subset_append_left _ _
      · refine (nodup_added hkeys).trans (and_congr_right fun _ ↦ ⟨fun hnot key hkey ↦ ?_, fun hall ↦ hall _ rfl⟩)
        exact Option.some.inj hkey ▸ hnot
    · have hne := not_exists.mp hquoted
      rw [tokenKey?_no_term hterm hne, result_of_no_term hterm hne h]
      exact .collects hinv (.refl _)

/-- No token adds a chip that is there already. -/
def Fresh (state : State) : List Token → Prop
  | [] => True
  | token :: rest => (∀ key, tokenKey? token = some key → key ∉ keys state.result) ∧
      ∀ state', step state token = some state' → Fresh state' rest

/-- What a run does to the chips: they are different exactly if each turn adds a new one, and every word that had its
turn has its chips. -/
structure Ran (state : State) (tokens : List Token) (state' : State) : Prop where
  inv : Inv state'.result
  subset : keys state.result ⊆ keys state'.result
  nodup : (keys state'.result).Nodup ↔ (keys state.result).Nodup ∧ Fresh state tokens
  done : ∀ token ∈ tokens, ∀ word reading, term? token = some word → readTerm (bare word) = some reading →
    readingKeys reading ⊆ keys state'.result
  reads : ∀ token ∈ tokens, ∀ word, term? token = some word → (readTerm (bare word)).isSome = true

theorem run_ran {tokens : List Token} (hinv : Inv state.result) (h : run state tokens = some state') :
    Ran state tokens state' := by
  induction tokens generalizing state with
  | nil =>
    obtain rfl := Option.some.inj h
    exact ⟨hinv, fun _ h ↦ h, (and_iff_left trivial).symm, List.forall_mem_nil _, List.forall_mem_nil _⟩
  | cons token rest ih =>
    obtain ⟨middle, hstep, h⟩ := Option.bind_eq_some_iff.mp h
    obtain ⟨hturn, hkeys⟩ := step_turn hinv hstep
    have hran := ih hturn.inv h
    refine ⟨hran.inv, fun _ hk ↦ hran.subset (hturn.subset hk), ?_, ?_, ?_⟩
    · rw [hran.nodup, hturn.nodup, and_assoc, Fresh, hstep]
      refine and_congr_right fun _ ↦ and_congr_right fun _ ↦ ⟨fun hfresh state'' hstate'' ↦ ?_, fun hall ↦ hall _ rfl⟩
      exact Option.some.inj hstate'' ▸ hfresh
    · refine List.forall_mem_cons.mpr ⟨fun word reading hword hread ↦ ?_, hran.done⟩
      exact fun _ hk ↦ hran.subset (hkeys word reading hword hread hk)
    · refine List.forall_mem_cons.mpr ⟨fun word hword ↦ ?_, hran.reads⟩
      rw [step_term hword, stepWord_eq] at hstep
      obtain ⟨reading, hread, -⟩ := Option.map_eq_some_iff.mp hstep
      rw [hread]
      rfl

/-- The filters, vendors, severities and search text of two results are the same. -/
structure SameFilters (a b : Result) : Prop where
  search : b.search = a.search
  vendors : b.vendors = a.vendors
  excludeVendors : b.excludeVendors = a.excludeVendors
  severities : b.severities = a.severities
  flag : b.flag = a.flag
  epssMin : b.epssMin = a.epssMin
  technique : b.technique = a.technique
  publishedOn : b.publishedOn = a.publishedOn
  stack : b.stack = a.stack
  cveId : b.cveId = a.cveId

theorem SameFilters.of_eq {a b : Result} (h : b = a) : SameFilters a b := by
  subst h
  constructor <;> rfl

/-- The vendors that a word is put to. -/
def side (result : Result) (exclude : Bool) : List Text := if exclude then result.excludeVendors else result.vendors

/-- A word that has had its turn changes nothing in another one: it asks for vendors or severities only, or it is a
vendor or a list of vendors that are on this side already, or it is a keyword of a flag and its text is not searched
for. -/
def Settled (state : State) (word : Text) (exclude : Bool) : Reading → Prop
  | .nothing => True
  | .part part => setKey? part = none
  | .group vs => ∀ v ∈ vs, v ∈ side state.result exclude
  | .keyword _ | .other =>
    match resolveVendorToken word with
    | some v => v ∈ side state.result exclude
    | none => exclude = true ∨ state.result.cveId ≠ []

theorem addTokens_eq_self (exclude : Bool) {vs : List Text} (h : ∀ v ∈ vs, v ∈ side result exclude) :
    vs.foldl (addToken exclude) result = result := by
  induction vs with
  | nil => rfl
  | cons v vs ih =>
    obtain ⟨hv, hvs⟩ := List.forall_mem_cons.mp h
    have htoken : addToken exclude result v = result := by
      cases exclude with
      | true => exact if_pos hv
      | false => exact if_pos hv
    rw [List.foldl_cons, htoken, ih hvs]

theorem addToken_side (result : Result) (exclude : Bool) (v : Text) :
    side result exclude ⊆ side (addToken exclude result v) exclude ∧ v ∈ side (addToken exclude result v) exclude := by
  cases exclude with
  | true =>
    change result.excludeVendors ⊆ (excludeVendor result v).excludeVendors ∧ v ∈ (excludeVendor result v).excludeVendors
    rw [excludeVendor]
    split_ifs with hv
    · exact ⟨fun _ h ↦ h, hv⟩
    · exact ⟨List.subset_append_left _ _, List.mem_append_right _ (.head _)⟩
  | false =>
    change result.vendors ⊆ (addVendor result v).vendors ∧ v ∈ (addVendor result v).vendors
    rw [addVendor]
    split_ifs with hv
    · exact ⟨fun _ h ↦ h, hv⟩
    · exact ⟨List.subset_append_left _ _, List.mem_append_right _ (.head _)⟩

theorem addTokens_side (result : Result) (exclude : Bool) (vs : List Text) :
    side result exclude ⊆ side (vs.foldl (addToken exclude) result) exclude ∧
      vs ⊆ side (vs.foldl (addToken exclude) result) exclude := by
  induction vs generalizing result with
  | nil => exact ⟨fun _ h ↦ h, List.nil_subset _⟩
  | cons v vs ih =>
    obtain ⟨hsub, hmem⟩ := ih (addToken exclude result v)
    obtain ⟨hone, hv⟩ := addToken_side result exclude v
    exact ⟨fun _ h ↦ hsub (hone h), List.cons_subset.mpr ⟨hsub hv, hmem⟩⟩

theorem addSeverities_eq_self {sevs : List Severity} (h : ∀ sev ∈ sevs, sev ∈ result.severities) :
    sevs.foldl addSeverity result = result := by
  induction sevs with
  | nil => rfl
  | cons sev sevs ih =>
    obtain ⟨hsev, hsevs⟩ := List.forall_mem_cons.mp h
    have hone : addSeverity result sev = result := if_pos hsev
    rw [List.foldl_cons, hone, ih hsevs]

theorem SameFilters.side {a b : Result} (h : SameFilters a b) (exclude : Bool) :
    FeedRepeats.side b exclude = FeedRepeats.side a exclude := by
  cases exclude with
  | true => exact h.excludeVendors
  | false => exact h.vendors

/-- A filter that is asked for again changes the chips exactly if it is one that is set. -/
theorem applyPart_again (hinv : Inv result) {part : Part} (hkeys : partKeys part ⊆ keys result)
    (h : setKey? part = none) : applyPart result part = result := by
  cases part with
  | vendors vs =>
    refine addTokens_eq_self false fun v hv ↦ (hinv.vendor v).mp (hkeys ?_)
    exact List.mem_map_of_mem hv
  | severities sevs =>
    refine addSeverities_eq_self fun sev hsev ↦ (hinv.severity sev).mp (hkeys ?_)
    exact List.mem_map_of_mem (f := fun sev : Severity ↦ ((.severity, .text sev.text) : Key)) hsev
  | flag | epss | technique | date | stack | cveId => cases h

end

theorem bare_ne_nil {word : Text} (h : word ≠ []) : bare word ≠ [] := by
  rw [bare]
  split_ifs with hdash
  · have hlength : 1 < word.length := of_decide_eq_true (Bool.and_eq_true_iff.mp hdash).2
    exact List.ne_nil_of_length_pos (by rw [List.length_drop]; omega)
  · exact h

theorem length_intercalate_concat (texts : List Text) (word : Text) :
    ([' '].intercalate texts).length + word.length ≤ ([' '].intercalate (texts ++ [word])).length := by
  induction texts with
  | nil => simp
  | cons text texts ih =>
    cases texts with
    | nil => simp
    | cons text' texts =>
      simp only [List.cons_append, List.intercalate_cons_cons, List.length_append] at ih ⊢
      omega

section
variable [Js] {state : State} {word : Text} {exclude : Bool}

theorem addTokens_again (hinv : Inv state.result) (exclude : Bool) (vs : List Text) (state' : State)
    (hresult : state'.result = vs.foldl (addToken exclude) state.result) (hfree : state'.freeText = state.freeText) :
    SameFilters (finish state) (finish state') ∧ (keys state'.result).Nodup ↔
      (keys state.result).Nodup ∧ ∀ v ∈ vs, v ∈ side state.result exclude := by
  constructor
  · rintro ⟨hsame, hnodup⟩
    obtain ⟨-, hcollects⟩ := addTokens_spec hinv exclude vs
    refine ⟨hcollects.nodup.mp (hresult ▸ hnodup), fun v hv ↦ ?_⟩
    have hside : side state'.result exclude = side state.result exclude := hsame.side exclude
    rw [← hside, hresult]
    exact (addTokens_side state.result exclude vs).2 hv
  · rintro ⟨hnodup, hvs⟩
    rw [addTokens_eq_self exclude hvs] at hresult
    rw [hresult]
    refine ⟨.of_eq ?_, hnodup⟩
    rw [finish, finish, hresult, hfree]

/-- A word that no recogniser handles is harmless a second time exactly if it is a vendor on this side, or if it is not
searched for. -/
theorem performOther_again (hinv : Inv state.result) (hword : word ≠ []) {state₁ : State}
    (hresult : state₁.result = state.result) (hfree : state₁.freeText = state.freeText) :
    SameFilters (finish state) (finish (performOther state₁ word exclude)) ∧
        (keys (performOther state₁ word exclude).result).Nodup ↔
      (keys state.result).Nodup ∧ Settled state word exclude .other := by
  rw [performOther, Settled]
  cases resolveVendorToken word with
  | some v =>
    have hagain := addTokens_again hinv exclude [v] { state₁ with result := addToken exclude state₁.result v }
      (congrArg (addToken exclude · v) hresult) hfree
    rwa [List.forall_mem_singleton] at hagain
  | none =>
    cases exclude with
    | true =>
      have hsame : SameFilters (finish state) (finish state₁) := .of_eq (by rw [finish, finish, hresult, hfree])
      refine ⟨fun h ↦ ⟨hresult ▸ h.2, .inl rfl⟩, fun h ↦ ⟨hsame, ?_⟩⟩
      change (keys state₁.result).Nodup
      exact hresult ▸ h.1
    | false =>
      have hlength := length_intercalate_concat state.freeText word
      have hpos : 0 < word.length := List.length_pos_of_ne_nil hword
      have hfinish : finish { state₁ with freeText := state₁.freeText ++ [word] } =
          { state.result with
            search := if state.result.cveId = [] then [' '].intercalate (state.freeText ++ [word])
              else state.result.cveId } := by
        rw [finish, hresult, hfree]
      change SameFilters (finish state) (finish { state₁ with freeText := state₁.freeText ++ [word] }) ∧
        (keys state₁.result).Nodup ↔ _
      rw [hfinish, hresult]
      constructor
      · rintro ⟨hsame, hnodup⟩
        refine ⟨hnodup, .inr fun hcve ↦ ?_⟩
        have hsearch := hsame.search
        simp only [finish, hcve, if_true] at hsearch
        have hsearch := congrArg List.length hsearch
        omega
      · rintro ⟨hnodup, h⟩
        have hcve : state.result.cveId ≠ [] := h.resolve_left Bool.false_ne_true
        refine ⟨.of_eq ?_, hnodup⟩
        rw [finish, if_neg hcve, if_neg hcve]

/-- When the second turn of a word is harmless. -/
theorem perform_again (hinv : Inv state.result) (hword : word ≠ []) {reading : Reading}
    (hkeys : readingKeys reading ⊆ keys state.result) (exclude : Bool) (state₁ : State) (hresult : state₁.result = state.result)
    (hfree : state₁.freeText = state.freeText) :
    SameFilters (finish state) (finish (perform state₁ word exclude reading)) ∧
        (keys (perform state₁ word exclude reading).result).Nodup ↔
      (keys state.result).Nodup ∧ Settled state word exclude reading := by
  have hsame : SameFilters (finish state) (finish state₁) := .of_eq (by rw [finish, finish, hresult, hfree])
  cases reading with
  | nothing =>
    change SameFilters (finish state) (finish state₁) ∧ (keys state₁.result).Nodup ↔ (keys state.result).Nodup ∧ True
    rw [hresult]
    exact ⟨fun h ↦ ⟨h.2, trivial⟩, fun h ↦ ⟨hsame, h.1⟩⟩
  | group vs => exact addTokens_again hinv exclude vs _ (congrArg (fun r ↦ vs.foldl (addToken exclude) r) hresult) hfree
  | other => exact performOther_again hinv hword hresult hfree
  | keyword f =>
    have hflag : state.result.flag f = true := (hinv.flag f).mp (hkeys (.head _))
    have hperform : perform state₁ word exclude (.keyword f) = performOther state₁ word exclude := by
      rw [perform, hresult, if_pos hflag]
    rw [hperform]
    exact performOther_again hinv hword hresult hfree
  | part part =>
    have hasks := applyPart_asks hinv part
    change SameFilters (finish state) (finish { state₁ with result := applyPart state₁.result part }) ∧
        (keys (applyPart state₁.result part)).Nodup ↔ (keys state.result).Nodup ∧ setKey? part = none
    rw [hresult]
    constructor
    · rintro ⟨-, hnodup⟩
      obtain ⟨hnodup, hnew⟩ := hasks.nodup.mp hnodup
      refine ⟨hnodup, Option.eq_none_iff_forall_ne_some.mpr fun key hkey ↦ hnew key hkey (hkeys ?_)⟩
      cases part with
      | vendors | severities => cases hkey
      | flag | epss | technique | date | stack | cveId =>
        obtain rfl := Option.some.inj hkey
        exact .head _
    · rintro ⟨hnodup, hset⟩
      have hself := applyPart_again hinv hkeys hset
      rw [hself]
      refine ⟨.of_eq ?_, hnodup⟩
      rw [finish, finish, hfree]

theorem run_append (tokens rest : List Token) (state : State) :
    run state (tokens ++ rest) = (run state tokens).bind fun state ↦ run state rest := by
  induction tokens generalizing state with
  | nil => rfl
  | cons token tokens ih =>
    change ((step state token).bind fun state ↦ run state (tokens ++ rest)) =
      ((step state token).bind fun state ↦ run state tokens).bind fun state ↦ run state rest
    rw [Option.bind_assoc]
    exact congrArg ((step state token).bind ·) (funext ih)

/-- A word that is read as something else than free text. -/
def Structured (word : Text) : Prop :=
  ¬isNot word = true ∧ ∃ reading, readTerm (bare word) = some reading ∧
    (reading = .other → (resolveVendorToken (bare word)).isSome = true)

/-- A word of a query is appended to it and stays a word of its own there; no phrase pattern matches either text. -/
structure Repeats (query word : Text) : Prop where
  occurs : .word word ∈ tokenize (rawQuery query)
  structured : Structured word
  seam : tokenize (rawQuery (query ++ ' ' :: word)) = tokenize (rawQuery query) ++ [.word word]
  phrase : phraseVendors (rawQuery query) = none
  phraseTwice : phraseVendors (rawQuery (query ++ ' ' :: word)) = none

def Harmless (query word : Text) : Prop :=
  ∀ once twice, parseFeedQuery query = some once → parseFeedQuery (query ++ ' ' :: word) = some twice →
    SameFilters once twice ∧ (keys twice).Nodup

/-- No token of the query adds a chip that is there already, and a second turn of the word changes nothing. -/
def Clean (query word : Text) : Prop :=
  ∀ state reading, run initial (tokenize (rawQuery query)) = some state → readTerm (bare word) = some reading →
    Fresh initial (tokenize (rawQuery query)) ∧
      Settled state (bare word) (isDash word || state.pendingExclude) reading

theorem parse_of_token {query : Text} (token : Token) (h : token ∈ tokenize (rawQuery query))
    (hphrase : phraseVendors (rawQuery query) = none) :
    parseFeedQuery query = (run initial (tokenize (rawQuery query))).map finish := by
  rw [parseFeedQuery, hphrase]
  refine if_neg fun hnil ↦ ?_
  rw [hnil] at h
  cases h

theorem word_ne_nil {word text : Text} {mode : Mode} (h : .word word ∈ scan mode text)
    (hmode : mode ≠ .word []) : word ≠ [] := by
  induction text generalizing mode with
  | nil =>
    cases mode with
    | gap => cases h
    | quoted value =>
      rw [scan, List.mem_singleton] at h
      cases h
    | word value =>
      rw [scan, List.mem_singleton] at h
      cases h
      exact fun hnil ↦ hmode (congrArg Mode.word hnil)
  | cons c rest ih =>
    cases mode with
    | gap =>
      rw [scan] at h
      split_ifs at h
      · exact ih h fun heq ↦ by cases heq
      · exact ih h fun heq ↦ by cases heq
      · exact ih h fun heq ↦ by cases heq
    | quoted value =>
      rw [scan] at h
      split_ifs at h
      · obtain heq | h := List.mem_cons.mp h
        · cases heq
        · exact ih h fun heq ↦ by cases heq
      · exact ih h fun heq ↦ by cases heq
    | word value =>
      rw [scan] at h
      split_ifs at h
      · obtain heq | h := List.mem_cons.mp h
        · cases heq
          exact fun hnil ↦ hmode (congrArg Mode.word hnil)
        · exact ih h fun heq ↦ by cases heq
      · exact ih h fun heq ↦ List.append_ne_nil_of_right_ne_nil value (List.cons_ne_nil c []) (Mode.word.inj heq)

end

section
local instance repeatsJs : Js := asciiJs

end

end Briefr.Frontend.FeedRepeats
