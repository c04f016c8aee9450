import Briefr.Feeds.CveRecordV5

namespace Briefr.Feeds.Cvelistv5

open Briefr.Python Briefr.Feeds.CveRecordV5

/-- How one request to GitHub ends. -/
inductive Reply
  | circuitOpen
  | httpError
  | malformed
  | json (data : Value)

/-- GitHub during one call: its answer to each request, and the order in which the concurrent
record requests finish. -/
structure Api where
  head : Reply
  bootstrap : Reply
  compare : Text → Text → Reply
  record : Text → Reply
  finish : List Text → List Text
  finish_perm : ∀ paths, (finish paths).Perm paths

/-- The request gave no JSON. -/
def Reply.Failed : Reply → Prop
  | .json _ => False
  | _ => True

/-- A string that is not empty. -/
def shaOf : Value → Option Text
  | .str [] => none
  | .str s => some s
  | _ => none

def fetchHeadSha : Reply → Py (Option Text)
  | .circuitOpen | .httpError => .ok none
  | .malformed => .error .valueError
  | .json data => shaOf <$> data.get "sha"

def fetchBootstrapBaseSha : Reply → Py (Option Text)
  | .circuitOpen | .httpError => .ok none
  | .malformed => .error .valueError
  | .json (.list commits) =>
    match commits.getLast? with
    | some (.dict oldest) => .ok (shaOf (Dict.get oldest "sha"))
    | _ => .ok none
  | .json _ => .ok none

def textIs (v : Value) (s : Text) : Bool :=
  match v with
  | .str t => decide (t = s)
  | _ => false

section
variable [Interp]

def isCvePath (path : Text) : Bool :=
  decide (("cves/" : String).toList <+: path) && decide ((".json" : String).toList <:+ path) &&
    (cveIdFromRepoPath path).isSome

/-- The path of a listed file that `_filter_cve_paths` looks at. -/
def filePath (item : Value) : Py (Option Text) :=
  match item with
  | .dict d =>
    if textIs (Dict.get d "status") "removed" then .ok none
    else do
      let path ← (Dict.get d "filename").orText
      return if isCvePath path then some path else none
  | _ => .ok none

def addPath (paths : List Text) : Option Text → List Text
  | none => paths
  | some path => if path ∈ paths then paths else paths ++ [path]

def filterCvePaths (files : List Value) : Py (List Text) :=
  files.foldlM (fun paths item ↦ do return addPath paths (← filePath item)) []

/-- `files = data.get("files") or []`, of which `len` is taken; only a list has `dict` elements. -/
def comparedFiles : Value → Py (List Value)
  | .list l => .ok l
  | .bool true | .num _ false => .error .typeError
  | _ => .ok []

def compareCommits : Reply → Py (List Text)
  | .circuitOpen | .httpError => .ok []
  | .malformed => .error .valueError
  | .json data => do
    let status ← data.get "status"
    if textIs status "identical" then return []
    let files ← comparedFiles (← data.get "files")
    filterCvePaths files

variable {Score : Type} [Floats Score]

/-- What one record request contributes. -/
inductive Fetched (Score : Type)
  | nothing
  | record (r : Record Score)
  | rejected (cveId : Text)

def fetchRecord : Reply → Py (Fetched Score)
  | .json (.dict record) =>
    match isCveRecordRejected record with
    | some cveId => .ok (.rejected cveId)
    | none => do
      match ← parseCvelistv5Record record with
      | some r => return .record r
      | none => return .nothing
  | _ => .ok .nothing

def Fetched.record? : Fetched Score → Option (Record Score)
  | .record r => some r
  | _ => none

def Fetched.rejected? : Fetched Score → Option Text
  | .rejected cveId => some cveId
  | _ => none

/-- What a call returns, and the record requests it made on the way. -/
structure Delta (Score : Type) where
  requested : List Text
  records : List (Record Score)
  rejectedIds : List Text
  newHeadSha : Option Text
  watermarkAdvanced : Bool

/-- The base of the comparison; an empty watermark counts as none. -/
def baseSha (api : Api) : Option Text → Py (Option Text)
  | some (c :: s) => .ok (some (c :: s))
  | _ => fetchBootstrapBaseSha api.bootstrap

def fetchChanged (api : Api) (headSha : Text) (paths : List Text) : Py (Delta Score) := do
  let fetched ← (api.finish paths).mapM fun path ↦ fetchRecord (api.record path)
  return ⟨paths, fetched.filterMap Fetched.record?, fetched.filterMap Fetched.rejected?, some headSha, true⟩

def fetchCvelistv5Delta (api : Api) (watermarkSha : Option Text) : Py (Delta Score) := do
  match ← fetchHeadSha api.head with
  | none => return ⟨[], [], [], watermarkSha, false⟩
  | some headSha =>
    if watermarkSha = some headSha then return ⟨[], [], [], some headSha, true⟩
    match ← baseSha api watermarkSha with
    | none => return ⟨[], [], [], some headSha, true⟩
    | some base =>
      let changedPaths ← compareCommits (api.compare base headSha)
      if changedPaths = [] then return ⟨[], [], [], some headSha, true⟩
      fetchChanged api headSha changedPaths

/-- A file that differs between two commits. -/
structure ChangedFile where
  path : Text
  removed : Bool

/-- The record of the path was read, and the delta carries what it says. -/
def Reflected (api : Api) (delta : Delta Score) (path : Text) : Prop :=
  path ∈ delta.requested ∧ ∃ record, api.record path = .json (.dict record) ∧
    match isCveRecordRejected record with
    | some cveId => cveId ∈ delta.rejectedIds
    | none => ∃ parsed, parseCvelistv5Record record = .ok parsed ∧ ∀ r, parsed = some r → r ∈ delta.records

/-- Whenever the watermark advances to a head commit, no request failed and every CVE file that
changed since the base is reflected in the delta. There is nothing to reflect when the base is
the head, and no base when GitHub reports that the branch has no recent commit. -/
def DeltaSound (Score : Type) [Floats Score] (api : Api) (diff : Text → Text → List ChangedFile)
    (watermarkSha : Option Text) : Prop :=
  ∀ delta : Delta Score, fetchCvelistv5Delta api watermarkSha = .ok delta → delta.watermarkAdvanced = true →
    ∃ head, fetchHeadSha api.head = .ok (some head) ∧ delta.newHeadSha = some head ∧
      (watermarkSha = some head ∨
        (baseSha api watermarkSha = .ok none ∧ api.bootstrap = .json (.list [])) ∨
        ∃ base, baseSha api watermarkSha = .ok (some base) ∧ ¬(api.compare base head).Failed ∧
          (∀ path ∈ delta.requested, ¬(api.record path).Failed) ∧
          ∀ file ∈ diff base head, file.removed = false → isCvePath file.path = true →
            Reflected api delta file.path)

/-- The comparison lists the path as a file that is still there. -/
def Reply.Lists (reply : Reply) (path : Text) : Prop :=
  ∃ d files item, reply = .json (.dict d) ∧ textIs (Dict.get d "status") "identical" = false ∧
    Dict.get d "files" = .list files ∧ .dict item ∈ files ∧ textIs (Dict.get item "status") "removed" = false ∧
    Dict.get item "filename" = .str path

theorem orText_cvePath {v : Value} {path : Text} (hc : isCvePath path = true) :
    v.orText = .ok path ↔ v = .str path := by
  constructor
  · intro h
    unfold Value.orText at h
    split at h
    · cases v with
      | str s => exact congrArg _ (Except.ok.inj h)
      | _ => cases h
    · obtain rfl := Except.ok.inj h
      simp [isCvePath] at hc
  · rintro rfl
    exact Value.orText_str path

theorem filePath_eq_some {item : Value} {path : Text} :
    filePath item = .ok (some path) ↔ isCvePath path = true ∧ ∃ d, item = .dict d ∧
      textIs (Dict.get d "status") "removed" = false ∧ Dict.get d "filename" = .str path := by
  cases item with
  | dict d =>
    rw [filePath]
    cases hr : textIs (Dict.get d "status") "removed" with
    | true =>
      simp only [if_true, Except.ok.injEq, reduceCtorEq, false_iff, Value.dict.injEq]
      rintro ⟨-, d', rfl, hr', -⟩
      rw [hr] at hr'
      cases hr'
    | false =>
      simp only [Bool.false_eq_true, if_false, bind_eq_ok, pure_eq_ok, Except.ok.injEq, Value.dict.injEq]
      constructor
      · intro ⟨p, hp, he⟩
        split at he
        · rename_i hc
          cases he
          exact ⟨hc, d, rfl, hr, (orText_cvePath hc).mp hp⟩
        · cases he
      · rintro ⟨hc, d', rfl, -, hf⟩
        exact ⟨path, (orText_cvePath hc).mpr hf, if_pos hc⟩
  | _ => simp [filePath]

omit [Interp] in
theorem mem_addPath {paths : List Text} {found : Option Text} {path : Text} :
    path ∈ addPath paths found ↔ path ∈ paths ∨ found = some path := by
  cases found with
  | none => simp [addPath]
  | some p =>
    by_cases hp : p ∈ paths
    · rw [addPath, if_pos hp, Option.some.injEq]
      exact ⟨.inl, fun h ↦ h.elim id fun he ↦ he ▸ hp⟩
    · rw [addPath, if_neg hp]
      simp [eq_comm]

theorem mem_filterCvePaths {files : List Value} {paths : List Text} (h : filterCvePaths files = .ok paths)
    {path : Text} : path ∈ paths ↔ ∃ item ∈ files, filePath item = .ok (some path) := by
  suffices ∀ acc, files.foldlM (fun paths item ↦ do return addPath paths (← filePath item)) acc = .ok paths →
      (path ∈ paths ↔ path ∈ acc ∨ ∃ item ∈ files, filePath item = .ok (some path)) by
    simpa using this [] h
  clear h
  induction files with
  | nil =>
    intro acc h
    have he : acc = paths := by simpa using h
    simp [he]
  | cons item files ih =>
    intro acc h
    simp only [List.foldlM_cons, bind_eq_ok, pure_eq_ok, Except.ok.injEq] at h
    obtain ⟨acc', ⟨found, hf, rfl⟩, hrest⟩ := h
    rw [ih _ hrest, mem_addPath, List.exists_mem_cons_iff, hf, Except.ok.injEq, or_assoc]

omit [Interp] in
theorem mem_comparedFiles {v : Value} {files : List Value} (h : comparedFiles v = .ok files) {item : Value} :
    item ∈ files ↔ ∃ l, v = .list l ∧ item ∈ l := by
  unfold comparedFiles at h
  split at h
  · cases h
    simp
  · cases h
  · cases h
  · rename_i hl _ _
    cases h
    simp only [List.not_mem_nil, false_iff]
    rintro ⟨l, rfl, -⟩
    exact hl l rfl

theorem mem_compareCommits {reply : Reply} {paths : List Text} (h : compareCommits reply = .ok paths) {path : Text} :
    path ∈ paths ↔ isCvePath path = true ∧ reply.Lists path := by
  cases reply with
  | circuitOpen =>
    cases h
    simp [Reply.Lists]
  | httpError =>
    cases h
    simp [Reply.Lists]
  | malformed => cases h
  | json data =>
    simp only [compareCommits, bind_eq_ok] at h
    obtain ⟨status, hs, h⟩ := h
    cases data with
    | dict d =>
      obtain rfl : Dict.get d "status" = status := Except.ok.inj hs
      cases hi : textIs (Dict.get d "status") "identical" with
      | true =>
        rw [hi] at h
        cases h
        simp only [List.not_mem_nil, false_iff, not_and]
        intro _ ⟨d', files, item, hd, hn, _⟩
        cases hd
        rw [hi] at hn
        cases hn
      | false =>
        simp only [hi, Bool.false_eq_true, if_false, bind_eq_ok] at h
        obtain ⟨v, hv, files, hf, h⟩ := h
        obtain rfl : Dict.get d "files" = v := Except.ok.inj hv
        rw [mem_filterCvePaths h]
        constructor
        · intro ⟨item, hm, hp⟩
          obtain ⟨hc, i, rfl, hr, hn⟩ := filePath_eq_some.mp hp
          obtain ⟨l, hl, hm⟩ := (mem_comparedFiles hf).mp hm
          exact ⟨hc, d, l, i, rfl, hi, hl, hm, hr, hn⟩
        · intro ⟨hc, d', l, i, hd, _, hl, hm, hr, hn⟩
          cases hd
          exact ⟨.dict i, (mem_comparedFiles hf).mpr ⟨l, hl, hm⟩, filePath_eq_some.mpr ⟨hc, i, rfl, hr, hn⟩⟩
    | _ => cases hs

/-- GitHub's answers let the call read every change: it learns no head, has nothing to compare,
ends with an exception, or gets a comparison that lists every changed CVE file, JSON for every
listed one and an object for each changed one. -/
def Delivers (Score : Type) [Floats Score] (api : Api) (diff : Text → Text → List ChangedFile)
    (watermarkSha : Option Text) : Prop :=
  ∀ head, fetchHeadSha api.head = .ok (some head) → watermarkSha ≠ some head →
    (baseSha api watermarkSha = .ok none → api.bootstrap = .json (.list [])) ∧
    ∀ base, baseSha api watermarkSha = .ok (some base) → ∀ paths,
      compareCommits (api.compare base head) = .ok paths →
      (∃ path ∈ paths, ∃ e, fetchRecord (api.record path) = (.error e : Py (Fetched Score))) ∨
      ¬(api.compare base head).Failed ∧
        (∀ path, isCvePath path = true → (api.compare base head).Lists path → ¬(api.record path).Failed) ∧
        ∀ file ∈ diff base head, file.removed = false → isCvePath file.path = true →
          (api.compare base head).Lists file.path ∧ ∃ record, api.record file.path = .json (.dict record)

theorem reflected_iff {api : Api} {head : Text} {paths : List Text} {delta : Delta Score}
    (h : fetchChanged api head paths = .ok delta) {path : Text} :
    Reflected api delta path ↔ path ∈ paths ∧ ∃ record, api.record path = .json (.dict record) := by
  simp only [fetchChanged, bind_eq_ok, pure_eq_ok, Except.ok.injEq] at h
  obtain ⟨fetched, hf, rfl⟩ := h
  refine ⟨fun ⟨hp, record, hr, _⟩ ↦ ⟨hp, record, hr⟩, fun ⟨hp, record, hr⟩ ↦ ⟨hp, record, hr, ?_⟩⟩
  obtain ⟨y, hy, hfy⟩ := mem_of_mapM hf ((api.finish_perm paths).mem_iff.mpr hp)
  rw [hr] at hfy
  simp only [fetchRecord] at hfy
  split at hfy
  · rename_i cveId hrej
    cases hfy
    exact List.mem_filterMap.mpr ⟨_, hy, rfl⟩
  · obtain ⟨parsed, hparse, hfy⟩ := bind_eq_ok.mp hfy
    refine ⟨parsed, hparse, ?_⟩
    rintro r rfl
    cases hfy
    exact List.mem_filterMap.mpr ⟨_, hy, rfl⟩

theorem fetchChanged_defined {api : Api} {head : Text} {paths : List Text} :
    (∃ delta : Delta Score, fetchChanged api head paths = .ok delta) ↔
      ¬∃ path ∈ paths, ∃ e, fetchRecord (api.record path) = (.error e : Py (Fetched Score)) := by
  constructor
  · intro ⟨delta, h⟩ ⟨path, hp, e, he⟩
    simp only [fetchChanged, bind_eq_ok] at h
    obtain ⟨fetched, hf, -⟩ := h
    obtain ⟨y, -, hy⟩ := mem_of_mapM hf ((api.finish_perm paths).mem_iff.mpr hp)
    rw [he] at hy
    cases hy
  · intro h
    have hd : ∀ path ∈ api.finish paths, ∃ y : Fetched Score, fetchRecord (api.record path) = .ok y := by
      intro path hp
      by_contra hn
      exact h ⟨path, (api.finish_perm paths).mem_iff.mp hp, error_of_not_ok hn⟩
    obtain ⟨fetched, hf⟩ := mapM_defined hd
    exact ⟨_, by rw [fetchChanged, hf]; rfl⟩

theorem fetchChanged_nil (api : Api) (head : Text) :
    fetchChanged api head [] = (.ok ⟨[], [], [], some head, true⟩ : Py (Delta Score)) := by
  have hf : api.finish [] = [] := (api.finish_perm []).eq_nil
  rw [fetchChanged, hf]
  rfl

theorem fetchChanged_flags {api : Api} {head : Text} {paths : List Text} {delta : Delta Score}
    (h : fetchChanged api head paths = .ok delta) :
    delta.requested = paths ∧ delta.newHeadSha = some head ∧ delta.watermarkAdvanced = true := by
  simp only [fetchChanged, bind_eq_ok, pure_eq_ok, Except.ok.injEq] at h
  obtain ⟨fetched, -, rfl⟩ := h
  exact ⟨rfl, rfl, rfl⟩

theorem fetch_eq {api : Api} {watermarkSha : Option Text} {head base : Text} {paths : List Text}
    (hh : fetchHeadSha api.head = .ok (some head)) (hw : watermarkSha ≠ some head)
    (hb : baseSha api watermarkSha = .ok (some base)) (hc : compareCommits (api.compare base head) = .ok paths) :
    fetchCvelistv5Delta api watermarkSha = (fetchChanged api head paths : Py (Delta Score)) := by
  rw [fetchCvelistv5Delta, hh, ok_bind]
  simp only [hw, if_false, hb, ok_bind, hc]
  split
  · rename_i hp
    rw [hp, fetchChanged_nil]
    rfl
  · rfl

theorem fetch_no_base {api : Api} {watermarkSha : Option Text} {head : Text}
    (hh : fetchHeadSha api.head = .ok (some head)) (hw : watermarkSha ≠ some head)
    (hb : baseSha api watermarkSha = .ok none) :
    fetchCvelistv5Delta api watermarkSha = (.ok ⟨[], [], [], some head, true⟩ : Py (Delta Score)) := by
  rw [fetchCvelistv5Delta, hh, ok_bind]
  simp only [hw, if_false, hb, ok_bind]
  rfl

/-- Every way in which a call can return with the watermark advanced. -/
theorem fetch_cases {api : Api} {watermarkSha : Option Text} {delta : Delta Score}
    (h : fetchCvelistv5Delta api watermarkSha = .ok delta) (ha : delta.watermarkAdvanced = true) :
    ∃ head, fetchHeadSha api.head = .ok (some head) ∧
      ((watermarkSha = some head ∧ delta.newHeadSha = some head) ∨
        (watermarkSha ≠ some head ∧ baseSha api watermarkSha = .ok none ∧ delta.newHeadSha = some head) ∨
        ∃ base paths, watermarkSha ≠ some head ∧ baseSha api watermarkSha = .ok (some base) ∧
          compareCommits (api.compare base head) = .ok paths ∧ fetchChanged api head paths = .ok delta) := by
  have h' := h
  simp only [fetchCvelistv5Delta, bind_eq_ok] at h
  obtain ⟨found, hh, h⟩ := h
  cases found with
  | none =>
    cases h
    cases ha
  | some head =>
    refine ⟨head, hh, ?_⟩
    by_cases hw : watermarkSha = some head
    · simp only [hw, if_true] at h
      cases h
      exact .inl ⟨hw, rfl⟩
    · simp only [hw, if_false, bind_eq_ok] at h
      obtain ⟨found, hb, h⟩ := h
      cases found with
      | none =>
        cases h
        exact .inr (.inl ⟨hw, hb, rfl⟩)
      | some base =>
        obtain ⟨paths, hc, -⟩ := bind_eq_ok.mp h
        exact .inr (.inr ⟨base, paths, hw, hb, hc, (fetch_eq hh hw hb hc).symm.trans h'⟩)

/-- The flag can be trusted exactly when no failure is read as an empty result. -/
theorem delta_sound_iff (api : Api) (diff : Text → Text → List ChangedFile) (watermarkSha : Option Text) :
    DeltaSound Score api diff watermarkSha ↔ Delivers Score api diff watermarkSha := by
  constructor
  · intro h head hh hw
    refine ⟨fun hb ↦ ?_, fun base hb paths hc ↦ ?_⟩
    · obtain ⟨head', hh', -, hw' | ⟨-, hboot⟩ | ⟨base, hb', -⟩⟩ := h _ (fetch_no_base hh hw hb) rfl
      · obtain rfl : head = head' := Option.some.inj (Except.ok.inj (hh.symm.trans hh'))
        exact (hw hw').elim
      · exact hboot
      · cases hb.symm.trans hb'
    · by_cases hr : ∃ path ∈ paths, ∃ e, fetchRecord (api.record path) = (.error e : Py (Fetched Score))
      · exact .inl hr
      obtain ⟨delta, hd⟩ := fetchChanged_defined.mpr hr
      obtain ⟨hreq, -, hadv⟩ := fetchChanged_flags hd
      obtain ⟨head', hh', -, hw' | ⟨hb', -⟩ | ⟨base', hb', hcf, hrf, hall⟩⟩ :=
        h delta ((fetch_eq hh hw hb hc).trans hd) hadv
      all_goals obtain rfl : head = head' := Option.some.inj (Except.ok.inj (hh.symm.trans hh'))
      · exact (hw hw').elim
      · cases hb.symm.trans hb'
      · obtain rfl : base = base' := Option.some.inj (Except.ok.inj (hb.symm.trans hb'))
        refine .inr ⟨hcf, fun path hpath hl ↦ ?_, fun file hfile hrem hpath ↦ ?_⟩
        · exact hrf path (hreq ▸ (mem_compareCommits hc).mpr ⟨hpath, hl⟩)
        obtain ⟨hp, hrec⟩ := (reflected_iff hd).mp (hall file hfile hrem hpath)
        exact ⟨((mem_compareCommits hc).mp hp).2, hrec⟩
  · intro h delta hf ha
    obtain ⟨head, hh, ⟨hw, hn⟩ | ⟨hw, hb, hn⟩ | ⟨base, paths, hw, hb, hc, hd⟩⟩ := fetch_cases hf ha
    · exact ⟨head, hh, hn, .inl hw⟩
    · exact ⟨head, hh, hn, .inr (.inl ⟨hb, (h head hh hw).1 hb⟩)⟩
    · have hok := fetchChanged_defined.mp ⟨delta, hd⟩
      obtain ⟨hreq, hn, -⟩ := fetchChanged_flags hd
      obtain ⟨hcf, hrf, hall⟩ := ((h head hh hw).2 base hb paths hc).resolve_left hok
      refine ⟨head, hh, hn, .inr (.inr ⟨base, hb, hcf, fun path hp ↦ ?_, fun file hfile hrem hpath ↦ ?_⟩)⟩
      · obtain ⟨hpath, hl⟩ := (mem_compareCommits hc).mp (hreq ▸ hp)
        exact hrf path hpath hl
      · obtain ⟨hl, hrec⟩ := hall file hfile hrem hpath
        exact (reflected_iff hd).mpr ⟨(mem_compareCommits hc).mpr ⟨hpath, hl⟩, hrec⟩

end

section
local instance : Interp := ascii fun _ ↦ none

local instance : Floats ℕ where
  float _ := .valueError
  float_str := FloatCall.valueError_ne

/-- The head is known and the comparison runs into an open circuit. -/
def openCircuit : Api where
  head := .json (.dict [("sha", .str "bbb")])
  bootstrap := .circuitOpen
  compare _ _ := .circuitOpen
  record _ := .circuitOpen
  finish paths := paths
  finish_perm paths := .refl paths

def oneChange (_ _ : Text) : List ChangedFile := [⟨"cves/2024/0xxx/CVE-2024-0001.json", false⟩]

/-- A failed comparison counts as no changes: the watermark moves past a file that was never read. -/
theorem advances_on_open_circuit :
    fetchCvelistv5Delta openCircuit (some "aaa") = (.ok ⟨[], [], [], some "bbb", true⟩ : Py (Delta ℕ)) ∧
      ¬DeltaSound ℕ openCircuit oneChange (some "aaa") := by
  have hf : fetchCvelistv5Delta openCircuit (some "aaa") = (.ok ⟨[], [], [], some "bbb", true⟩ : Py (Delta ℕ)) := rfl
  refine ⟨hf, fun h ↦ ?_⟩
  obtain ⟨head, hh, -, hw | ⟨hb, -⟩ | ⟨base, hb, -, -, hall⟩⟩ := h _ hf rfl
  · cases hh
    exact absurd hw (by decide)
  · cases hb
  · obtain ⟨hp, -⟩ := hall _ (.head _) rfl rfl
    cases hp

end

end Briefr.Feeds.Cvelistv5
