import Mathlib.Data.List.TakeDrop
import Briefr.Frontend.FeedQueryParser

namespace Briefr.Frontend.FeedReading

open Briefr.Frontend.FeedQueryParser

/-- A filter that a word asks for by itself. -/
inductive Part [Js]
  | vendors (vendors : List Text)
  | severities (severities : List Severity)
  | flag (flag : Flag)
  | epss (epss : Number)
  | technique (id : Text)
  | date (date : Text)
  | stack (terms : Text)
  | cveId (id : Text)

/-- What a word is read as, whatever the state: only a keyword of a flag depends on whether the flag is set. -/
inductive Reading [Js]
  | nothing
  | part (part : Part)
  | keyword (flag : Flag)
  | group (vendors : List Text)
  | other

section
variable [Js]

/-- What a keyword is read as, or `none` if reading it raises an error. -/
def readKeyword (keyword : Text) : Option Reading :=
  match keywordEntry (toLowerCase keyword) with
  | .inherited => none
  | .absent => some .other
  | .mapped (.severity sev) => some (.part (.severities [sev]))
  | .mapped (.flag f) => some (.keyword f)

def readPrefixed (key value : Text) : Option Reading :=
  match prefixHandlers.lookup (toLowerCase key) with
  | none => some .other
  | some .vendor => some (.part (.vendors (resolveVendors (parts value))))
  | some .is =>
    match isFlags.lookup (toLowerCase value) with
    | some f => some (.part (.flag f))
    | none => readKeyword (toLowerCase value)
  | some .severity => (parseSeverityList value).map fun sevs ↦ if sevs = [] then .other else .part (.severities sevs)
  | some .cve =>
    let id := toUpperCase (trim value)
    some (if isCveId id then .part (.cveId id) else .other)
  | some .technique =>
    let id := toUpperCase (trim value)
    some (if isTechnique id then .part (.technique id) else .other)
  | some .epss =>
    match parseEpssValue value with
    | some n => some (.part (.epss n))
    | none => some .other
  | some .stack =>
    let terms := [','].intercalate (parts value)
    some (if terms = [] then .other else .part (.stack terms))
  | some .date =>
    let d := parseDateValue value
    some (if d = [] then .other else .part (.date d))

def readColon (word : Text) : Option Reading :=
  match splitColon word with
  | some (key, value) => readPrefixed key value
  | none => some .other

def readWord (word : Text) : Option Reading :=
  if isNot word then some .nothing
  else if isCveId word then some (.part (.cveId (toUpperCase word)))
  else if isTechnique word then some (.part (.technique (toUpperCase word)))
  else
    match readColon word with
    | some .other => readKeyword (toLowerCase word)
    | read => read

/-- What a word of a query is read as once its dash is off. -/
def readTerm (word : Text) : Option Reading :=
  if ',' ∉ word ∨ (parts word).length ≤ 1 then readWord word
  else if (resolveVendors (parts word)).length = (parts word).length then some (.group (resolveVendors (parts word)))
  else
    match parseSeverityList word with
    | none => none
    | some sevs => if 1 < sevs.length then some (.part (.severities sevs)) else readWord word

def applyPart (result : Result) : Part → Result
  | .vendors vs => vs.foldl addVendor result
  | .severities sevs => sevs.foldl addSeverity result
  | .flag f => setFlag result f
  | .epss n => setEpss result n
  | .technique id => setTechnique result id
  | .date d => setDate result d
  | .stack terms => addStack result terms
  | .cveId id => setCveId result id

/-- What a recogniser makes of a reading, and whether it is handled. -/
def recognise (result : Result) : Reading → Result × Bool
  | .part part => (applyPart result part, true)
  | .keyword f => if result.flag f then (result, false) else (setFlag result f, true)
  | .nothing => (result, true)
  | .group _ | .other => (result, false)

/-- A word that no recogniser handles: a vendor or free text. -/
def performOther (state : State) (word : Text) (exclude : Bool) : State :=
  match resolveVendorToken word with
  | some v => { state with result := addToken exclude state.result v }
  | none => if exclude then state else { state with freeText := state.freeText ++ [word] }

/-- What the turn of a word does to the state. -/
def perform (state : State) (word : Text) (exclude : Bool) : Reading → State
  | .nothing => state
  | .part part => { state with result := applyPart state.result part }
  | .keyword f =>
    if state.result.flag f then performOther state word exclude
    else { state with result := setFlag state.result f }
  | .group vs => { state with result := vs.foldl (addToken exclude) state.result }
  | .other => performOther state word exclude

theorem applyKeyword_eq (result : Result) (keyword : Text) :
    applyKeyword result keyword = (readKeyword keyword).map (recognise result) := by
  rw [readKeyword, applyKeyword]
  cases keywordEntry (toLowerCase keyword) with
  | absent => rfl
  | inherited => rfl
  | mapped mapped =>
    cases mapped with
    | severity sev => rfl
    | flag f => rfl

theorem applyPrefixed_eq (result : Result) (key value : Text) :
    applyPrefixed result key value = (readPrefixed key value).map (recognise result) := by
  rw [readPrefixed, applyPrefixed]
  cases prefixHandlers.lookup (toLowerCase key) with
  | none => rfl
  | some handler =>
    cases handler with
    | vendor => rfl
    | is =>
      dsimp only
      cases isFlags.lookup (toLowerCase value) with
      | none => exact applyKeyword_eq result _
      | some f => rfl
    | severity =>
      dsimp only
      cases parseSeverityList value with
      | none => rfl
      | some sevs =>
        cases sevs with
        | nil => rfl
        | cons sev sevs => rfl
    | cve =>
      dsimp only
      split_ifs <;> rfl
    | technique =>
      dsimp only
      split_ifs <;> rfl
    | epss =>
      dsimp only
      cases parseEpssValue value with
      | none => rfl
      | some n => rfl
    | stack =>
      dsimp only
      split_ifs <;> rfl
    | date =>
      dsimp only
      split_ifs <;> rfl

theorem applyColon_eq (result : Result) (word : Text) :
    applyColon result word = (readColon word).map (recognise result) := by
  rw [readColon, applyColon]
  cases splitColon word with
  | none => rfl
  | some pair => exact applyPrefixed_eq result pair.1 pair.2

end

/-- No keyword has a colon. -/
theorem keywordEntry_colon {key : Text} (h : ':' ∈ key) : keywordEntry key = .absent := by
  have hmap : ∀ entry ∈ keywordMap, ':' ∉ entry.1 := by decide
  have hinherited : ∀ name ∈ inherited, ':' ∉ name := by decide
  have hlookup : keywordMap.lookup key = none := by
    refine List.lookup_eq_none_iff.mpr fun entry hentry ↦ ?_
    rw [bne_iff_ne]
    rintro rfl
    exact hmap entry hentry h
  rw [keywordEntry, hlookup]
  exact if_neg fun hmem ↦ hinherited key hmem h

theorem colon_mem {word key value : Text} (h : splitColon word = some (key, value)) : ':' ∈ word := by
  rw [splitColon, List.span_eq_takeWhile_dropWhile] at h
  split at h
  next c key' d value' heq =>
    obtain ⟨-, hdrop⟩ := Prod.mk.inj heq
    have hd : d = ':' := by
      have hne : word.dropWhile (fun c ↦ c != ':') ≠ [] := by
        rw [hdrop]
        exact List.cons_ne_nil _ _
      have hhead := List.head_dropWhile_not (fun c ↦ c != ':') hne
      simp only [hdrop, List.head_cons, bne_eq_false_iff_eq] at hhead
      exact hhead
    have hmem : d ∈ word.dropWhile fun c ↦ c != ':' := hdrop ▸ .head _
    exact hd ▸ (List.dropWhile_sublist _).subset hmem
  next => cases h

section
variable [Js]

/-- A word with a colon is no keyword. -/
theorem readKeyword_colon {word : Text} (h : ':' ∈ word) : readKeyword (toLowerCase word) = some .other := by
  have hcolon : ∀ s : Text, ':' ∈ s → ':' ∈ toLowerCase s :=
    fun s ↦ (Js.mem_toLowerCase s ':' (by decide) (by decide)).mpr
  rw [readKeyword, keywordEntry_colon (hcolon _ (hcolon _ h))]

/-- A word that a prefix is not read for has no colon that counts. -/
theorem colon_mem_of_readColon {word : Text} (h : readColon word ≠ some .other) : ':' ∈ word := by
  rw [readColon] at h
  split at h
  next key value hsplit => exact colon_mem hsplit
  next => exact absurd rfl h

/-- What a word token does by its reading. -/
def performWord (result : Result) (word : Text) (exclude : Bool) : Reading → Result × Bool
  | .keyword f => if result.flag f then applyVendor result word exclude else (setFlag result f, true)
  | .group _ | .other => applyVendor result word exclude
  | reading => recognise result reading

/-- The keyword and vendor stages of a word token. -/
theorem keywordStage_eq (result : Result) (word : Text) (exclude : Bool) :
    ((applyKeyword result (toLowerCase word)).bind fun r ↦
        if r.2 then some (r.1, true) else some (applyVendor r.1 word exclude)) =
      (readKeyword (toLowerCase word)).map (performWord result word exclude) := by
  rw [applyKeyword_eq]
  cases readKeyword (toLowerCase word) with
  | none => rfl
  | some reading =>
    cases reading with
    | nothing => rfl
    | part part => rfl
    | group vs => rfl
    | other => rfl
    | keyword f =>
      simp only [Option.map_some, Option.bind_some, recognise, performWord]
      cases result.flag f <;> rfl

theorem applyWordToken_eq (result : Result) (word : Text) (exclude : Bool) :
    applyWordToken result word exclude = (readWord word).map (performWord result word exclude) := by
  rw [readWord, applyWordToken]
  split_ifs
  · rfl
  · rfl
  · rfl
  · have hstage := keywordStage_eq result word exclude
    cases hread : readColon word with
    | none =>
      rw [applyColon_eq, hread]
      rfl
    | some reading =>
      rw [applyColon_eq, hread]
      cases reading with
      | nothing => rfl
      | part part => rfl
      | other => exact hstage
      | group vs =>
        rw [readKeyword_colon (colon_mem_of_readColon (hread ▸ fun h ↦ by cases h))] at hstage
        exact hstage
      | keyword f =>
        rw [readKeyword_colon (colon_mem_of_readColon (hread ▸ fun h ↦ by cases h))] at hstage
        simp only [Option.map_some, recognise, performWord]
        cases result.flag f with
        | true => exact hstage
        | false => rfl

/-- The state behind the word stages. -/
def settle (state : State) (word : Text) (exclude : Bool) (r : Result × Bool) : State :=
  if r.2 || exclude then { state with result := r.1 }
  else { state with result := r.1, freeText := state.freeText ++ [word] }

theorem settle_performWord (state : State) (word : Text) (exclude : Bool) {reading : Reading}
    (hgroup : ∀ vs, reading ≠ .group vs) :
    settle state word exclude (performWord state.result word exclude reading) = perform state word exclude reading := by
  have hother : settle state word exclude (applyVendor state.result word exclude) =
      performOther state word exclude := by
    rw [applyVendor, performOther]
    cases resolveVendorToken word with
    | some v => rfl
    | none => cases exclude <;> rfl
  cases reading with
  | nothing => rfl
  | part part => rfl
  | other => exact hother
  | group vs => exact absurd rfl (hgroup vs)
  | keyword f =>
    simp only [performWord, perform]
    cases state.result.flag f with
    | true => exact hother
    | false => rfl

theorem readKeyword_ne_group (keyword : Text) (vs : List Text) : readKeyword keyword ≠ some (.group vs) := by
  rw [readKeyword]
  split <;> (intro h; cases h)

theorem readPrefixed_ne_group (key value : Text) (vs : List Text) : readPrefixed key value ≠ some (.group vs) := by
  rw [readPrefixed]
  cases prefixHandlers.lookup (toLowerCase key) with
  | none => exact fun h ↦ by cases h
  | some handler =>
    cases handler with
    | vendor => exact fun h ↦ by cases h
    | is =>
      dsimp only
      split
      next => exact fun h ↦ by cases h
      next => exact readKeyword_ne_group _ vs
    | severity =>
      dsimp only
      intro h
      obtain ⟨sevs, -, h⟩ := Option.map_eq_some_iff.mp h
      split_ifs at h
    | epss =>
      dsimp only
      split <;> (intro h; cases h)
    | cve | technique | stack | date =>
      dsimp only
      split_ifs <;> (intro h; cases h)

theorem readWord_ne_group (word : Text) (vs : List Text) : readWord word ≠ some (.group vs) := by
  rw [readWord]
  split_ifs
  · exact fun h ↦ by cases h
  · exact fun h ↦ by cases h
  · exact fun h ↦ by cases h
  · split
    next => exact readKeyword_ne_group _ vs
    next =>
      rw [readColon]
      split
      next key value _ => exact readPrefixed_ne_group key value vs
      next => exact fun h ↦ by cases h

theorem stepWord_bind (state : State) (word : Text) (exclude : Bool) :
    stepWord state word exclude = (applyComma state.result word exclude).bind fun r ↦
      if r.2 then some { state with result := r.1 }
      else (applyWordToken r.1 word exclude).map (settle state word exclude) := by
  rw [stepWord]
  cases applyComma state.result word exclude with
  | none => rfl
  | some r =>
    simp only [Option.bind_eq_bind, Option.bind_some]
    cases r.2 with
    | true => rfl
    | false =>
      simp only [Bool.false_eq_true, if_false]
      cases applyWordToken r.1 word exclude with
      | none => rfl
      | some r' =>
        simp only [Option.bind_some, Option.map_some, settle]
        split_ifs <;> rfl

/-- The turn of a word is determined by what it is read as. -/
theorem stepWord_eq (state : State) (word : Text) (exclude : Bool) :
    stepWord state word exclude = (readTerm word).map (perform state word exclude) := by
  have hword : (applyWordToken state.result word exclude).map (settle state word exclude) =
      (readWord word).map (perform state word exclude) := by
    rw [applyWordToken_eq, Option.map_map]
    cases hread : readWord word with
    | none => rfl
    | some reading =>
      have hgroup : ∀ vs, reading ≠ .group vs := fun vs heq ↦ readWord_ne_group word vs (heq ▸ hread)
      exact congrArg some (settle_performWord state word exclude hgroup)
  rw [stepWord_bind, readTerm, applyComma, applyCommaGroup]
  by_cases hcomma : ',' ∈ word
  · simp only [hcomma, not_true_eq_false, false_or, if_true]
    split_ifs with hfew hvendors
    · exact hword
    · rfl
    · cases parseSeverityList word with
      | none => rfl
      | some sevs =>
        simp only [Option.map_some, Option.bind_some]
        by_cases hsevs : 1 < sevs.length
        · rw [if_pos hsevs, if_pos hsevs]
          rfl
        · rw [if_neg hsevs, if_neg hsevs]
          exact hword
  · simp only [hcomma, not_false_eq_true, true_or, if_true, if_false]
    exact hword

/-- The word of a token that filters. -/
def term? : Token → Option Text
  | .quoted _ => none
  | .text word | .word word => if word = [] ∨ isNot word then none else some word

/-- A word without its dash. -/
def bare (word : Text) : Text := if isDash word then word.drop 1 else word

theorem step_term {state : State} {token : Token} {word : Text} (h : term? token = some word) :
    step state token = stepWord { state with pendingExclude := isDash word && state.pendingExclude } (bare word)
      (isDash word || state.pendingExclude) := by
  have hstep : step state token = if isDash word then stepWord state (word.drop 1) true
      else stepWord { state with pendingExclude := false } word state.pendingExclude := by
    cases token with
    | quoted value => cases h
    | text value | word value =>
      rw [term?] at h
      split_ifs at h with hterm
      obtain rfl := Option.some.inj h
      rw [step, if_neg (not_or.mp hterm).1, if_neg (not_or.mp hterm).2]
  rw [hstep, bare]
  cases isDash word <;> rfl

theorem term?_eq_some {token : Token} {word : Text} (h : term? token = some word) : word ≠ [] ∧ ¬isNot word = true := by
  cases token with
  | quoted value => cases h
  | text value | word value =>
    rw [term?] at h
    split_ifs at h with hterm
    obtain rfl := Option.some.inj h
    exact not_or.mp hterm

/-- A word that does not filter leaves the result as it is. -/
theorem result_of_no_term {state state' : State} {token : Token} (h : term? token = none)
    (hquoted : ∀ value, token ≠ .quoted value) (hstep : step state token = some state') :
    state'.result = state.result := by
  cases token with
  | quoted value => exact absurd rfl (hquoted value)
  | text value | word value =>
    rw [step] at hstep
    by_cases hnil : value = []
    · rw [if_pos hnil] at hstep
      rw [← Option.some.inj hstep]
    · by_cases hnot : isNot value = true
      · rw [if_neg hnil, if_pos hnot] at hstep
        rw [← Option.some.inj hstep]
      · rw [term?, if_neg (not_or.mpr ⟨hnil, hnot⟩)] at h
        cases h

end

end Briefr.Frontend.FeedReading
