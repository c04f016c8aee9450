import Briefr.Frontend.FeedReading

namespace Briefr.Frontend.FeedNegation

open Briefr.Frontend.FeedQueryParser Briefr.Frontend.FeedReading

/-- The filters that select what they name. -/
structure Filters [Js] where
  vendors : List Text
  severities : List Severity
  flag : Flag → Bool
  epssMin : Option Number
  technique : Text
  publishedOn : Text
  stack : Text
  cveId : Text

section
variable [Js]

def filtersOf (result : Result) : Filters :=
  ⟨result.vendors, result.severities, result.flag, result.epssMin, result.technique, result.publishedOn, result.stack,
    result.cveId⟩

/-- The members that are new, behind those that are there. -/
def addNew {α : Type} [DecidableEq α] (old new : List α) : List α :=
  new.foldl (fun members a ↦ if a ∈ members then members else members ++ [a]) old

def Filters.put (filters : Filters) : Part → Filters
  | .vendors vendors => { filters with vendors := addNew filters.vendors vendors }
  | .severities severities => { filters with severities := addNew filters.severities severities }
  | .flag flag => { filters with flag := Function.update filters.flag flag true }
  | .epss epss => { filters with epssMin := some epss }
  | .technique id => { filters with technique := id }
  | .date date => { filters with publishedOn := date }
  | .stack terms => { filters with stack := if filters.stack = [] then terms else filters.stack ++ ',' :: terms }
  | .cveId id => { filters with cveId := id }

/-- A filter that is there already. -/
def Held (filters : Filters) : Part → Prop
  | .vendors vs => ∀ v ∈ vs, v ∈ filters.vendors
  | .severities sevs => ∀ sev ∈ sevs, sev ∈ filters.severities
  | .flag f => filters.flag f = true
  | .epss n => filters.epssMin = some n
  | .technique id => filters.technique = id
  | .date d => filters.publishedOn = d
  | .stack terms => terms = [] ∧ filters.stack = []
  | .cveId id => filters.cveId = id

end

theorem mem_addNew {α : Type} [DecidableEq α] {old new : List α} {a : α} : a ∈ addNew old new ↔ a ∈ old ∨ a ∈ new := by
  induction new generalizing old with
  | nil => simp [addNew]
  | cons b new ih =>
    have hcons : addNew old (b :: new) = addNew (if b ∈ old then old else old ++ [b]) new := rfl
    rw [hcons, ih, List.mem_cons]
    split_ifs with hb
    · constructor
      · rintro (h | h)
        · exact .inl h
        · exact .inr (.inr h)
      · rintro (h | rfl | h)
        · exact .inl h
        · exact .inl hb
        · exact .inr h
    · rw [List.mem_append, List.mem_singleton, or_assoc]

theorem addNew_eq_self {α : Type} [DecidableEq α] {old new : List α} :
    addNew old new = old ↔ ∀ a ∈ new, a ∈ old := by
  constructor
  · intro h a ha
    rw [← h, mem_addNew]
    exact .inr ha
  · intro h
    induction new with
    | nil => rfl
    | cons b new ih =>
      obtain ⟨hb, hnew⟩ := List.forall_mem_cons.mp h
      have hcons : addNew old (b :: new) = addNew (if b ∈ old then old else old ++ [b]) new := rfl
      rw [hcons, if_pos hb, ih hnew]

/-- No keyword has a colon. -/
theorem keywordEntry_colon {key : Text} (h : ':' ∈ key) : keywordEntry key = .absent := by
  have hmap : ∀ entry ∈ keywordMap, ':' ∉ entry.1 := by decide
  have hinherited : ∀ name ∈ inherited, ':' ∉ name := by decide
  have hlookup : keywordMap.lookup key = none := by
    refine List.lookup_eq_none_iff.mpr fun entry hentry ↦ ?_
    rw [bne_iff_ne]
    rintro rfl
    exact hmap entry hentry h
  rw [keywordEntry, hlookup]
  exact if_neg fun hmem ↦ hinherited key hmem h

section
variable [Js]

/-- Asking for a filter changes nothing exactly if it is there already. -/
theorem put_eq_self {filters : Filters} {part : Part} : filters.put part = filters ↔ Held filters part := by
  cases part with
  | vendors vs =>
    refine ⟨fun h ↦ addNew_eq_self.mp (congrArg Filters.vendors h), fun h ↦ ?_⟩
    rw [Filters.put, addNew_eq_self.mpr h]
  | severities sevs =>
    refine ⟨fun h ↦ addNew_eq_self.mp (congrArg Filters.severities h), fun h ↦ ?_⟩
    rw [Filters.put, addNew_eq_self.mpr h]
  | flag f =>
    constructor
    · intro h
      have hflag : Function.update filters.flag f true f = filters.flag f :=
        congrFun (congrArg Filters.flag h) f
      rw [Function.update_self] at hflag
      exact hflag.symm
    · intro h
      have hupdate : Function.update filters.flag f true = filters.flag :=
        Function.update_eq_self_iff.mpr (Eq.symm h)
      rw [Filters.put, hupdate]
  | epss n =>
    refine ⟨fun h ↦ (congrArg Filters.epssMin h).symm, fun h ↦ ?_⟩
    rw [Filters.put, ← show filters.epssMin = some n from h]
  | technique id =>
    refine ⟨fun h ↦ (congrArg Filters.technique h).symm, fun h ↦ ?_⟩
    rw [Filters.put, ← show filters.technique = id from h]
  | date d =>
    refine ⟨fun h ↦ (congrArg Filters.publishedOn h).symm, fun h ↦ ?_⟩
    rw [Filters.put, ← show filters.publishedOn = d from h]
  | cveId id =>
    refine ⟨fun h ↦ (congrArg Filters.cveId h).symm, fun h ↦ ?_⟩
    rw [Filters.put, ← show filters.cveId = id from h]
  | stack terms =>
    constructor
    · intro h
      have hstack : (if filters.stack = [] then terms else filters.stack ++ ',' :: terms) = filters.stack :=
        congrArg Filters.stack h
      split_ifs at hstack with hnil
      · exact ⟨hstack.trans hnil, hnil⟩
      · have hlength := congrArg List.length hstack
        rw [List.length_append, List.length_cons] at hlength
        omega
    · rintro ⟨rfl, hnil⟩
      rw [Filters.put, if_pos hnil, ← hnil]

theorem filtersOf_addVendor (result : Result) (v : Text) :
    filtersOf (addVendor result v) = (filtersOf result).put (.vendors [v]) := by
  by_cases hv : v ∈ result.vendors
  · rw [addVendor, if_pos hv]
    have hheld : Held (filtersOf result) (.vendors [v]) := List.forall_mem_singleton.mpr hv
    exact (put_eq_self.mpr hheld).symm
  · have hnew : addNew result.vendors [v] = result.vendors ++ [v] := by
      rw [addNew, List.foldl_cons, List.foldl_nil, if_neg hv]
    rw [addVendor, if_neg hv, Filters.put, filtersOf, filtersOf, hnew]
    rfl

theorem filtersOf_addVendors (result : Result) (vs : List Text) :
    filtersOf (vs.foldl addVendor result) = (filtersOf result).put (.vendors vs) := by
  induction vs generalizing result with
  | nil => rfl
  | cons v vs ih =>
    rw [List.foldl_cons, ih, filtersOf_addVendor]
    rfl

theorem filtersOf_addSeverity (result : Result) (sev : Severity) :
    filtersOf (addSeverity result sev) = (filtersOf result).put (.severities [sev]) := by
  by_cases hsev : sev ∈ result.severities
  · rw [addSeverity, if_pos hsev]
    have hheld : Held (filtersOf result) (.severities [sev]) := List.forall_mem_singleton.mpr hsev
    exact (put_eq_self.mpr hheld).symm
  · have hnew : addNew result.severities [sev] = result.severities ++ [sev] := by
      rw [addNew, List.foldl_cons, List.foldl_nil, if_neg hsev]
    rw [addSeverity, if_neg hsev, Filters.put, filtersOf, filtersOf, hnew]
    rfl

theorem filtersOf_addSeverities (result : Result) (sevs : List Severity) :
    filtersOf (sevs.foldl addSeverity result) = (filtersOf result).put (.severities sevs) := by
  induction sevs generalizing result with
  | nil => rfl
  | cons sev sevs ih =>
    rw [List.foldl_cons, ih, filtersOf_addSeverity]
    rfl

theorem filtersOf_excludeVendor (result : Result) (v : Text) : filtersOf (excludeVendor result v) = filtersOf result := by
  rw [excludeVendor]
  split_ifs <;> rfl

theorem filtersOf_excludeVendors (result : Result) (vs : List Text) :
    filtersOf (vs.foldl (addToken true) result) = filtersOf result := by
  induction vs generalizing result with
  | nil => rfl
  | cons v vs ih => rw [List.foldl_cons, ih, addToken, if_pos rfl, filtersOf_excludeVendor]

theorem filtersOf_applyPart (result : Result) (part : Part) :
    filtersOf (applyPart result part) = (filtersOf result).put part := by
  cases part with
  | vendors vs => exact filtersOf_addVendors result vs
  | severities sevs => exact filtersOf_addSeverities result sevs
  | flag f | epss n | technique id | date d | stack terms | cveId id => rfl

/-- The filter that a reading asks for by itself. -/
def asked? : Reading → Option Part
  | .part part => some part
  | .keyword f => some (.flag f)
  | .nothing | .group _ | .other => none

theorem filtersOf_performOther (state : State) (word : Text) :
    filtersOf (performOther state word true).result = filtersOf state.result := by
  rw [performOther]
  cases resolveVendorToken word with
  | none => rfl
  | some v =>
    dsimp only
    rw [addToken, if_pos rfl, filtersOf_excludeVendor]

/-- What an excluded word asks for by itself is put in. -/
theorem filtersOf_perform (state : State) (word : Text) (reading : Reading) :
    filtersOf (perform state word true reading).result =
      (asked? reading).elim (filtersOf state.result) (filtersOf state.result).put := by
  cases reading with
  | nothing => rfl
  | part part => exact filtersOf_applyPart state.result part
  | group vs => exact filtersOf_excludeVendors state.result vs
  | other => exact filtersOf_performOther state word
  | keyword f =>
    simp only [perform, asked?, Option.elim_some]
    cases hflag : state.result.flag f with
    | true =>
      have hheld : (filtersOf state.result).put (.flag f) = filtersOf state.result := put_eq_self.mpr hflag
      rw [if_pos rfl, hheld, filtersOf_performOther]
    | false => rfl

/-- What a negation of a query reaches: nothing, the next word, or the words behind the next one. -/
inductive Scope
  | nothing
  | next
  | late
  deriving DecidableEq

/-- The scope behind a token: words with a dash of their own do not end it. -/
def Scope.after (scope : Scope) : Token → Scope
  | .quoted _ => scope
  | .text word | .word word =>
    if word = [] then scope
    else if isNot word then .next
    else if isDash word then if scope = .nothing then .nothing else .late
    else .nothing

/-- The words that are negated: those with a dash, and the first word behind `not` or `without`. -/
def Negated (scope : Scope) (word : Text) : Prop := isDash word = true ∨ scope = .next

/-- A word is excluded exactly if it is negated, and then selects nothing. -/
structure Respected (state : State) (scope : Scope) (token : Token) (word : Text) : Prop where
  excluded : (isDash word || state.pendingExclude) = true ↔ Negated scope word
  selects : Negated scope word → ∀ state', step state token = some state' →
    filtersOf state'.result = filtersOf state.result

/-- Every negation of the tokens is respected. -/
def Respects (state : State) (scope : Scope) : List Token → Prop
  | [] => True
  | token :: rest => (∀ word, term? token = some word → Respected state scope token word) ∧
      ∀ state', step state token = some state' → Respects state' (scope.after token) rest

/-- A word is read as what it is meant: it is not reached by a negation that is over, and if it is negated it asks by
itself for what is there already, if for anything. -/
structure Harmless (state : State) (scope : Scope) (word : Text) : Prop where
  inScope : scope = .late → isDash word = true
  held : Negated scope word → ∀ reading part, readTerm (bare word) = some reading →
    asked? reading = some part → Held (filtersOf state.result) part

def Clear (state : State) (scope : Scope) : List Token → Prop
  | [] => True
  | token :: rest => (∀ word, term? token = some word → Harmless state scope word) ∧
      ∀ state', step state token = some state' → Clear state' (scope.after token) rest

variable {state state' : State} {scope : Scope} {token : Token} {word : Text}

theorem stepWord_pending {exclude : Bool} (h : stepWord state word exclude = some state') :
    state'.pendingExclude = state.pendingExclude := by
  obtain ⟨⟨result, handled⟩, -, h⟩ := Option.bind_eq_some_iff.mp h
  dsimp only at h
  split_ifs at h
  · obtain rfl := Option.some.inj h
    rfl
  · obtain ⟨⟨result', handled'⟩, -, h⟩ := Option.bind_eq_some_iff.mp h
    dsimp only at h
    split_ifs at h
    · obtain rfl := Option.some.inj h
      rfl
    · obtain rfl := Option.some.inj h
      rfl

theorem after_term (h : term? token = some word) :
    scope.after token = if isDash word then if scope = .nothing then .nothing else .late else .nothing := by
  cases token with
  | quoted value => cases h
  | text value | word value =>
    rw [term?] at h
    split_ifs at h with hterm
    obtain rfl := Option.some.inj h
    rw [Scope.after, if_neg (not_or.mp hterm).1, if_neg (not_or.mp hterm).2]

/-- A negation is pending as long as something is in its scope. -/
theorem step_pending (hpending : state.pendingExclude = true ↔ scope ≠ .nothing) (h : step state token = some state') :
    state'.pendingExclude = true ↔ scope.after token ≠ .nothing := by
  cases hterm : term? token with
  | some word =>
    rw [step_term hterm] at h
    rw [stepWord_pending h, after_term hterm]
    cases isDash word with
    | true =>
      rw [if_pos rfl, Bool.true_and, hpending]
      split_ifs with hscope
      · exact ⟨fun hne ↦ absurd hscope hne, fun hne ↦ absurd rfl hne⟩
      · exact ⟨fun _ hne ↦ Scope.noConfusion hne, fun _ ↦ hscope⟩
    | false =>
      rw [if_neg Bool.false_ne_true, Bool.false_and]
      exact ⟨fun hfalse ↦ absurd hfalse Bool.false_ne_true, fun hne ↦ absurd rfl hne⟩
  | none =>
    cases token with
    | quoted value =>
      obtain rfl := Option.some.inj h
      exact hpending
    | text value | word value =>
      have hor : value = [] ∨ isNot value = true := by
        by_contra hor
        rw [term?, if_neg hor] at hterm
        cases hterm
      rw [step] at h
      rw [Scope.after]
      by_cases hnil : value = []
      · rw [if_pos hnil] at h ⊢
        obtain rfl := Option.some.inj h
        exact hpending
      · have hnot := hor.resolve_left hnil
        rw [if_neg hnil, if_pos hnot] at h ⊢
        obtain rfl := Option.some.inj h
        exact ⟨fun _ hne ↦ Scope.noConfusion hne, fun _ ↦ rfl⟩

theorem step_negated (hpending : state.pendingExclude = true ↔ scope ≠ .nothing) (h : term? token = some word)
    (hnegated : Negated scope word) : ∃ start : State, start.result = state.result ∧
      step state token = stepWord start (bare word) true := by
  have hexclude : (isDash word || state.pendingExclude) = true := by
    rw [Bool.or_eq_true, hpending]
    refine hnegated.imp_right fun hnext ↦ ?_
    rw [hnext]
    exact fun hne ↦ Scope.noConfusion hne
  refine ⟨{ state with pendingExclude := isDash word && state.pendingExclude }, rfl, ?_⟩
  rw [step_term h, hexclude]

/-- A word with a negation is respected exactly if it is harmless. -/
theorem respected_iff (hpending : state.pendingExclude = true ↔ scope ≠ .nothing) (h : term? token = some word) :
    Respected state scope token word ↔ Harmless state scope word := by
  have hexcluded : ((isDash word || state.pendingExclude) = true ↔ Negated scope word) ↔
      (scope = .late → isDash word = true) := by
    rw [Bool.or_eq_true, hpending, Negated]
    cases scope <;> simp
  have hselects : Negated scope word →
      ((∀ state', step state token = some state' → filtersOf state'.result = filtersOf state.result) ↔
        ∀ reading part, readTerm (bare word) = some reading →
          asked? reading = some part → Held (filtersOf state.result) part) := by
    intro hnegated
    obtain ⟨start, hstart, hstep⟩ := step_negated hpending h hnegated
    rw [hstep, stepWord_eq]
    cases readTerm (bare word) with
    | none => exact ⟨fun _ _ _ hread ↦ (by cases hread), fun _ _ hnone ↦ (by cases hnone)⟩
    | some reading =>
      have hfilters := filtersOf_perform start (bare word) reading
      rw [hstart] at hfilters
      constructor
      · intro hall reading' part hread hasked
        obtain rfl := Option.some.inj hread
        rw [hasked, Option.elim_some] at hfilters
        rw [← put_eq_self, ← hfilters]
        exact hall _ rfl
      · intro hheld state' hstate'
        obtain rfl := Option.some.inj hstate'
        rw [hfilters]
        cases hasked : asked? reading with
        | none => rfl
        | some part => exact put_eq_self.mpr (hheld reading part rfl hasked)
  constructor
  · intro hrespected
    exact ⟨hexcluded.mp hrespected.excluded, fun hnegated ↦ (hselects hnegated).mp (hrespected.selects hnegated)⟩
  · intro hharmless
    exact ⟨hexcluded.mpr hharmless.inScope, fun hnegated ↦ (hselects hnegated).mpr (hharmless.held hnegated)⟩

/-- The negations of a run are respected exactly if its words are harmless. -/
theorem respects_iff (hpending : state.pendingExclude = true ↔ scope ≠ .nothing) (tokens : List Token) :
    Respects state scope tokens ↔ Clear state scope tokens := by
  induction tokens generalizing state scope with
  | nil => rfl
  | cons token rest ih =>
    rw [Respects, Clear]
    refine and_congr ?_ ?_
    · exact forall_congr' fun word ↦ forall_congr' fun hterm ↦ respected_iff hpending hterm
    · exact forall_congr' fun state' ↦ forall_congr' fun hstep ↦ ih (step_pending hpending hstep)

end

/-- The negations of a query that is read word by word. -/
def QueryRespects [Js] (input : Text) : Prop :=
  phraseVendors (rawQuery input) = none → Respects initial .nothing (tokenize (rawQuery input))

def QueryClear [Js] (input : Text) : Prop :=
  phraseVendors (rawQuery input) = none → Clear initial .nothing (tokenize (rawQuery input))

/-- The negations of a query are respected exactly if its words are harmless. -/
theorem queryRespects_iff [Js] (input : Text) : QueryRespects input ↔ QueryClear input := by
  have hpending : initial.pendingExclude = true ↔ Scope.nothing ≠ .nothing :=
    ⟨fun h ↦ absurd h Bool.false_ne_true, fun h ↦ absurd rfl h⟩
  exact imp_congr_right fun _ ↦ respects_iff hpending _

section
local instance negationJs : Js := asciiJs

/-- A keyword with a dash is taken for the keyword. -/
theorem dashKev_selects : ¬QueryRespects "-kev".toList := by
  intro h
  have htokens : tokenize (rawQuery "-kev".toList) = [.word "-kev".toList] := by decide
  have hrespects := h (by decide)
  rw [htokens] at hrespects
  have hrespected := hrespects.1 "-kev".toList rfl
  have hsame := hrespected.selects (.inl rfl) _ rfl
  exact absurd (congrFun (congrArg Filters.flag hsame) .kevOnly) (by decide)

end

end Briefr.Frontend.FeedNegation
