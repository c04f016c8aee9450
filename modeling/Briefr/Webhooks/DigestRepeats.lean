import Briefr.Python.Text
import Briefr.Webhooks.WatchlistMonitor

namespace Briefr.Webhooks.WatchlistMonitor

open Briefr.Python Briefr.Library Briefr.Library.Runs Briefr.Library.StableSort

/-- No destination took two digests of a CVE that share a change. -/
def NoRepeat (w : Monitor) : Prop :=
  w.delivered.Pairwise fun a b ↦ a.destinationId = b.destinationId → a.message.cveId = b.message.cveId →
    ∀ item ∈ a.message.items, item ∉ b.message.items

/-- The changes of a CVE in the window are those of an earlier run whose digest the destination takes, or none of
them. -/
def Steady (w : Monitor) (d : Dispatch) : Prop :=
  d.outcome = .delivered → ∀ g ∈ w.due, g.destinationId = d.destinationId → g.message.cveId = d.message.cveId →
    sortBy id g.message.items = sortBy id d.message.items ∨ ∀ item ∈ d.message.items, item ∉ g.message.items

structure WellKeyed (m : Message) : Prop where
  key : m.key = digestKey m.cveId m.items
  cveId : ':' ∉ m.cveId
  items : m.items ≠ []
  comma : ∀ item ∈ m.items, ',' ∉ item

theorem splitOn_sorted {items : List Text} (hne : items ≠ []) (hc : ∀ item ∈ items, ',' ∉ item) :
    ([','].intercalate (sortBy id items)).splitOn ',' = sortBy id items := by
  apply List.splitOn_intercalate
  · intro item hitem
    exact hc item ((perm_sortBy id items).mem_iff.mp hitem)
  · intro hnil
    exact hne (List.perm_nil.mp (hnil ▸ (perm_sortBy id items).symm))

theorem takeWhile_colon {a : Text} (h : ':' ∉ a) (b : Text) : (a ++ ':' :: b).takeWhile (· != ':') = a := by
  rw [List.takeWhile_append_of_pos]
  · simp
  · intro c hc
    rw [bne_iff_ne]
    exact fun he ↦ h (he ▸ hc)

theorem WellKeyed.key_inj {m m' : Message} (h : WellKeyed m) (h' : WellKeyed m') (hk : m.key = m'.key) :
    m.cveId = m'.cveId ∧ sortBy id m.items = sortBy id m'.items := by
  have hkey : m.cveId ++ ':' :: ("digest:".toList ++ [','].intercalate (sortBy id m.items)) =
      m'.cveId ++ ':' :: ("digest:".toList ++ [','].intercalate (sortBy id m'.items)) := by
    have he : digestKey m.cveId m.items = digestKey m'.cveId m'.items := h.key.symm.trans (hk.trans h'.key)
    rw [digestKey, digestKey, List.append_assoc, List.append_assoc] at he
    exact he
  have hcve : m.cveId = m'.cveId := by
    rw [← takeWhile_colon h.cveId, hkey, takeWhile_colon h'.cveId]
  rw [hcve] at hkey
  have hjoined := List.append_cancel_left (List.cons.inj (List.append_cancel_left hkey)).2
  refine ⟨hcve, ?_⟩
  rw [← splitOn_sorted h.items h.comma, hjoined, splitOn_sorted h'.items h'.comma]

theorem WellKeyed.key_congr {m m' : Message} (h : WellKeyed m) (h' : WellKeyed m') (hcve : m.cveId = m'.cveId)
    (hitems : sortBy id m.items = sortBy id m'.items) : m.key = m'.key := by
  rw [h.key, h'.key, digestKey, digestKey, hcve, hitems]

theorem mem_of_sorted_eq {l m : List Text} (h : sortBy id l = sortBy id m) {item : Text} (hi : item ∈ l) : item ∈ m := by
  have hi : item ∈ sortBy id l := (perm_sortBy id l).mem_iff.mpr hi
  exact (perm_sortBy id m).mem_iff.mp (h ▸ hi)

structure Inv (w : Monitor) : Prop where
  keyed : ∀ d ∈ w.due, WellKeyed d.message
  taken : ∀ d ∈ w.delivered, d ∈ w.due
  due : ∀ d ∈ w.due, ∃ g ∈ w.delivered, g.destinationId = d.destinationId ∧ g.message.key = d.message.key
  once : w.delivered.Pairwise fun a b ↦ ¬(a.destinationId = b.destinationId ∧ a.message.key = b.message.key)
  steady : ∀ d ∈ w.due, ∀ g ∈ w.due, g.destinationId = d.destinationId → g.message.cveId = d.message.cveId →
    sortBy id g.message.items = sortBy id d.message.items ∨ ∀ item ∈ d.message.items, item ∉ g.message.items
  claimed : ∀ d ∈ w.delivered, ∃ recorded, w.claims d.destinationId d.message.key = some recorded ∧
    ((∃ row ∈ w.okLog, (row.1 = d.destinationId ∧ row.2.1 = d.message.key) ∧ recorded ≤ row.2.2) ∨
      recorded + AtMostOnce.retention < w.clock)
  origin : ∀ id key, w.claims id key ≠ none → ∃ d ∈ w.delivered, d.destinationId = id ∧ d.message.key = key

theorem inv_init (clock : ℕ) : Inv (.init clock) := by
  constructor <;> simp [Monitor.init]

theorem Inv.noRepeat {w : Monitor} (h : Inv w) : NoRepeat w := by
  refine h.once.imp_of_mem ?_
  intro a b ha hb hne hid hcve item hi hi'
  rcases h.steady b (h.taken b hb) a (h.taken a ha) hid hcve with he | hdisjoint
  · exact hne ⟨hid, (h.keyed a (h.taken a ha)).key_congr (h.keyed b (h.taken b hb)) hcve he⟩
  · exact hdisjoint item hi' hi

section
variable {w : Monitor} {d : Dispatch}

/-- With the new one, the digests that are due still agree. -/
theorem Inv.steady_cons (h : Inv w) (ho : d.outcome = .delivered) (hs : Steady w d) :
    ∀ a ∈ d :: w.due, ∀ g ∈ d :: w.due, g.destinationId = a.destinationId → g.message.cveId = a.message.cveId →
      sortBy id g.message.items = sortBy id a.message.items ∨ ∀ item ∈ a.message.items, item ∉ g.message.items := by
  intro a hmem g hmem' hid hcve
  rcases List.mem_cons.mp hmem with rfl | ha
  · rcases List.mem_cons.mp hmem' with rfl | hg
    · exact .inl rfl
    · exact hs ho g hg hid hcve
  · rcases List.mem_cons.mp hmem' with rfl | hg
    · rcases hs ho a ha hid.symm hcve.symm with he | hdisjoint
      · exact .inl he.symm
      · exact .inr fun item hi hi' ↦ hdisjoint item hi' hi
    · exact h.steady a ha g hg hid hcve

theorem Inv.dispatched (h : Inv w) (hk : WellKeyed d.message) (hs : Steady w d) : Inv (dispatchOne w d) := by
  cases ho : d.outcome with
  | notReached => simpa only [dispatchOne, ho] using h
  | failed => simpa only [dispatchOne, ho] using h
  | delivered =>
    have hkeyed : ∀ a ∈ d :: w.due, WellKeyed a.message := List.forall_mem_cons.mpr ⟨hk, h.keyed⟩
    simp only [dispatchOne, ho]
    split
    · next hfree =>
      refine ⟨hkeyed, ?_, ?_, ?_, h.steady_cons ho hs, ?_, ?_⟩
      · exact List.forall_mem_cons.mpr ⟨.head _, fun a ha ↦ .tail _ (h.taken a ha)⟩
      · refine List.forall_mem_cons.mpr ⟨⟨d, .head _, rfl, rfl⟩, fun a ha ↦ ?_⟩
        obtain ⟨g, hg, he⟩ := h.due a ha
        exact ⟨g, .tail _ hg, he⟩
      · refine List.pairwise_cons.mpr ⟨?_, h.once⟩
        intro g hg ⟨hid, hkey⟩
        obtain ⟨recorded, hc, -⟩ := h.claimed g hg
        rw [← hid, ← hkey, hfree] at hc
        cases hc
      · refine List.forall_mem_cons.mpr ⟨⟨w.clock, by simp, .inl ⟨_, .head _, ⟨rfl, rfl⟩, le_rfl⟩⟩, fun g hg ↦ ?_⟩
        obtain ⟨recorded, hc, hkept⟩ := h.claimed g hg
        have hne : ¬(g.destinationId = d.destinationId ∧ g.message.key = d.message.key) := by
          intro ⟨hid, hkey⟩
          rw [hid, hkey, hfree] at hc
          cases hc
        refine ⟨recorded, by simpa only [if_neg hne] using hc, ?_⟩
        rcases hkept with ⟨row, hrow, he⟩ | hold
        · exact .inl ⟨row, .tail _ hrow, he⟩
        · exact .inr hold
      · intro id key hc
        by_cases he : id = d.destinationId ∧ key = d.message.key
        · exact ⟨d, .head _, he.1.symm, he.2.symm⟩
        · simp only [if_neg he] at hc
          obtain ⟨g, hg, he⟩ := h.origin id key hc
          exact ⟨g, .tail _ hg, he⟩
    · next htaken =>
      refine ⟨hkeyed, fun a ha ↦ .tail _ (h.taken a ha), ?_, h.once, h.steady_cons ho hs, h.claimed, h.origin⟩
      exact List.forall_mem_cons.mpr ⟨h.origin _ _ htaken, h.due⟩

theorem delivered_dispatchOne (w : Monitor) (d : Dispatch) : w.delivered <:+ (dispatchOne w d).delivered := by
  rw [dispatchOne]
  split
  · exact List.suffix_refl _
  · exact List.suffix_refl _
  · split
    · exact List.suffix_cons _ _
    · exact List.suffix_refl _

theorem delivered_run (w : Monitor) (ds : List Dispatch) : w.delivered <:+ (run dispatchOne w ds).delivered := by
  induction ds generalizing w with
  | nil => exact List.suffix_refl _
  | cons d ds ih => exact (delivered_dispatchOne w d).trans (ih _)

/-- A window that holds some of the changes of an earlier one, but not the same, is announced again. -/
theorem Inv.not_noRepeat (h : Inv w) (hk : WellKeyed d.message) (hs : ¬Steady w d) : ¬NoRepeat (dispatchOne w d) := by
  simp only [Steady, not_forall, not_or] at hs
  obtain ⟨ho, g, hg, hid, hcve, hne, item, hi, hi'⟩ := hs
  have hi' : item ∈ g.message.items := by simpa using hi'
  obtain ⟨a, ha, haid, hakey⟩ := h.due g hg
  obtain ⟨hacve, haitems⟩ := (h.keyed a (h.taken a ha)).key_inj (h.keyed g hg) hakey
  have hfree : w.claims d.destinationId d.message.key = none := by
    by_contra hc
    obtain ⟨b, hb, hbid, hbkey⟩ := h.origin _ _ hc
    obtain ⟨hbcve, hbitems⟩ := (h.keyed b (h.taken b hb)).key_inj hk hbkey
    rcases h.steady b (h.taken b hb) g hg (hid.trans hbid.symm) (hcve.trans hbcve.symm) with he | hdisjoint
    · exact hne (he.trans hbitems)
    · exact hdisjoint item (mem_of_sorted_eq hbitems.symm hi) hi'
  intro hno
  simp only [NoRepeat, dispatchOne, ho, hfree, if_true] at hno
  have hhead := (List.pairwise_cons.mp hno).1 a ha
  exact hhead (hid.symm.trans haid.symm) (hcve.symm.trans hacve.symm) item hi (mem_of_sorted_eq haitems.symm hi')

theorem Inv.dispatchedAll {ds : List Dispatch} (h : Inv w) (hk : ∀ d ∈ ds, WellKeyed d.message)
    (hs : Along dispatchOne Steady w ds) : Inv (run dispatchOne w ds) := by
  induction ds generalizing w with
  | nil => exact h
  | cons d ds ih => exact ih (h.dispatched (hk d (.head _)) hs.1) (fun a ha ↦ hk a (.tail _ ha)) hs.2

theorem Inv.repeats {ds : List Dispatch} (h : Inv w) (hk : ∀ d ∈ ds, WellKeyed d.message)
    (hs : ¬Along dispatchOne Steady w ds) : ¬NoRepeat (run dispatchOne w ds) := by
  induction ds generalizing w with
  | nil => exact absurd trivial hs
  | cons d ds ih =>
    by_cases hd : Steady w d
    · exact ih (h.dispatched (hk d (.head _)) hd) (fun a ha ↦ hk a (.tail _ ha)) fun hrest ↦ hs ⟨hd, hrest⟩
    · intro hno
      exact h.not_noRepeat (hk d (.head _)) hd (hno.sublist (delivered_run _ ds).sublist)

/-- The cleanup takes no claim of a message that a destination took. -/
theorem Inv.cleanup (h : Inv w) : Inv (runRetentionCleanup w) := by
  refine ⟨h.keyed, h.taken, h.due, h.once, h.steady, ?_, ?_⟩
  · intro g hg
    obtain ⟨recorded, hc, hkept⟩ := h.claimed g hg
    have hkept : (∃ row ∈ (runRetentionCleanup w).okLog, (row.1 = g.destinationId ∧ row.2.1 = g.message.key) ∧
        recorded ≤ row.2.2) ∨ recorded + AtMostOnce.retention < w.clock := by
      rcases hkept with ⟨row, hrow, he, hle⟩ | hold
      · by_cases hr : row.2.2 + AtMostOnce.retention < w.clock
        · exact .inr (by omega)
        · exact .inl ⟨row, List.mem_filter.mpr ⟨hrow, by simpa using hr⟩, he, hle⟩
      · exact .inr hold
    refine ⟨recorded, ?_, hkept⟩
    simp only [runRetentionCleanup, hc, Option.filter_some]
    rw [if_pos]
    rw [Bool.not_eq_true', decide_eq_false_iff_not]
    intro ⟨_, hrecent, hnone⟩
    rcases hkept with ⟨row, hrow, he, -⟩ | hold
    · exact hnone row hrow he
    · omega
  · intro id key hc
    refine h.origin id key fun hnone ↦ hc ?_
    simp only [runRetentionCleanup, hnone, Option.filter_none]

end

section
variable {Score : Type} [Interp] [EpssDelta Score]

omit [Interp] in
/-- A new value that parses holds no comma. -/
theorem comma_of_parseScore {value : Option Text} {score : Score} (h : parseScore value = some score) :
    ',' ∉ value.getD "None".toList := by
  cases value with
  | none => decide
  | some text =>
    simp only [parseScore, Option.getD_some] at h ⊢
    split at h
    · next hnil => simp [hnil]
    · split at h
      · next x hx => exact EpssDelta.float_comma text x hx
      · cases h

theorem comma_of_dedupeSuffix {change : ChangeRow} {suffix : Text} (h : dedupeSuffix change = some suffix) :
    ',' ∉ change.fieldName ++ ':' :: suffix := by
  have happend : ∀ field : Text, ',' ∉ field → ',' ∉ suffix → ',' ∉ field ++ ':' :: suffix := by
    intro field hf hs hc
    rcases List.mem_append.mp hc with hc | hc
    · exact hf hc
    · rcases List.mem_cons.mp hc with hc | hc
      · cases hc
      · exact hs hc
  rw [dedupeSuffix] at h
  split at h
  · next hfield =>
    split at h
    · next old new hold hnew =>
      split at h
      · obtain rfl := Option.some.inj h
        exact happend _ (hfield ▸ by decide) (comma_of_parseScore hnew)
      · cases h
    · cases h
  · split at h
    · next hfield =>
      split at h
      · cases h
      · obtain rfl := Option.some.inj h
        refine happend _ ?_ (by decide)
        rcases hfield with hfield | hfield
        · exact hfield ▸ by decide
        · exact hfield ▸ by decide
    · cases h

theorem of_qualifying {pinned : List Text} {policy : Policy} {change : ChangeRow} {e : Text × Text}
    (h : qualifying pinned policy change = some e) : e.1 ∈ pinned ∧ ',' ∉ e.2 := by
  rw [qualifying] at h
  split at h
  · next hpinned =>
    split at h
    · split at h
      · obtain ⟨suffix, hsuffix, rfl⟩ := Option.map_eq_some_iff.mp h
        exact ⟨hpinned, comma_of_dedupeSuffix hsuffix⟩
      · cases h
    · cases h
  · cases h

theorem wellKeyed_messages {r : MonitorRun} (hr : r.policy.deliveryMode = .digest) {changes : List ChangeRow} :
    ∀ m ∈ messages r changes, WellKeyed m := by
  intro m hm
  simp only [messages, hr] at hm
  obtain ⟨e, he, rfl⟩ := List.mem_map.mp hm
  have hfound : ∀ item ∈ e.2, e.1 ∈ r.pinned ∧ ',' ∉ item := by
    intro item hi
    obtain ⟨change, -, hq⟩ := List.mem_filterMap.mp ((Dict.mem_group_iff he).mp hi)
    exact of_qualifying hq
  have hne := Dict.ne_nil_of_mem_groups he
  obtain ⟨item, hi⟩ := List.exists_mem_of_ne_nil e.2 hne
  exact ⟨rfl, r.pinned_valid e.1 (hfound item hi).1, hne, fun item hi ↦ (hfound item hi).2⟩

theorem wellKeyed_dispatches {w : Monitor} {r : MonitorRun} (hr : r.policy.deliveryMode = .digest) :
    ∀ d ∈ dispatches w r, WellKeyed d.message := by
  intro d hd
  obtain ⟨m, hm, hd⟩ := List.mem_flatMap.mp hd
  obtain ⟨id, -, rfl⟩ := List.mem_map.mp hd
  exact wellKeyed_messages hr m hm

/-- Every digest of the run that a destination takes is steady. -/
def SteadyRun (w : Monitor) : Event → Prop
  | .monitor r _ => Along dispatchOne Steady w (dispatches w r)
  | _ => True

theorem Inv.stepped {w : Monitor} {e : Event} (h : Inv w) (he : SteadyRun w e) : Inv (step w e) := by
  cases e with
  | change cveId fieldName oldValue newValue =>
    exact ⟨h.keyed, h.taken, h.due, h.once, h.steady, h.claimed, h.origin⟩
  | monitor r digest => exact h.dispatchedAll (wellKeyed_dispatches digest) he
  | cleanup => exact h.cleanup
  | tick seconds =>
    refine ⟨h.keyed, h.taken, h.due, h.once, h.steady, ?_, h.origin⟩
    intro g hg
    obtain ⟨recorded, hc, hkept⟩ := h.claimed g hg
    exact ⟨recorded, hc, hkept.imp_right fun hold ↦ Nat.lt_add_right seconds hold⟩

theorem Inv.not_noRepeat_step {w : Monitor} {e : Event} (h : Inv w) (he : ¬SteadyRun w e) : ¬NoRepeat (step w e) := by
  cases e with
  | monitor r digest => exact h.repeats (wellKeyed_dispatches digest) he
  | _ => exact absurd trivial he

/-- In every sequence of changes, runs in digest mode, cleanups and pauses, no destination takes two digests with a
change in common, exactly when the window of a CVE always holds the changes of an earlier run or none of them. -/
theorem digests_once_iff (clock : ℕ) (events : List Event) :
    (∀ before, before <+: events → NoRepeat (run step (.init clock) before)) ↔
      Along step SteadyRun (.init clock) events := by
  have hgood : ∀ w, Inv w → NoRepeat w := fun _ h ↦ h.noRepeat
  have hstep : ∀ w e, Inv w → SteadyRun w e → Inv (step w e) := fun _ _ h he ↦ h.stepped he
  have hbreak : ∀ w e, Inv w → ¬SteadyRun w e → ¬NoRepeat (step w e) := fun _ _ h he ↦ h.not_noRepeat_step he
  exact forall_prefix_iff hgood hstep hbreak (inv_init clock)

end

section
local instance watchlistAscii : Interp := ascii fun _ ↦ none

/-- No EPSS score is compared in the runs below. -/
local instance noScores : EpssDelta ℕ where
  float _ := .valueError
  float_str _ := by simp
  zero := 0
  reaches _ _ := false
  float_comma _ _ h := by cases h

def pocAndPatch : Policy := ⟨fun t ↦ t = .poc ∨ t = .patch, .digest, fun _ _ ↦ none⟩

def hourlyRun : MonitorRun where
  pinned := ["CVE-2024-0001".toList]
  pinned_valid := by decide
  policy := pocAndPatch
  sinceHours := 24
  targets := ["discord".toList]
  outcome _ _ := .delivered

/-- A proof of concept surfaces, an hour later a patch; the monitor runs after each. -/
def pocThenPatch : List Event :=
  [.change "CVE-2024-0001".toList hasPoc (some "0".toList) (some "1".toList), .monitor hourlyRun rfl, .tick 3600,
    .change "CVE-2024-0001".toList patchAvailable (some "0".toList) (some "1".toList), .monitor hourlyRun rfl]

theorem digest_repeats_poc : ¬∀ (clock : ℕ) (events : List Event), NoRepeat (run step (.init clock) events) := by
  intro h
  have hno := h 0 pocThenPatch
  revert hno
  unfold NoRepeat
  decide +kernel

end

end Briefr.Webhooks.WatchlistMonitor
