import Briefr.Embeddings.Freshness

namespace Briefr.Embeddings

open Briefr.Python Briefr.Library Briefr.Library.StableSort Briefr.Library.CappedScan

section Starvation

variable [Interp] [Embedder] {st : Store} {model : Text} {n : ℕ} {p q : Embedding × Cve} {call : Call} {cves : List Cve}

theorem sublist_writeAll {now : Text → Text} :
    (st.embeddings.filter fun e ↦ e.key ∉ cves.map fun c ↦ (written model now c).key).Sublist
      (writeAll model now st cves).embeddings := by
  induction cves generalizing st with
  | nil =>
    rw [List.filter_eq_self.mpr fun e _ ↦ by simp]
    exact List.Sublist.refl _
  | cons c cves ih =>
    have hrest := @ih (upsertEmbeddingRow st (written model now c))
    have hfirst : (st.embeddings.filter fun e ↦ e.key ≠ (written model now c).key).Sublist
        (upsertEmbeddingRow st (written model now c)).embeddings := UniqueIndex.sublist_upsert _ _
    have hboth := hfirst.filter fun e ↦ e.key ∉ cves.map fun c ↦ (written model now c).key
    rw [List.filter_filter] at hboth
    have hsame : st.embeddings.filter (fun e ↦ e.key ∉ (c :: cves).map fun c ↦ (written model now c).key) =
        st.embeddings.filter fun e ↦ decide (e.key ∉ cves.map fun c ↦ (written model now c).key) &&
          decide (e.key ≠ (written model now c).key) := by
      refine List.filter_congr fun e _ ↦ ?_
      by_cases he : e.key = (written model now c).key
      · simp [he]
      · simp [he]
    rw [hsame]
    exact hboth.trans hrest

/-- A row of the second query that has text and another hash than that of the text. -/
def pendingRow (model : Text) (q : Embedding × Cve) : Bool := hasText q.2 && drifted model q

/-- Rows that are up to date, `n` or more, come before the row of a CVE. -/
def Behind (model : Text) (n : ℕ) (p : Embedding × Cve) (st : Store) : Prop := p ∈ resyncable st model ∧
  n ≤ (resyncable st model).countP fun q ↦ !pendingRow model q && decide (updatedKey q < updatedKey p)

omit [Interp] [Embedder] in
theorem scanLimit_mono {a b : ℕ} (h : a ≤ b) : scanLimit a ≤ scanLimit b := by
  unfold scanLimit
  omega

/-- A row of the second query is embedded only if it is one of those that are scanned. -/
theorem place_of_picked (hp : p ∈ resyncable st model) (h : p.2 ∈ (picked st model call.cap).map Prod.fst) :
    pendingRow model p = true ∧ (before (oldest st model) p).length < scanLimit (call.cap * 4) := by
  obtain ⟨row, hrow, hc⟩ := List.mem_map.mp h
  obtain ⟨hcand, hw⟩ := mem_picked hrow
  obtain ⟨hmem, he, hlike, -⟩ := mem_resyncable.mp hp
  rcases List.mem_append.mp hcand with hfirst | hsecond
  · have hneed := (mem_needing.mp (row_of_first hfirst).1).2.2 p.1 (hc ▸ he)
    rw [hlike] at hneed
    cases hneed
  · obtain ⟨q, hq, htake, rfl⟩ := row_of_second hsecond
    have hsame : q = p := List.inj_on_of_nodup_map resyncable_ids hq hp (congrArg Cve.cveId hc)
    rw [hsame] at htake hw
    refine ⟨?_, (length_before_of_mem_take htake).trans_le (scanLimit_mono (Nat.sub_le _ _))⟩
    simpa [pendingRow, wanted, drifted] using hw

theorem not_picked (h : Behind model n p st) (hcall : scanLimit (call.cap * 4) ≤ n) :
    p.2 ∉ (picked st model call.cap).map Prod.fst := by
  intro hm
  have hplace := (place_of_picked h.1 hm).2
  have hcount : (resyncable st model).countP (fun q ↦ !pendingRow model q && decide (updatedKey q < updatedKey p)) ≤
      (resyncable st model).countP fun q ↦ updatedKey q < updatedKey p :=
    List.countP_mono_left fun q _ hq ↦ (Bool.and_eq_true_iff.mp hq).2
  have hbefore : _ ≤ (before (oldest st model) p).length := countP_lt_le_before (resyncable st model) p
  have hn := h.2
  omega

theorem countP_backfill {P : Embedding × Cve → Bool} (hP : ∀ q, P q = true → pendingRow model q = false) :
    (resyncable st model).countP P ≤ (resyncable (backfill model call.cap call.now st) model).countP P := by
  have hkeep : ∀ e ∈ st.embeddings, ((resyncRow st.cves model e).map P).getD false = true →
      e.key ∉ ((picked st model call.cap).map Prod.fst).map fun c ↦ (written model call.now c).key := by
    intro e he hPe hkey
    obtain ⟨c, hc, hck⟩ := List.mem_map.mp hkey
    cases hr : resyncRow st.cves model e with
    | none =>
      rw [hr] at hPe
      cases hPe
    | some q =>
      rw [hr] at hPe
      have hq : q ∈ resyncable st model := List.mem_filterMap.mpr ⟨e, he, hr⟩
      obtain ⟨hqc, hqe, -, -⟩ := mem_resyncable.mp hq
      obtain ⟨row, hrow, hrc⟩ := List.mem_map.mp hc
      have hcc : c ∈ st.cves := hrc ▸ picked_mem hrow
      have hqe' : q.1 = e := by
        unfold resyncRow at hr
        split at hr
        · obtain ⟨c', -, rfl⟩ := Option.map_eq_some_iff.mp hr
          rfl
        · cases hr
      have hid : q.2.cveId = c.cveId := by
        have hkey' := (embeddingOf_eq_some.mp hqe).2
        rw [hqe', ← hck] at hkey'
        exact (Prod.mk.inj (Prod.mk.inj hkey').2).1.symm
      have hsame : q.2 = c := eq_of_cveId hqc hcc hid
      have hpending := (place_of_picked hq (hsame ▸ hc)).1
      rw [hP q hPe] at hpending
      cases hpending
  rw [resyncable, resyncable, cves_backfill call.positive, List.countP_filterMap, List.countP_filterMap, backfill_eq call.positive]
  calc st.embeddings.countP (fun e ↦ ((resyncRow st.cves model e).map P).getD false)
      = (st.embeddings.filter fun e ↦ e.key ∉ ((picked st model call.cap).map Prod.fst).map fun c ↦
          (written model call.now c).key).countP fun e ↦ ((resyncRow st.cves model e).map P).getD false := by
        rw [List.countP_filter]
        refine List.countP_congr fun e he ↦ ?_
        constructor
        · intro hPe
          rw [hPe, decide_eq_true (hkeep e he hPe)]
          rfl
        · exact fun h ↦ (Bool.and_eq_true_iff.mp h).1
    _ ≤ _ := sublist_writeAll.countP_le

theorem behind_backfill (h : Behind model n p st) (hcall : scanLimit (call.cap * 4) ≤ n) :
    Behind model n p (backfill model call.cap call.now st) := by
  obtain ⟨hc, he, hlike, hdescribed⟩ := mem_resyncable.mp h.1
  refine ⟨mem_resyncable.mpr ⟨?_, ?_, hlike, hdescribed⟩, h.2.trans (countP_backfill fun q hq ↦ ?_)⟩
  · rw [cves_backfill call.positive]
    exact hc
  · rw [embeddingOf_backfill call.positive hc, if_neg (not_picked h hcall)]
    exact he
  · simpa using (Bool.and_eq_true_iff.mp hq).1

/-- A changed description stays without an embedding for ever behind as many rows that are up to date as a run scans. -/
theorem starved_forever {calls : ℕ → Call} (h : Behind model n p st) (hb : nonBlank p.2 = true)
    (hd : drifted model p = true) (hcalls : ∀ k, scanLimit ((calls k).cap * 4) ≤ n) (k : ℕ) :
    Stale model (afterRuns model st calls k) p.2 := by
  have hbehind : Behind model n p (afterRuns model st calls k) := by
    induction k with
    | zero => exact h
    | succ k ih => exact behind_backfill ih (hcalls k)
  obtain ⟨-, he, -, -⟩ := mem_resyncable.mp hbehind.1
  refine ⟨hb, ?_⟩
  rw [he, Option.all_some, Bool.or_eq_true]
  exact .inr hd

end Starvation

section Example

local instance asciiText : Interp := ascii fun _ ↦ none

def smallModel : Text := "BAAI/bge-small-en-v1.5".toList

def newHash : Text := "1c40601b16ede49980436c31f2c3b78302723f8ac117bc6302a9ff7cc42a31a4".toList

def oldHash : Text := "a95940b2cbf583707fa4d9789a2c1912baafb5351398ad18a72c6ef78f21fbfc".toList

def zeroHash : Text := List.replicate 64 '0'

/-- The digests of two texts; an empty vector stands for each embedding. -/
local instance twoDigests : Embedder where
  sha256 t :=
    if t = "A flaw.\n".toList ++ smallModel then newHash
    else if t = "A weakness.\n".toList ++ smallModel then oldHash
    else zeroHash
  embed _ _ := ⟨0, []⟩
  sha256_hex t := by
    have hnew : newHash ≠ [] ∧ newHash ⊆ "0123456789abcdef".toList := by decide +kernel
    have hold : oldHash ≠ [] ∧ oldHash ⊆ "0123456789abcdef".toList := by decide +kernel
    have hzero : zeroHash ≠ [] ∧ zeroHash ⊆ "0123456789abcdef".toList := by decide +kernel
    split
    · exact hnew
    · split
      · exact hold
      · exact hzero

def numberedCve (i : ℕ) : Cve := ⟨"CVE-2026-".toList ++ Nat.toDigits 10 (1000 + i), some "A flaw.".toList, none, none, none, none⟩

/-- All rows were embedded in January, the one of the last CVE with its description of then. -/
def numberedRow (i : ℕ) : Embedding :=
  ⟨"cve", (numberedCve i).cveId, smallModel, ⟨0, []⟩, if i = 32 then oldHash else newHash,
    some (if i = 32 then "2026-01-02 00:00:00".toList else "2026-01-01 00:00:00".toList)⟩

def changedLast : Store where
  cves := (List.range 33).map numberedCve
  embeddings := (List.range 33).map numberedRow
  ids := by decide +kernel
  upperIds := by decide +kernel
  keys := by decide +kernel

theorem behind_changedLast : Behind smallModel 32 (numberedRow 32, numberedCve 32) changedLast := by
  unfold Behind
  decide +kernel

theorem drifted_changedLast : drifted smallModel (numberedRow 32, numberedCve 32) = true := by decide +kernel

theorem stale_changedLast : ∀ c ∈ changedLast.cves, Stale smallModel changedLast c → c = numberedCve 32 := by decide +kernel

/-- With a cap of 1, the update of the last description is not embedded by a run, nor by any number of runs. -/
theorem update_never_embedded :
    ¬((∀ (st : Store) (call : Call), AnyStale smallModel st → EmbedsStale smallModel call st) ∨
      ∀ (st : Store) (calls : ℕ → Call), ∃ k, ¬AnyStale smallModel (afterRuns smallModel st calls k)) := by
  let calls : ℕ → Call := fun _ ↦ ⟨1, le_rfl, fun _ ↦ "2026-02-01 00:00:00".toList⟩
  have hforever : ∀ k, Stale smallModel (afterRuns smallModel changedLast calls k) (numberedCve 32) :=
    starved_forever behind_changedLast (by decide) drifted_changedLast fun _ ↦ le_rfl
  have hmem : ∀ k, numberedCve 32 ∈ (afterRuns smallModel changedLast calls k).cves := by
    intro k
    induction k with
    | zero => exact List.mem_map_of_mem (by decide)
    | succ k ih =>
      rw [afterRuns, cves_backfill le_rfl]
      exact ih
  rintro (hprogress | hfresh)
  · obtain ⟨c, hc, hs, hnot⟩ := hprogress changedLast (calls 0) ⟨_, hmem 0, hforever 0⟩
    rw [stale_changedLast c hc hs] at hnot
    exact hnot (hforever 1)
  · obtain ⟨k, hk⟩ := hfresh changedLast calls
    exact hk ⟨_, hmem k, hforever k⟩

end Example

end Briefr.Embeddings
