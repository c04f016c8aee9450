import Briefr.Embeddings.Backfill
import Briefr.Library.Batches
import Briefr.Library.Runs
import Briefr.Python.Text

namespace Briefr.Embeddings

open Briefr.Python Briefr.Library Briefr.Library.StableSort Briefr.Library.CappedScan

section Texts

variable [Interp] {c : Cve}

def nonBlank (c : Cve) : Bool := strip (c.description.getD []) ≠ []

def hasText (c : Cve) : Bool := strip (buildCveEmbedText c) ≠ []

theorem hasText_of_nonBlank (h : nonBlank c = true) : hasText c = true := by
  have hne : strip (c.description.getD []) ≠ [] := of_decide_eq_true h
  obtain ⟨x, t, hx⟩ := List.exists_cons_of_ne_nil hne
  have hspace : isSpace x = false := isSpace_head_strip hx
  have hparts : ∃ parts, embedParts c = (x :: t) :: parts := by
    rw [embedParts, hx, List.filter_cons_of_pos (by simp)]
    exact ⟨_, rfl⟩
  obtain ⟨parts, hparts⟩ := hparts
  have hmem : x ∈ buildCveEmbedText c := by
    have hjoin : ∃ rest, ['\n'].intercalate (embedParts c) = x :: rest := by
      rw [hparts]
      cases parts with
      | nil => exact ⟨t, by simp [List.intercalate]⟩
      | cons part parts => exact ⟨_, by simp [List.intercalate]; rfl⟩
    obtain ⟨rest, hjoin⟩ := hjoin
    rw [buildCveEmbedText, hjoin]
    exact .head _
  refine decide_eq_true fun hnil ↦ ?_
  rw [strip_eq_nil.mp hnil x hmem] at hspace
  cases hspace

end Texts

section Hashes

variable [Interp] [Embedder] {model : Text} {c : Cve}

def currentHash (model : Text) (c : Cve) : Text := contentHashForEmbedText (buildCveEmbedText c) model

omit [Interp] in
theorem sha256_head (t : Text) : ∃ c s, sha256 t = c :: s ∧ c ∈ "0123456789abcdef".toList := by
  obtain ⟨hne, hhex⟩ := sha256_hex t
  obtain ⟨c, s, hs⟩ := List.exists_cons_of_ne_nil hne
  exact ⟨c, s, hs, hhex c (hs ▸ .head _)⟩

theorem currentHash_not_placeholder : isPlaceholderContentHash (currentHash model c) = false := by
  obtain ⟨d, s, hs, hd⟩ := sha256_head (strip (buildCveEmbedText c) ++ '\n' :: model)
  have hm : 'm' ≠ d := by
    rintro rfl
    revert hd
    decide
  rw [currentHash, contentHashForEmbedText, hs]
  simp [isPlaceholderContentHash, List.isPrefixOf, hm]

theorem currentHash_not_like : likeMigrated (currentHash model c) = false := by
  obtain ⟨d, s, hs, hd⟩ := sha256_head (strip (buildCveEmbedText c) ++ '\n' :: model)
  have hall : ("0123456789abcdef".toList.all fun d ↦ 'm' != d.toLower) = true := by decide
  have hm : 'm' ≠ d.toLower := bne_iff_ne.mp (List.all_eq_true.mp hall d hd)
  rw [currentHash, contentHashForEmbedText, hs]
  simp [likeMigrated, List.isPrefixOf, hm]

/-- The row is worth an embedding: it has text and no hash, or another hash than that of the text. -/
def wanted (model : Text) (row : FetchedRow) : Bool := hasText row.1 && decide (row.2 ≠ some (currentHash model row.1))

def pendingOf (model : Text) (row : FetchedRow) : Pending :=
  ⟨row.1.cveId, row.1.description.getD [], buildCveEmbedText row.1, currentHash model row.1, row.2⟩

theorem rowToPending_eq (row : FetchedRow) :
    rowToPending model row = if wanted model row = true then some (pendingOf model row) else none := by
  obtain ⟨c, existing⟩ := row
  have hfresh : (existing.any fun h ↦ decide (h ≠ [] ∧ isPlaceholderContentHash h = false ∧ h = currentHash model c)) = true ↔
      existing = some (currentHash model c) := by
    cases existing with
    | none => simp
    | some h =>
      simp only [Option.any_some, decide_eq_true_eq, Option.some.injEq]
      refine ⟨fun hh ↦ hh.2.2, ?_⟩
      rintro rfl
      exact ⟨(sha256_hex _).1, currentHash_not_placeholder, rfl⟩
  rw [currentHash] at hfresh
  by_cases ht : strip (buildCveEmbedText c) = []
  · simp [rowToPending, wanted, hasText, ht]
  · by_cases he : existing = some (currentHash model c)
    · rw [rowToPending]
      dsimp only
      rw [if_neg ht, if_pos (hfresh.mpr he)]
      simp [wanted, he]
    · rw [rowToPending]
      dsimp only
      rw [if_neg ht, if_neg fun h ↦ he (hfresh.mp h)]
      have hw : wanted model (c, existing) = true := by simp [wanted, hasText, ht, he]
      rw [if_pos hw]
      rfl

theorem collect_eq {capped : ℕ} {rows : List FetchedRow} {out : List Pending}
    (hd : (out.map Pending.cveId ++ rows.map fun row ↦ row.1.cveId).Nodup) (hl : out.length < capped) :
    collect model capped rows out = (out ++ (rows.filter (wanted model)).map (pendingOf model)).take capped := by
  induction rows generalizing out with
  | nil =>
    rw [collect, List.filter_nil, List.map_nil, List.append_nil, List.take_of_length_le hl.le]
  | cons row rows ih =>
    rw [List.map_cons] at hd
    rw [collect, rowToPending_eq]
    by_cases hw : wanted model row = true
    · have hnew : (pendingOf model row).cveId ∉ out.map Pending.cveId := by
        intro hm
        exact (List.nodup_append.mp hd).2.2 _ hm _ (.head _) rfl
      rw [if_pos hw, List.filter_cons_of_pos hw, List.map_cons]
      dsimp only
      rw [if_neg hnew]
      have hlen : (out ++ [pendingOf model row]).length = out.length + 1 := by simp
      split
      · rename_i hfull
        have heq : (out ++ [pendingOf model row]).length = capped := by omega
        rw [List.append_cons out _ (List.map _ _), List.take_left' heq]
      · rename_i hroom
        rw [ih ?_ (by omega), List.append_assoc]
        · rfl
        · rw [List.map_append, List.append_assoc]
          exact hd
    · rw [if_neg hw, List.filter_cons_of_neg hw]
      exact ih (hd.sublist ((List.sublist_cons_self _ _).append_left _)) hl

end Hashes

section Rows

variable [Interp] {st : Store} {model : Text} {c d : Cve} {e : Embedding} {p q : Embedding × Cve}

theorem embeddingOf_eq_some :
    st.embeddingOf model c = some e ↔ e ∈ st.embeddings ∧ e.key = ("cve".toList, c.cveId, model) :=
  UniqueIndex.find?_eq_some st.keys

theorem eq_of_cveId (hc : c ∈ st.cves) (hd : d ∈ st.cves) (h : c.cveId = d.cveId) : c = d :=
  List.inj_on_of_nodup_map st.ids hc hd h

theorem mem_resyncable : p ∈ resyncable st model ↔ p.2 ∈ st.cves ∧ st.embeddingOf model p.2 = some p.1 ∧
    likeMigrated p.1.contentHash = false ∧ p.2.described = true := by
  obtain ⟨e, c⟩ := p
  rw [embeddingOf_eq_some, resyncable, List.mem_filterMap]
  constructor
  · intro ⟨e', he', h⟩
    unfold resyncRow at h
    split at h
    · rename_i hcond
      obtain ⟨htype, hmodel, hlike⟩ := hcond
      obtain ⟨c', hc', hp⟩ := Option.map_eq_some_iff.mp h
      obtain ⟨hfind, hdescribed⟩ := Option.filter_eq_some_iff.mp hc'
      obtain ⟨hmem, hid⟩ := (UniqueIndex.find?_eq_some st.ids).mp hfind
      cases hp
      exact ⟨hmem, ⟨he', by rw [Embedding.key, htype, hmodel, ← hid]⟩, hlike, hdescribed⟩
    · cases h
  · intro ⟨hc, ⟨he, hk⟩, hlike, hdescribed⟩
    rw [Embedding.key, Prod.mk.injEq, Prod.mk.injEq] at hk
    obtain ⟨htype, hid, hmodel⟩ := hk
    refine ⟨e, he, ?_⟩
    have hfind : st.cves.find? (fun c ↦ c.cveId = e.entityId) = some c :=
      (UniqueIndex.find?_eq_some st.ids).mpr ⟨hc, hid.symm⟩
    rw [resyncRow, if_pos ⟨htype, hmodel, hlike⟩, hfind]
    simp [hdescribed]

theorem mem_needing : c ∈ st.cves.filter (needsEmbedding st model) ↔ c ∈ st.cves ∧ c.described = true ∧
    ∀ e, st.embeddingOf model c = some e → likeMigrated e.contentHash = true := by
  rw [List.mem_filter, needsEmbedding, Bool.and_eq_true]
  refine and_congr_right fun _ ↦ and_congr_right fun _ ↦ ?_
  cases st.embeddingOf model c with
  | none => simp
  | some e => simp

theorem resyncable_ids : ((resyncable st model).map fun p ↦ p.2.cveId).Nodup := by
  have hkeys : ((resyncable st model).map fun p ↦ p.1.key).Nodup := by
    refine st.keys.sublist ?_
    rw [resyncable]
    induction st.embeddings with
    | nil => exact List.Sublist.refl _
    | cons e l ih =>
      rw [List.filterMap_cons]
      split
      · exact ih.trans (List.sublist_cons_self _ _)
      · rename_i p hp
        have he : p.1 = e := by
          unfold resyncRow at hp
          split at hp
          · obtain ⟨c, -, rfl⟩ := Option.map_eq_some_iff.mp hp
            rfl
          · cases hp
        rw [List.map_cons, List.map_cons, he]
        exact ih.cons_cons _
  have hsame : ((resyncable st model).map fun p ↦ p.1.key) =
      ((resyncable st model).map fun p ↦ p.2.cveId).map fun i ↦ ("cve".toList, i, model) := by
    rw [List.map_map]
    exact List.map_congr_left fun p hp ↦ (embeddingOf_eq_some.mp (mem_resyncable.mp hp).2.1).2
  exact List.Nodup.of_map _ (hsame ▸ hkeys)

end Rows

section Candidates

variable [Interp] {st : Store} {model : Text} {n m : ℕ} {row : FetchedRow}

/-- A row of either query is a CVE with the hash that is stored for it. -/
theorem row_of_first (h : row ∈ cvesNeedingEmbeddings st model n) : row.1 ∈ st.cves.filter (needsEmbedding st model) ∧
    row.2 = (st.embeddingOf model row.1).map Embedding.contentHash := by
  obtain ⟨c, hc, rfl⟩ := List.mem_map.mp h
  exact ⟨(perm_sortBy _ _).mem_iff.mp (List.mem_of_mem_take hc), rfl⟩

theorem row_of_second (h : row ∈ cvesForHashResync st model n) : ∃ p ∈ resyncable st model,
    p ∈ (oldest st model).take n ∧ row = (p.2, some p.1.contentHash) := by
  obtain ⟨p, hp, rfl⟩ := List.mem_map.mp h
  exact ⟨p, (perm_sortBy _ _).mem_iff.mp (List.mem_of_mem_take hp), hp, rfl⟩

theorem candidate_ids :
    ((cvesNeedingEmbeddings st model n ++ cvesForHashResync st model m).map fun row ↦ row.1.cveId).Nodup := by
  rw [List.map_append, List.nodup_append]
  refine ⟨?_, ?_, ?_⟩
  · have hids : ((newest st model).map Cve.cveId).Nodup :=
      ((perm_sortBy _ _).map _).nodup_iff.mpr (st.ids.sublist (List.filter_sublist.map _))
    rw [cvesNeedingEmbeddings, List.map_map]
    exact hids.sublist ((List.take_sublist _ _).map _)
  · have hids : ((oldest st model).map fun p ↦ p.2.cveId).Nodup := ((perm_sortBy _ _).map _).nodup_iff.mpr resyncable_ids
    rw [cvesForHashResync, List.map_map]
    exact hids.sublist ((List.take_sublist _ _).map _)
  · intro i hi j hj hij
    obtain ⟨row, hrow, rfl⟩ := List.mem_map.mp hi
    obtain ⟨row', hrow', rfl⟩ := List.mem_map.mp hj
    obtain ⟨hc, -, hlike⟩ := mem_needing.mp (row_of_first hrow).1
    obtain ⟨p, hp, -, rfl⟩ := row_of_second hrow'
    obtain ⟨hd, he, hnot, -⟩ := mem_resyncable.mp hp
    rw [eq_of_cveId hc hd hij] at hlike
    rw [hlike _ he] at hnot
    cases hnot

variable [Embedder]

/-- The rows of both queries, the second as far as the first leaves room. -/
def candidates (st : Store) (model : Text) (capped : ℕ) : List FetchedRow :=
  cvesNeedingEmbeddings st model capped ++
    cvesForHashResync st model (scanLimit (capped - ((cvesNeedingEmbeddings st model capped).filter (wanted model)).length))

theorem getCvesNeedingEmbeddings_eq (st : Store) (model : Text) (limit : ℕ) : getCvesNeedingEmbeddings st model limit =
    (((candidates st model (max 1 limit)).filter (wanted model)).map (pendingOf model)).take (max 1 limit) := by
  have hpos : 0 < max 1 limit := by omega
  rw [getCvesNeedingEmbeddings]
  generalize max 1 limit = capped at hpos ⊢
  have hlen : ((cvesNeedingEmbeddings st model capped).filter (wanted model)).length ≤ capped := by
    refine (List.length_filter_le _ _).trans ?_
    rw [cvesNeedingEmbeddings, List.length_map, List.length_take]
    exact min_le_left _ _
  have hids : ((candidates st model capped).map fun row ↦ row.1.cveId).Nodup := candidate_ids
  rw [candidates, List.map_append] at hids
  have hfirst : collect model capped (cvesNeedingEmbeddings st model capped) [] =
      ((cvesNeedingEmbeddings st model capped).filter (wanted model)).map (pendingOf model) := by
    rw [collect_eq (by simpa using (List.nodup_append.mp hids).1) (by simpa using hpos), List.nil_append,
      List.take_of_length_le (by rwa [List.length_map])]
  rw [hfirst, List.length_map, candidates, List.filter_append, List.map_append]
  split
  · rename_i hfull
    have hroom : capped - ((cvesNeedingEmbeddings st model capped).filter (wanted model)).length = 0 := hfull
    rw [hroom]
    simp [cvesForHashResync, scanLimit, List.take_of_length_le, hlen]
  · rename_i hroom
    rw [collect_eq ?_ (by rw [List.length_map]; omega)]
    refine hids.sublist (List.Sublist.append_right ?_ _)
    rw [List.map_map]
    exact List.filter_sublist.map _

def picked (st : Store) (model : Text) (cap : ℕ) : List FetchedRow :=
  ((candidates st model (cap * 4)).filter (wanted model)).take cap

theorem pending_eq {cap : ℕ} (h : 1 ≤ cap) :
    (getCvesNeedingEmbeddings st model (cap * 4)).take cap = (picked st model cap).map (pendingOf model) := by
  rw [getCvesNeedingEmbeddings_eq, max_eq_right (by omega : 1 ≤ cap * 4), List.take_take, min_eq_left (by omega), picked,
    List.map_take]

theorem mem_picked {cap : ℕ} (h : row ∈ picked st model cap) : row ∈ candidates st model (cap * 4) ∧ wanted model row = true :=
  List.mem_filter.mp (List.mem_of_mem_take h)

theorem row_of_candidate (h : row ∈ candidates st model n) :
    row.1 ∈ st.cves ∧ row.2 = (st.embeddingOf model row.1).map Embedding.contentHash := by
  rcases List.mem_append.mp h with h | h
  · obtain ⟨hc, hhash⟩ := row_of_first h
    exact ⟨(mem_needing.mp hc).1, hhash⟩
  · obtain ⟨p, hp, -, rfl⟩ := row_of_second h
    obtain ⟨hc, he, -, -⟩ := mem_resyncable.mp hp
    exact ⟨hc, by rw [he]; rfl⟩

end Candidates

section Runs

variable [Interp] [Embedder] {st : Store} {model : Text} {cap : ℕ} {now : Text → Text} {c : Cve}

def written (model : Text) (now : Text → Text) (c : Cve) : Embedding :=
  ⟨"cve", c.cveId, model, embed model (buildCveEmbedText c), currentHash model c, some (now c.cveId)⟩

def writeAll (model : Text) (now : Text → Text) (st : Store) (cves : List Cve) : Store :=
  cves.foldl (fun st c ↦ upsertEmbeddingRow st (written model now c)) st

theorem cves_writeAll (cves : List Cve) : (writeAll model now st cves).cves = st.cves := by
  induction cves generalizing st with
  | nil => rfl
  | cons c cves ih => exact ih

theorem embeddingOf_writeAll {cves : List Cve} (h : ∀ d ∈ cves, d ∈ st.cves) (hc : c ∈ st.cves) :
    (writeAll model now st cves).embeddingOf model c =
      if c ∈ cves then some (written model now c) else st.embeddingOf model c := by
  induction cves generalizing st with
  | nil => rfl
  | cons d cves ih =>
    have hstep : (upsertEmbeddingRow st (written model now d)).embeddingOf model c =
        if d = c then some (written model now c) else st.embeddingOf model c := by
      rw [Store.embeddingOf, upsertEmbeddingRow, UniqueIndex.find?_upsert]
      by_cases hd : d = c
      · rw [hd, if_pos rfl]
        exact if_pos rfl
      · rw [if_neg hd, if_neg]
        · rfl
        · intro hk
          exact hd (eq_of_cveId (h d (.head _)) hc (Prod.mk.inj (Prod.mk.inj hk).2).1)
    have hrest : (writeAll model now st (d :: cves)).embeddingOf model c =
        if c ∈ cves then some (written model now c) else
          (upsertEmbeddingRow st (written model now d)).embeddingOf model c := ih (fun d hd ↦ h d (.tail _ hd)) hc
    rw [hrest, hstep]
    by_cases hm : c ∈ cves
    · rw [if_pos hm, if_pos (.tail _ hm)]
    · by_cases hd : d = c
      · rw [if_neg hm, if_pos hd, if_pos (hd ▸ .head _)]
      · rw [if_neg hm, if_neg hd, if_neg]
        intro hcons
        rcases List.mem_cons.mp hcons with he | hmem
        · exact hd he.symm
        · exact hm hmem

/-- One run of the backfill with embeddings writes enabled. -/
def backfill (model : Text) (cap : ℕ) (now : Text → Text) (st : Store) : Store :=
  (runEmbeddingsBackfill model cap true now st).2

def writeItem (model : Text) (now : Text → Text) (st : Store) (item : Pending) : Store :=
  upsertCveEmbeddingRow st item.cveId model (embed model item.embedText) item.contentHash (now item.cveId)

theorem embedBatch_eq (batch : List Pending) :
    embedBatch model true now st batch = batch.foldl (writeItem model now) st := by
  induction batch generalizing st with
  | nil => rfl
  | cons item batch ih => exact @ih (writeItem model now st item)

theorem foldl_writeItem {rows : List FetchedRow} (h : ∀ row ∈ rows, row.1 ∈ st.cves) :
    (rows.map (pendingOf model)).foldl (writeItem model now) st = writeAll model now st (rows.map Prod.fst) := by
  induction rows generalizing st with
  | nil => rfl
  | cons row rows ih =>
    have hrow : writeItem model now st (pendingOf model row) = upsertEmbeddingRow st (written model now row.1) := by
      have hupper : upper row.1.cveId = row.1.cveId := st.upperIds row.1 (h row (.head _))
      rw [writeItem, upsertCveEmbeddingRow, pendingOf, hupper]
      rfl
    rw [List.map_cons, List.foldl_cons, hrow]
    exact ih fun r hr ↦ h r (.tail _ hr)

theorem picked_mem {row : FetchedRow} (h : row ∈ picked st model cap) : row.1 ∈ st.cves :=
  (row_of_candidate (mem_picked h).1).1

theorem backfill_eq (h : 1 ≤ cap) : backfill model cap now st = writeAll model now st ((picked st model cap).map Prod.fst) := by
  have hstep : embedBatch model true now = fun st batch ↦ batch.foldl (writeItem model now) st := by
    funext st batch
    exact embedBatch_eq batch
  rw [backfill, runEmbeddingsBackfill]
  dsimp only
  rw [hstep, foldl_batches (by decide), pending_eq h, foldl_writeItem fun row hrow ↦ picked_mem hrow]

theorem cves_backfill (h : 1 ≤ cap) : (backfill model cap now st).cves = st.cves := by rw [backfill_eq h, cves_writeAll]

theorem embeddingOf_backfill (h : 1 ≤ cap) (hc : c ∈ st.cves) : (backfill model cap now st).embeddingOf model c =
    if c ∈ (picked st model cap).map Prod.fst then some (written model now c) else st.embeddingOf model c := by
  rw [backfill_eq h, embeddingOf_writeAll _ hc]
  intro d hd
  obtain ⟨row, hrow, rfl⟩ := List.mem_map.mp hd
  exact picked_mem hrow

/-- A CVE with a non-blank description whose embedding is missing, a placeholder or of another text. -/
def Stale (model : Text) (st : Store) (c : Cve) : Prop := nonBlank c = true ∧
  (st.embeddingOf model c).all (fun e ↦ isPlaceholderContentHash e.contentHash || e.contentHash ≠ currentHash model c) = true

instance decidableStale : DecidablePred (Stale model st) := fun _ ↦ inferInstanceAs (Decidable (_ = true ∧ _ = true))

theorem stale_iff_wanted : Stale model st c ↔ nonBlank c = true ∧
    wanted model (c, (st.embeddingOf model c).map Embedding.contentHash) = true := by
  refine and_congr_right fun hb ↦ ?_
  rw [wanted, hasText_of_nonBlank hb, Bool.true_and, decide_eq_true_eq]
  cases st.embeddingOf model c with
  | none => simp
  | some e =>
    simp only [Option.all_some, Bool.or_eq_true, decide_eq_true_eq, Option.map_some, ne_eq, Option.some.injEq]
    refine ⟨?_, .inr⟩
    rintro (hp | hne)
    · intro he
      rw [he, currentHash_not_placeholder] at hp
      cases hp
    · exact hne

theorem stale_backfill_iff (h : 1 ≤ cap) (hc : c ∈ st.cves) :
    Stale model (backfill model cap now st) c ↔ Stale model st c ∧ c ∉ (picked st model cap).map Prod.fst := by
  rw [Stale, embeddingOf_backfill h hc]
  by_cases hm : c ∈ (picked st model cap).map Prod.fst
  · rw [if_pos hm]
    have hfresh : (isPlaceholderContentHash (currentHash model c) || decide (currentHash model c ≠ currentHash model c)) = false := by
      rw [currentHash_not_placeholder]
      simp
    simp only [Option.all_some, written, hfresh, hm, Bool.false_eq_true, and_false, not_true_eq_false]
  · rw [if_neg hm, Stale]
    exact ⟨fun hs ↦ ⟨hs, hm⟩, And.left⟩

theorem exists_embedded_iff (h : 1 ≤ cap) :
    (∃ c ∈ st.cves, Stale model st c ∧ ¬Stale model (backfill model cap now st) c) ↔
      ∃ row ∈ picked st model cap, nonBlank row.1 = true := by
  constructor
  · intro ⟨c, hc, hs, hfresh⟩
    rw [stale_backfill_iff h hc] at hfresh
    have hm : c ∈ (picked st model cap).map Prod.fst := by
      by_contra hm
      exact hfresh ⟨hs, hm⟩
    obtain ⟨row, hrow, rfl⟩ := List.mem_map.mp hm
    exact ⟨row, hrow, hs.1⟩
  · intro ⟨row, hrow, hb⟩
    obtain ⟨hcand, hw⟩ := mem_picked hrow
    obtain ⟨hc, hhash⟩ := row_of_candidate hcand
    refine ⟨row.1, hc, stale_iff_wanted.mpr ⟨hb, ?_⟩, ?_⟩
    · rw [← hhash]
      exact hw
    · rw [stale_backfill_iff h hc]
      exact fun hs ↦ hs.2 (List.mem_map_of_mem hrow)

end Runs

section Progress

variable [Interp] [Embedder] {st : Store} {model : Text} {cap : ℕ} {now : Text → Text}

/-- There is text to embed although the description is blank. -/
def textOnly (c : Cve) : Bool := hasText c && !nonBlank c

def drifted (model : Text) (p : Embedding × Cve) : Bool := p.1.contentHash ≠ currentHash model p.2

/-- How many of the first `4 * cap` rows of the first query have text. -/
def taken (st : Store) (model : Text) (cap : ℕ) : ℕ := ((newest st model).take (cap * 4)).countP hasText

/-- A CVE with a non-blank description lies in one of the two windows. In the order of the first query it has fewer than
`4 * cap` rows before it; or it has drifted, and in the order of the second query it has fewer rows before it than are
scanned. Fewer than `cap` of the rows with text that come before it in its window are of other CVEs. -/
def Reached (model : Text) (cap : ℕ) (st : Store) : Prop :=
  (∃ c ∈ newest st model, nonBlank c = true ∧ (before (newest st model) c).length < cap * 4 ∧
    (before (newest st model) c).countP textOnly < cap) ∨
  ∃ p ∈ oldest st model, (nonBlank p.2 && drifted model p) = true ∧
    (before (oldest st model) p).length < scanLimit (cap * 4 - taken st model cap) ∧
    taken st model cap + (before (oldest st model) p).countP (fun q ↦ textOnly q.2 && drifted model q) < cap

theorem filter_first : (cvesNeedingEmbeddings st model (cap * 4)).filter (wanted model) =
    (((newest st model).take (cap * 4)).filter hasText).map fun c ↦ (c, (st.embeddingOf model c).map Embedding.contentHash) := by
  rw [cvesNeedingEmbeddings, List.filter_map]
  refine congrArg _ (List.filter_congr fun c hc ↦ ?_)
  have hneed := mem_needing.mp ((perm_sortBy _ _).mem_iff.mp (List.mem_of_mem_take hc))
  have hne : (st.embeddingOf model c).map Embedding.contentHash ≠ some (currentHash model c) := by
    intro h
    obtain ⟨e, he, hh⟩ := Option.map_eq_some_iff.mp h
    have hlike := hneed.2.2 e he
    rw [hh, currentHash_not_like] at hlike
    cases hlike
  rw [Function.comp_apply, wanted, decide_eq_true hne, Bool.and_true]

theorem length_filter_first : ((cvesNeedingEmbeddings st model (cap * 4)).filter (wanted model)).length = taken st model cap := by
  rw [filter_first, List.length_map, taken, List.countP_eq_length_filter]

theorem filter_second {n : ℕ} : (cvesForHashResync st model n).filter (wanted model) =
    (((oldest st model).take n).filter fun p ↦ hasText p.2 && drifted model p).map fun p ↦ (p.2, some p.1.contentHash) := by
  rw [cvesForHashResync, List.filter_map]
  refine congrArg _ (List.filter_congr fun p _ ↦ ?_)
  simp [wanted, drifted]

theorem exists_picked_iff : (∃ row ∈ picked st model cap, nonBlank row.1 = true) ↔ Reached model cap st := by
  have hfirst := exists_good_iff (fun c (h : nonBlank c = true) ↦ hasText_of_nonBlank h) (newest st model) (cap * 4) cap
  have hlive : ∀ p, (nonBlank p.2 && drifted model p) = true → (hasText p.2 && drifted model p) = true := by
    intro p hp
    obtain ⟨hb, hd⟩ := Bool.and_eq_true_iff.mp hp
    rw [hasText_of_nonBlank hb, hd]
    rfl
  have hsecond := exists_good_iff hlive (oldest st model) (scanLimit (cap * 4 - taken st model cap)) (cap - taken st model cap)
  have hother : (fun p : Embedding × Cve ↦ (hasText p.2 && drifted model p) && !(nonBlank p.2 && drifted model p)) =
      fun p ↦ textOnly p.2 && drifted model p := by
    funext p
    rw [textOnly]
    cases hasText p.2 <;> cases nonBlank p.2 <;> cases drifted model p <;> rfl
  rw [hother] at hsecond
  rw [picked, candidates, List.filter_append, length_filter_first, List.take_append, length_filter_first, Reached]
  simp only [List.mem_append, or_and_right, exists_or]
  refine or_congr ?_ ?_
  · rw [filter_first, ← List.map_take]
    refine Iff.trans ?_ hfirst
    constructor
    · rintro ⟨row, hrow, hb⟩
      obtain ⟨c, hc, rfl⟩ := List.mem_map.mp hrow
      exact ⟨c, hc, hb⟩
    · rintro ⟨c, hc, hb⟩
      exact ⟨_, List.mem_map_of_mem hc, hb⟩
  · rw [filter_second, ← List.map_take]
    refine Iff.trans (Iff.trans ?_ hsecond) ?_
    · constructor
      · rintro ⟨row, hrow, hb⟩
        obtain ⟨p, hp, rfl⟩ := List.mem_map.mp hrow
        have hlive := (List.mem_filter.mp (List.mem_of_mem_take hp)).2
        exact ⟨p, hp, by rw [hb, (Bool.and_eq_true_iff.mp hlive).2]; rfl⟩
      · rintro ⟨p, hp, hgood⟩
        exact ⟨_, List.mem_map_of_mem hp, (Bool.and_eq_true_iff.mp hgood).1⟩
    · refine exists_congr fun p ↦ and_congr_right fun _ ↦ and_congr_right fun _ ↦ and_congr_right fun _ ↦ ?_
      omega

/-- The cap of a run and the clock during it. -/
structure Call where
  cap : ℕ
  positive : 1 ≤ cap
  now : Text → Text

def AnyStale (model : Text) (st : Store) : Prop := ∃ c ∈ st.cves, Stale model st c

def EmbedsStale (model : Text) (call : Call) (st : Store) : Prop :=
  ∃ c ∈ st.cves, Stale model st c ∧ ¬Stale model (backfill model call.cap call.now st) c

/-- The database after so many runs, between which the CVEs stay as they are. -/
def afterRuns (model : Text) (st : Store) (calls : ℕ → Call) : ℕ → Store
  | 0 => st
  | k + 1 => backfill model (calls k).cap (calls k).now (afterRuns model st calls k)

theorem embedsStale_iff (call : Call) : EmbedsStale model call st ↔ Reached model call.cap st :=
  (exists_embedded_iff call.positive).trans exists_picked_iff

theorem stale_count_falls (call : Call) (h : EmbedsStale model call st) :
    (backfill model call.cap call.now st).cves.countP (Stale model (backfill model call.cap call.now st)) <
      st.cves.countP (Stale model st) := by
  obtain ⟨c, hc, hs, hfresh⟩ := h
  obtain ⟨l, r, hl⟩ := List.append_of_mem hc
  have hle : ∀ part : List Cve, part ⊆ st.cves → part.countP (Stale model (backfill model call.cap call.now st)) ≤
      part.countP (Stale model st) := by
    intro part hsub
    refine List.countP_mono_left fun d hd hstale ↦ ?_
    have hd := (stale_backfill_iff call.positive (hsub hd)).mp (of_decide_eq_true hstale)
    exact decide_eq_true hd.1
  rw [cves_backfill call.positive]
  have hleft := hle l (by rw [hl]; exact List.subset_append_left _ _)
  have hright := hle r (by rw [hl]; exact fun d hd ↦ List.mem_append_right _ (.tail _ hd))
  rw [hl, List.countP_append, List.countP_append, List.countP_cons, List.countP_cons, if_pos (decide_eq_true hs),
    if_neg (by simpa using hfresh)]
  omega

theorem exists_fresh {calls : ℕ → Call}
    (h : ∀ k, AnyStale model (afterRuns model st calls k) → Reached model (calls k).cap (afterRuns model st calls k)) :
    ∃ k, ¬AnyStale model (afterRuns model st calls k) := by
  let measure (k : ℕ) := (afterRuns model st calls k).cves.countP (Stale model (afterRuns model st calls k))
  refine @Runs.exists_done measure _ fun k hk ↦ ?_
  exact stale_count_falls (calls k) ((embedsStale_iff (calls k)).mpr (h k (not_not.mp hk)))

/-- A run embeds something stale, if anything is, exactly when the windows of the two queries reach it; and runs that do
so while anything is stale make everything fresh. -/
theorem backfill_progress_iff (model : Text) :
    (∀ (st : Store) (call : Call), (AnyStale model st → EmbedsStale model call st) ↔
      (AnyStale model st → Reached model call.cap st)) ∧
    ∀ (st : Store) (calls : ℕ → Call),
      (∀ k, AnyStale model (afterRuns model st calls k) → Reached model (calls k).cap (afterRuns model st calls k)) →
        ∃ k, ¬AnyStale model (afterRuns model st calls k) := by
  constructor
  · intro st call
    rw [embedsStale_iff]
  · intro st calls hreached
    exact exists_fresh hreached

omit [Embedder] in
theorem described_of_nonBlank {c : Cve} (h : nonBlank c = true) : c.described = true := by
  have hne : strip (c.description.getD []) ≠ [] := of_decide_eq_true h
  rw [Cve.described]
  cases hd : c.description with
  | none =>
    rw [hd] at hne
    exact absurd rfl hne
  | some d =>
    rw [hd] at hne
    refine decide_eq_true fun hnil ↦ hne ?_
    rw [Option.getD_some, hnil]
    rfl

omit [Embedder] in
theorem length_queries_le :
    (newest st model).length + (oldest st model).length ≤ (st.cves.filter Cve.described).length := by
  have hfirst : cvesNeedingEmbeddings st model (newest st model).length =
      (newest st model).map fun c ↦ (c, (st.embeddingOf model c).map Embedding.contentHash) := by
    rw [cvesNeedingEmbeddings, List.take_length]
  have hsecond : cvesForHashResync st model (oldest st model).length =
      (oldest st model).map fun p ↦ (p.2, some p.1.contentHash) := by
    rw [cvesForHashResync, List.take_length]
  have hnodup : ((cvesNeedingEmbeddings st model (newest st model).length ++
      cvesForHashResync st model (oldest st model).length).map Prod.fst).Nodup := by
    refine List.Nodup.of_map Cve.cveId ?_
    rw [List.map_map]
    exact candidate_ids
  have hsub : (cvesNeedingEmbeddings st model (newest st model).length ++
      cvesForHashResync st model (oldest st model).length).map Prod.fst ⊆ st.cves.filter Cve.described := by
    intro c hc
    obtain ⟨row, hrow, rfl⟩ := List.mem_map.mp hc
    rcases List.mem_append.mp hrow with h | h
    · obtain ⟨hc, hdescribed, -⟩ := mem_needing.mp (row_of_first h).1
      exact List.mem_filter.mpr ⟨hc, hdescribed⟩
    · obtain ⟨p, hp, -, rfl⟩ := row_of_second h
      obtain ⟨hc, -, -, hdescribed⟩ := mem_resyncable.mp hp
      exact List.mem_filter.mpr ⟨hc, hdescribed⟩
  have hle := (List.subperm_of_subset hnodup hsub).length_le
  rwa [hfirst, hsecond, List.length_map, List.length_append, List.length_map, List.length_map] at hle

/-- Where no more CVEs have a description than the cap, and no more than 2000, the windows reach every one. -/
theorem reached_of_few (h : (st.cves.filter Cve.described).length ≤ min cap 2000) (hs : AnyStale model st) :
    Reached model cap st := by
  obtain ⟨c, hc, hstale⟩ := hs
  have hlen : (newest st model).length + (oldest st model).length ≤ (st.cves.filter Cve.described).length :=
    length_queries_le
  have hdescribed := described_of_nonBlank hstale.1
  have hinside : ∀ {α : Type} [DecidableEq α] {l : List α} {x : α}, x ∈ l → (before l x).length < l.length := fun hx ↦
    length_before_of_mem_take (by rwa [List.take_length])
  by_cases hneed : ∀ e, st.embeddingOf model c = some e → likeMigrated e.contentHash = true
  · have hmem : c ∈ newest st model := (perm_sortBy _ _).mem_iff.mpr (mem_needing.mpr ⟨hc, hdescribed, hneed⟩)
    have hbefore := hinside hmem
    have hcount : (before (newest st model) c).countP textOnly ≤ _ := List.countP_le_length
    exact .inl ⟨c, hmem, hstale.1, by omega, by omega⟩
  · obtain ⟨e, he, hlike⟩ : ∃ e, st.embeddingOf model c = some e ∧ likeMigrated e.contentHash = false := by
      by_contra hn
      refine hneed fun e he ↦ ?_
      by_contra hlike
      exact hn ⟨e, he, by simpa using hlike⟩
    have hmem : (e, c) ∈ oldest st model := (perm_sortBy _ _).mem_iff.mpr (mem_resyncable.mpr ⟨hc, he, hlike, hdescribed⟩)
    have hbefore := hinside hmem
    have hcount : (before (oldest st model) (e, c)).countP (fun q ↦ textOnly q.2 && drifted model q) ≤ _ := List.countP_le_length
    have htaken : taken st model cap ≤ (newest st model).length :=
      List.countP_le_length.trans (List.length_take_le' _ _)
    have hdrift : drifted model (e, c) = true := by
      have hw := (stale_iff_wanted.mp hstale).2
      rw [he, wanted, Bool.and_eq_true] at hw
      simpa [drifted] using hw.2
    refine .inr ⟨(e, c), hmem, by rw [hstale.1, hdrift]; rfl, ?_, by omega⟩
    unfold scanLimit
    omega

/-- A database that is small against the cap is brought up to date. -/
theorem fresh_of_few (st : Store) (calls : ℕ → Call)
    (h : ∀ k, (st.cves.filter Cve.described).length ≤ min (calls k).cap 2000) :
    ∃ k, ¬AnyStale model (afterRuns model st calls k) := by
  have hcves : ∀ k, (afterRuns model st calls k).cves = st.cves := by
    intro k
    induction k with
    | zero => rfl
    | succ k ih => rw [afterRuns, cves_backfill (calls k).positive, ih]
  refine exists_fresh fun k ↦ reached_of_few ?_
  rw [hcves k]
  exact h k

end Progress

end Briefr.Embeddings
