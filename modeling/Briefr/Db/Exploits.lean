import Briefr.Library.Runs
import Briefr.Library.UniqueIndex
import Briefr.Python.Loop
import Briefr.Python.Text

namespace Briefr.Db.Exploits

open Briefr.Python Briefr.Library.Runs Briefr.Library.UniqueIndex

variable [Interp]

/-- A row of `cve_exploits`; the columns taken from a card are stored as given. -/
structure Exploit where
  cveId : Text
  title : Value
  type : Value
  source : Value
  url : Text
  publishedDate : Value
  fetchedAt : Text

def Exploit.pair (e : Exploit) : Text × Text := (e.cveId, e.url)

/-- What a feed lists: the exploit cards of each CVE. -/
abbrev Catalog := List (Text × List Dict)

/-- `(exp.get("url") or "").strip()`. -/
def exploitUrl (exp : Dict) : Py Text := strip <$> (exp.get "url").orText

/-- `exp.get(key) or default`. -/
def cell (exp : Dict) (key : String) (default : String) : Value := (exp.get key).orElse (.str default)

def insertExploit (table : List Exploit) (row : Exploit) : List Exploit := insertIgnore Exploit.pair table row

/-- The loop of `merge_cve_exploits`, which counts the rows that went in. -/
def mergeExploits (key now : Text) : List Dict → ℕ → List Exploit → Py (List Exploit × ℕ)
  | [], inserted, table => .ok (table, inserted)
  | exp :: exploits, inserted, table => do
    let url ← exploitUrl exp
    if url = [] then mergeExploits key now exploits inserted table
    else
      let row : Exploit :=
        ⟨key, cell exp "title" "", cell exp "type" "poc", cell exp "source" "", url, cell exp "published_date" "", now⟩
      let table' := insertExploit table row
      mergeExploits key now exploits (inserted + (table'.length - table.length)) table'

def mergeCveExploits (table : List Exploit) (cveId : Text) (exploits : List Dict) (now : Text) :
    Py (List Exploit × ℕ) :=
  mergeExploits (upper cveId) now exploits 0 table

/-- The cards of the catalog in the order of the loops, each under the key of its CVE. -/
def cards (catalog : Catalog) : List (Text × Dict) := catalog.flatMap fun item ↦ item.2.map fun exp ↦ (upper item.1, exp)

def catalogRows (source now : Text) :
    List (Text × Dict) → List Exploit → List (Text × Text) → Py (List Exploit)
  | [], rows, _ => .ok rows
  | (key, exp) :: rest, rows, seen => do
    let url ← exploitUrl exp
    if url = [] then catalogRows source now rest rows seen
    else if (key, url) ∈ seen then catalogRows source now rest rows seen
    else
      let row : Exploit :=
        ⟨key, cell exp "title" "", cell exp "type" "poc", .str source, url, cell exp "published_date" "", now⟩
      catalogRows source now rest (rows ++ [row]) ((key, url) :: seen)

def Exploit.ownedBy (source : Text) (e : Exploit) : Bool :=
  match e.source with
  | .str s => s = source
  | _ => false

/-- `DELETE … WHERE source = ?`, then the rows of the catalog. -/
def replaceCveExploitsBySource (table : List Exploit) (source : Text) (catalog : Catalog) (now : Text) :
    Py (List Exploit × ℕ × ℕ) := do
  let kept := table.filter fun e ↦ !e.ownedBy source
  let rows ← catalogRows source now (cards catalog) [] []
  .ok (insertAllIgnore Exploit.pair kept rows, rows.length, catalog.length)

/-- The table, and beside it the most recent catalog of each source and what the merge calls brought. -/
structure World where
  table : List Exploit
  catalogs : Text → Catalog
  merges : Catalog

inductive Event
  | replace (source : Text) (catalog : Catalog) (now : Text)
  | merge (cveId : Text) (exploits : List Dict) (now : Text)

/-- A call that raises is rolled back. -/
def step (w : World) : Event → World
  | .replace source catalog now =>
    match replaceCveExploitsBySource w.table source catalog now with
    | .ok (table, _) => { w with table := table, catalogs := Function.update w.catalogs source catalog }
    | .error _ => w
  | .merge cveId exploits now =>
    match mergeCveExploits w.table cveId exploits now with
    | .ok (table, _) => { w with table := table, merges := (cveId, exploits) :: w.merges }
    | .error _ => w

def emptyWorld : World := ⟨[], fun _ ↦ [], []⟩

/-- A card of the CVE with the URL. -/
def Supplies (card : Text × Dict) (pair : Text × Text) : Prop :=
  card.1 = pair.1 ∧ exploitUrl card.2 = .ok pair.2 ∧ pair.2 ≠ []

/-- The pairs with a URL that a catalog contains. -/
def Lists (catalog : Catalog) (pair : Text × Text) : Prop := ∃ card ∈ cards catalog, Supplies card pair

/-- Each pair of a source's most recent catalog is there once, and each that is there came from one or from a merge. -/
structure World.Union (w : World) : Prop where
  complete : ∀ source pair, Lists (w.catalogs source) pair → (w.table.filter fun e ↦ e.pair = pair).length = 1
  supplied : ∀ e ∈ w.table, (∃ source, Lists (w.catalogs source) e.pair) ∨ Lists w.merges e.pair

/-- The text of each URL can be read. -/
def Readable (catalog : Catalog) : Prop := ∀ card ∈ cards catalog, ∃ url, exploitUrl card.2 = .ok url

/-- A source that drops a pair whose row is its own drops one that no other source lists. -/
def DropsOnlyItsOwn (w : World) : Event → Prop
  | .replace source catalog _ => Readable catalog →
      ∀ e ∈ w.table, e.ownedBy source → ∀ other, other ≠ source → Lists (w.catalogs other) e.pair → Lists catalog e.pair
  | .merge .. => True

end Briefr.Db.Exploits

namespace Briefr.Db.Exploits

open Briefr.Python Briefr.Library.Runs Briefr.Library.UniqueIndex

section Union

variable [Interp]

theorem lists_cons {cveId : Text} {exploits : List Dict} {catalog : Catalog} {pair : Text × Text} :
    Lists ((cveId, exploits) :: catalog) pair ↔
      (∃ exp ∈ exploits, Supplies (upper cveId, exp) pair) ∨ Lists catalog pair := by
  rw [Lists, cards, List.flatMap_cons]
  simp only [List.mem_append, or_and_right, exists_or]
  exact or_congr (by simp) Iff.rfl

section Rows

variable {source key now : Text}

/-- The rows of a catalog hold the pairs that it lists, and the source owns them. -/
theorem catalogRows_spec {l : List (Text × Dict)} {rows : List Exploit} {seen : List (Text × Text)} {result : List Exploit}
    (hseen : ∀ p, p ∈ seen ↔ p ∈ rows.map Exploit.pair) (hr : catalogRows source now l rows seen = .ok result) :
    (∀ p, p ∈ result.map Exploit.pair ↔ p ∈ rows.map Exploit.pair ∨ ∃ card ∈ l, Supplies card p) ∧
      ∀ e ∈ result, e ∈ rows ∨ e.ownedBy source := by
  induction l generalizing rows seen with
  | nil =>
    cases hr
    exact ⟨by simp, fun e he ↦ .inl he⟩
  | cons card l ih =>
    obtain ⟨key, exp⟩ := card
    rw [catalogRows, bind_eq_ok] at hr
    obtain ⟨url, hurl, hr⟩ := hr
    have hsupplies : ∀ p, Supplies (key, exp) p ↔ (key, url) = p ∧ url ≠ [] := by
      intro p
      rw [Supplies, hurl, Except.ok.injEq]
      constructor
      · intro ⟨hk, hu, hn⟩
        exact ⟨Prod.ext hk hu, hu ▸ hn⟩
      · rintro ⟨rfl, hn⟩
        exact ⟨rfl, rfl, hn⟩
    simp only [List.exists_mem_cons_iff, hsupplies]
    split at hr
    · rename_i hempty
      simpa [hempty] using ih hseen hr
    rename_i hurl'
    split at hr
    · rename_i hmem
      obtain ⟨hpairs, hsource⟩ := ih hseen hr
      refine ⟨fun p ↦ ?_, hsource⟩
      rw [hpairs]
      constructor
      · exact fun h ↦ h.imp_right .inr
      · rintro (h | ⟨rfl, _⟩ | h)
        · exact .inl h
        · exact .inl ((hseen _).mp hmem)
        · exact .inr h
    · have hseen' : ∀ (row : Exploit), row.pair = (key, url) → ∀ p, p ∈ (key, url) :: seen ↔
          p ∈ (rows ++ [row]).map Exploit.pair := by
        intro row hrow p
        rw [List.mem_cons, hseen, List.map_append, List.mem_append, List.map_singleton, List.mem_singleton, hrow, or_comm]
      obtain ⟨hpairs, hsource⟩ := ih (hseen' _ rfl) hr
      constructor
      · intro p
        rw [hpairs, List.map_append, List.mem_append, List.map_singleton, List.mem_singleton, or_assoc]
        refine or_congr_right (or_congr_left ?_)
        exact ⟨fun h ↦ ⟨h.symm, hurl'⟩, fun h ↦ h.1.symm⟩
      · intro e he
        rcases hsource e he with h | h
        · rcases List.mem_append.mp h with h | h
          · exact .inl h
          · rw [List.mem_singleton.mp h]
            exact .inr (decide_eq_true rfl)
        · exact .inr h

theorem catalogRows_defined {l : List (Text × Dict)} {rows : List Exploit} {seen : List (Text × Text)} :
    (∃ result, catalogRows source now l rows seen = .ok result) ↔ ∀ card ∈ l, ∃ url, exploitUrl card.2 = .ok url := by
  induction l generalizing rows seen with
  | nil => simp [catalogRows]
  | cons card l ih =>
    obtain ⟨key, exp⟩ := card
    rw [List.forall_mem_cons, catalogRows]
    cases hurl : exploitUrl exp with
    | error e => simp
    | ok url =>
      simp only [ok_bind]
      split
      · rw [ih]
        simp
      split
      · rw [ih]
        simp
      · rw [ih]
        simp

/-- A merge adds the pairs of its cards and leaves the rows that are there. -/
theorem mergeExploits_spec {l : List Dict} {n : ℕ} {table : List Exploit} {result : List Exploit × ℕ}
    (hnodup : (table.map Exploit.pair).Nodup) (hr : mergeExploits key now l n table = .ok result) :
    (result.1.map Exploit.pair).Nodup ∧ table ⊆ result.1 ∧
      ∀ e ∈ result.1, e ∈ table ∨ ∃ exp ∈ l, Supplies (key, exp) e.pair := by
  induction l generalizing n table with
  | nil =>
    cases hr
    exact ⟨hnodup, List.Subset.refl _, fun e he ↦ .inl he⟩
  | cons exp l ih =>
    rw [mergeExploits, bind_eq_ok] at hr
    obtain ⟨url, hurl, hr⟩ := hr
    split at hr
    · obtain ⟨hn, hs, he⟩ := ih hnodup hr
      exact ⟨hn, hs, fun e h ↦ (he e h).imp_right fun ⟨x, hx, h⟩ ↦ ⟨x, .tail _ hx, h⟩⟩
    · rename_i hurl'
      obtain ⟨hn, hs, he⟩ := ih (nodup_insertIgnore hnodup) hr
      refine ⟨hn, List.Subset.trans subset_insertIgnore hs, fun e h ↦ ?_⟩
      rcases he e h with h | ⟨x, hx, h⟩
      · rcases mem_insertIgnore h with h | rfl
        · exact .inl h
        · exact .inr ⟨exp, .head _, rfl, hurl, hurl'⟩
      · exact .inr ⟨x, .tail _ hx, h⟩

end Rows

variable {w : World}

theorem replace_ok {table : List Exploit} {source now : Text} {catalog : Catalog} {result : List Exploit × ℕ × ℕ}
    (h : replaceCveExploitsBySource table source catalog now = .ok result) :
    ∃ rows, catalogRows source now (cards catalog) [] [] = .ok rows ∧
      result.1 = insertAllIgnore Exploit.pair (table.filter fun e ↦ !e.ownedBy source) rows := by
  rw [replaceCveExploitsBySource, bind_eq_ok] at h
  obtain ⟨rows, hrows, h⟩ := h
  cases h
  exact ⟨rows, hrows, rfl⟩

theorem replace_error {table : List Exploit} {source now : Text} {catalog : Catalog} {e : Exc}
    (h : replaceCveExploitsBySource table source catalog now = .error e) : ¬Readable catalog := by
  intro hr
  obtain ⟨rows, hrows⟩ : ∃ rows, catalogRows source now (cards catalog) [] [] = .ok rows := catalogRows_defined.mpr hr
  rw [replaceCveExploitsBySource, hrows] at h
  cases h

theorem replace_readable {table : List Exploit} {source now : Text} {catalog : Catalog} {result : List Exploit × ℕ × ℕ}
    (h : replaceCveExploitsBySource table source catalog now = .ok result) : Readable catalog := by
  obtain ⟨rows, hrows, _⟩ := replace_ok h
  exact catalogRows_defined.mp ⟨rows, hrows⟩

structure Inv (w : World) : Prop where
  nodup : (w.table.map Exploit.pair).Nodup
  present : ∀ source pair, Lists (w.catalogs source) pair → pair ∈ w.table.map Exploit.pair
  /-- A row that no merge brought is in the most recent catalog of the source that owns it. -/
  owned : ∀ e ∈ w.table, Lists w.merges e.pair ∨ ∃ source, e.ownedBy source ∧ Lists (w.catalogs source) e.pair

theorem inv_empty : Inv emptyWorld where
  nodup := List.nodup_nil
  present := by
    intro source pair ⟨card, hcard, _⟩
    cases hcard
  owned := by
    intro e he
    cases he

theorem Inv.union (h : Inv w) : w.Union where
  complete := fun source pair hl ↦ length_filter_eq_one h.nodup (h.present source pair hl)
  supplied := by
    intro e he
    rcases h.owned e he with hm | ⟨source, _, hl⟩
    · exact .inr hm
    · exact .inl ⟨source, hl⟩

omit [Interp] in
theorem mem_kept {source : Text} {e : Exploit} :
    e ∈ w.table.filter (fun e ↦ !e.ownedBy source) ↔ e ∈ w.table ∧ e.ownedBy source = false := by
  rw [List.mem_filter, Bool.not_eq_eq_eq_not, Bool.not_true]

theorem Inv.replace (h : Inv w) {source now : Text} {catalog : Catalog} {result : List Exploit × ℕ × ℕ}
    (hr : replaceCveExploitsBySource w.table source catalog now = .ok result)
    (hc : ∀ e ∈ w.table, e.ownedBy source → ∀ other, other ≠ source → Lists (w.catalogs other) e.pair →
      Lists catalog e.pair) :
    Inv { w with table := result.1, catalogs := Function.update w.catalogs source catalog } := by
  obtain ⟨rows, hrows, htable⟩ := replace_ok hr
  obtain ⟨hpairs, hsource⟩ := catalogRows_spec (by simp) hrows
  simp only [htable]
  refine ⟨?_, ?_, ?_⟩
  · exact nodup_insertAllIgnore (h.nodup.sublist (List.filter_sublist.map _))
  · intro other pair hl
    rw [mem_keys_insertAllIgnore, hpairs]
    by_cases ho : other = source
    · subst ho
      simp only [Function.update_self] at hl
      exact .inr (.inr hl)
    · simp only [Function.update_of_ne ho] at hl
      obtain ⟨e, he, rfl⟩ := List.mem_map.mp (h.present other pair hl)
      cases hown : e.ownedBy source with
      | true => exact .inr (.inr (hc e he hown other ho hl))
      | false => exact .inl (List.mem_map_of_mem (mem_kept.mpr ⟨he, hown⟩))
  · intro e he
    rcases mem_insertAllIgnore he with he | he
    · obtain ⟨he, hown⟩ := mem_kept.mp he
      rcases h.owned e he with hm | ⟨other, hother, hl⟩
      · exact .inl hm
      · have ho : other ≠ source := by
          rintro rfl
          simp [hown] at hother
        exact .inr ⟨other, hother, by simpa only [Function.update_of_ne ho] using hl⟩
    · have hown := (hsource e he).resolve_left List.not_mem_nil
      refine .inr ⟨source, hown, ?_⟩
      simp only [Function.update_self]
      exact ((hpairs e.pair).mp (List.mem_map_of_mem he)).resolve_left List.not_mem_nil

theorem Inv.merge (h : Inv w) {cveId now : Text} {exploits : List Dict} {result : List Exploit × ℕ}
    (hr : mergeCveExploits w.table cveId exploits now = .ok result) :
    Inv { w with table := result.1, merges := (cveId, exploits) :: w.merges } := by
  obtain ⟨hnodup, hsubset, hnew⟩ := mergeExploits_spec h.nodup hr
  refine ⟨hnodup, fun source pair hl ↦ List.map_subset _ hsubset (h.present source pair hl), ?_⟩
  intro e he
  rw [lists_cons]
  rcases hnew e he with he | hs
  · exact (h.owned e he).imp_left .inr
  · exact .inl (.inl hs)

theorem Inv.step (h : Inv w) {event : Event} (hc : DropsOnlyItsOwn w event) : Inv (Exploits.step w event) := by
  cases event with
  | replace source catalog now =>
    cases hr : replaceCveExploitsBySource w.table source catalog now with
    | error e => simpa only [Exploits.step, hr] using h
    | ok result => simpa only [Exploits.step, hr] using h.replace hr (hc (replace_readable hr))
  | merge cveId exploits now =>
    cases hr : mergeCveExploits w.table cveId exploits now with
    | error e => simpa only [Exploits.step, hr] using h
    | ok result => simpa only [Exploits.step, hr] using h.merge hr

/-- The dropped pair is gone, though another source lists it. -/
theorem Inv.breaks (h : Inv w) {event : Event} (hc : ¬DropsOnlyItsOwn w event) : ¬(Exploits.step w event).Union := by
  cases event with
  | merge => exact absurd trivial hc
  | replace source catalog now =>
    simp only [DropsOnlyItsOwn, not_forall] at hc
    obtain ⟨hread, e, he, hown, other, ho, hl, hdropped⟩ := hc
    cases hr : replaceCveExploitsBySource w.table source catalog now with
    | error => exact absurd hread (replace_error hr)
    | ok result =>
      obtain ⟨rows, hrows, htable⟩ := replace_ok hr
      obtain ⟨hpairs, _⟩ := catalogRows_spec (by simp) hrows
      intro hunion
      simp only [Exploits.step, hr, htable] at hunion
      have hone := hunion.complete other e.pair (by simpa only [Function.update_of_ne ho] using hl)
      obtain ⟨e', he'⟩ := List.exists_mem_of_length_pos (hone.symm ▸ Nat.one_pos)
      obtain ⟨hmem, hpair⟩ := List.mem_filter.mp he'
      have hpair : e'.pair = e.pair := of_decide_eq_true hpair
      rcases mem_insertAllIgnore hmem with hk | hnew
      · obtain ⟨hk, hother⟩ := mem_kept.mp hk
        obtain rfl := List.inj_on_of_nodup_map h.nodup hk he hpair
        simp [hother] at hown
      · refine hdropped (hpair ▸ ((hpairs e'.pair).mp (List.mem_map_of_mem hnew)).resolve_left ?_)
        exact List.not_mem_nil

/-- The table is the union of the catalogs throughout exactly the runs in which no source drops a pair that another
source still lists and whose row it owns. -/
theorem exploits_union_iff (events : List Event) :
    (∀ before, before <+: events → (run step emptyWorld before).Union) ↔
      Along step DropsOnlyItsOwn emptyWorld events :=
  forall_prefix_iff (fun _ hi ↦ hi.union) (fun _ _ hi hc ↦ hi.step hc) (fun _ _ hi hc ↦ hi.breaks hc) inv_empty

end Union

section Shared

local instance exploitsInterp : Interp := ascii fun _ ↦ none

def sharedCard : Dict := [("url".toList, .str "https://github.com/a/poc".toList)]

/-- Both sources list the pair, and the one that stored it drops it. -/
def sharedPair : List Event :=
  [.replace "exploitdb" [("CVE-2024-0001", [sharedCard])] "t", .replace "nuclei" [("CVE-2024-0001", [sharedCard])] "t",
    .replace "exploitdb" [] "t"]

theorem exploits_not_union :
    ¬∀ events before, before <+: events → (run step emptyWorld before).Union := by
  intro h
  have hone := (h sharedPair sharedPair (List.prefix_refl _)).complete "nuclei"
    ("CVE-2024-0001".toList, "https://github.com/a/poc".toList)
    ⟨("CVE-2024-0001".toList, sharedCard), List.mem_singleton_self _, rfl, by decide +kernel, by decide⟩
  have hempty : (run step emptyWorld sharedPair).table.length = 0 := by decide +kernel
  rw [List.length_eq_zero_iff.mp hempty] at hone
  cases hone

end Shared

end Briefr.Db.Exploits
