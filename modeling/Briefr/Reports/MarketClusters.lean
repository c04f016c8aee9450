import Briefr.Library.Dict
import Briefr.Library.StableSort
import Briefr.Python.Text
import Mathlib.Algebra.BigOperators.Group.List.Lemmas
import Mathlib.Algebra.Order.BigOperators.Group.List
import Mathlib.Algebra.Order.Ring.Int
import Mathlib.Algebra.Order.Ring.Nat
import Mathlib.Data.List.Lex
import Mathlib.Data.Prod.Lex

namespace Briefr.Reports.MarketClusters

open Briefr.Python Briefr.Library Briefr.Library.StableSort

def unanalyzedLabel : Text := "unanalyzed".toList

def unmappedDisplay : Text := "Unmapped".toList

def productLimit : ℕ := 8

inductive Severity
  | critical
  | high
  | medium
  | low
  deriving DecidableEq

/-- A row of the window. -/
structure Row where
  severity : Value
  cpeMatches : Value
  affectedProducts : Value

structure Counts where
  total : ℕ
  critical : ℕ
  high : ℕ
  medium : ℕ
  low : ℕ
  deriving DecidableEq

def Counts.of (c : Counts) : Severity → ℕ
  | .critical => c.critical
  | .high => c.high
  | .medium => c.medium
  | .low => c.low

def Counts.none : Counts := ⟨0, 0, 0, 0, 0⟩

def Counts.count (c : Counts) (s : Severity) : Counts where
  total := c.total + 1
  critical := c.critical + if s = .critical then 1 else 0
  high := c.high + if s = .high then 1 else 0
  medium := c.medium + if s = .medium then 1 else 0
  low := c.low + if s = .low then 1 else 0

/-- The clusters with the vendors of their keys, and the totals of all rows. -/
structure Clusters where
  severityTotals : Counts
  clusters : Dict Text Counts
  clusterVendors : Dict Text Text

def Clusters.empty : Clusters := ⟨.none, .empty, .empty⟩

def clusterWeight (c h m l : ℕ) : ℕ := c * 100 + h * 3 + m + l * 0

/-- The vendor of a cluster after a row that names one: a cluster of two vendors is nobody's. -/
def joinVendor (existing : Option Text) (vendor : Text) : Text :=
  match existing with
  | none => vendor
  | some old => if old ≠ [] ∧ old ≠ vendor then [] else old

structure Product where
  label : Text
  vendor : Text
  product : Text
  counts : Counts
  deriving DecidableEq

structure Market where
  published : ℕ
  severityTotals : Counts
  unmapped : ℕ
  products : List Product
  omittedProducts : ℕ

section
variable [Interp]

def severityOf (row : Row) : Severity :=
  let severity := lower (strip (strOr row.severity))
  if severity = "critical".toList then .critical
  else if severity = "high".toList then .high
  else if severity = "low".toList then .low
  else .medium

def parseList : Value → List Value
  | .list l => l
  | .str text =>
    if strip text = [] then []
    else match loads text with
      | some (.list l) => l
      | _ => []
  | _ => []

def productKey : Value → Text
  | .str text => lower (strip text)
  | _ => []

def cpeVendorProduct : Value → Option (Text × Text)
  | .dict fields =>
    let product := productKey ((fields.lookup "product".toList).getD .none)
    if product = [] then none else some (productKey ((fields.lookup "vendor".toList).getD .none), product)
  | _ => none

def affectedVendorProduct (affected : Value) : Option (Text × Text) :=
  let raw := productKey affected
  if raw = [] then none
  else if ':' ∈ raw then
    let parts := splitColon raw
    some (parts.1, if parts.2 = [] then unanalyzedLabel else parts.2)
  else some ([], raw)

def primaryVendorProduct (row : Row) : Text × Text :=
  match (parseList row.cpeMatches).findSome? cpeVendorProduct with
  | some found => found
  | none => ((parseList row.affectedProducts).findSome? affectedVendorProduct).getD ([], unanalyzedLabel)

def spaced (text : Text) : Text := strip (text.map fun c ↦ if c = '_' then ' ' else c)

/-- `display_name_for` without a title. -/
def displayNameFor (vendor product : Text) : Text :=
  let prod := spaced product
  let vend := spaced vendor
  if vend ≠ [] ∧ vend ≠ ['*'] ∧ vend ≠ ['-'] ∧ prod ≠ [] then (vend ++ ' ' :: prod).take 200
  else (if prod ≠ [] then prod else if vend ≠ [] then vend else "unknown".toList).take 200

def productDisplayLabel (catalogTitles : Text × Text → Option Text) (vendor product : Text) : Text :=
  let key := lower (strip product)
  let vend := lower (strip vendor)
  if key = [] ∨ key = unanalyzedLabel then unmappedDisplay
  else if vend ≠ [] then
    let catalog := strip ((catalogTitles (vend, key)).getD [])
    if catalog ≠ [] then catalog else displayNameFor vend key
  else key.map fun c ↦ if c = '_' then ' ' else c

def addRow (c : Clusters) (row : Row) : Clusters :=
  let severity := severityOf row
  let (vendor, key) := primaryVendorProduct row
  { severityTotals := c.severityTotals.count severity
    clusterVendors :=
      if vendor = [] then c.clusterVendors
      else c.clusterVendors.set key (joinVendor (c.clusterVendors.get? key) vendor)
    clusters := c.clusters.set key (((c.clusters.get? key).getD .none).count severity) }

def clusterRows (rows : List Row) : Clusters := rows.foldl addRow .empty

/-- A cluster with its vendor and its label. -/
def resolve (catalogTitles : Text × Text → Option Text) (c : Clusters) (entry : Text × Counts) : Product :=
  let vendor := (c.clusterVendors.get? entry.1).getD []
  ⟨productDisplayLabel catalogTitles vendor entry.1, vendor, entry.1, entry.2⟩

/-- The label that is shown: a label that several clusters have gives way to the key. -/
def display (resolved : List Product) (p : Product) : Product :=
  { p with
    label :=
      if p.product = unanalyzedLabel then unmappedDisplay
      else if 1 < resolved.countP fun q ↦ q.label = p.label then p.product
      else p.label }

def unsortedProducts (catalogTitles : Text × Text → Option Text) (c : Clusters) : List Product :=
  let resolved := c.clusters.items.map (resolve catalogTitles c)
  resolved.map (display resolved)

def sortKey (p : Product) : ℤ ×ₗ ℤ ×ₗ Text :=
  toLex (-(clusterWeight p.counts.critical p.counts.high p.counts.medium p.counts.low : ℤ),
    toLex (-(p.counts.total : ℤ), p.label))

/-- The products before the list is cut. -/
def allProducts (catalogTitles : Text × Text → Option Text) (c : Clusters) : List Product :=
  sortBy sortKey (unsortedProducts catalogTitles c)

def clusterPublished (catalogTitles : Text × Text → Option Text) (rows : List Row) : Market :=
  let c := clusterRows rows
  let products := allProducts catalogTitles c
  { published := rows.length
    severityTotals := c.severityTotals
    unmapped := ((c.clusters.get? unanalyzedLabel).map Counts.total).getD 0
    products := products.take productLimit
    omittedProducts := products.length - productLimit }

end

def isUnmappedProduct (p : Product) : Bool :=
  p.label == unmappedDisplay || p.label == unanalyzedLabel || p.product == unanalyzedLabel

structure Coverage where
  published : ℕ
  unmapped : ℕ
  named : ℕ

def unmappedCoverage (market : Market) : Coverage :=
  let unmapped :=
    if market.unmapped = 0 then ((market.products.filter isUnmappedProduct).map fun p ↦ p.counts.total).sum
    else market.unmapped
  ⟨market.published, unmapped, market.published - unmapped⟩

/-- A number that every counted row adds to by its severity. -/
structure Additive (f : Counts → ℕ) (weight : Severity → ℕ) : Prop where
  none : f .none = 0
  count : ∀ c s, f (c.count s) = f c + weight s

theorem additive_total : Additive Counts.total fun _ ↦ 1 := ⟨rfl, fun _ _ ↦ rfl⟩

theorem additive_of (s : Severity) : Additive (fun c ↦ c.of s) fun t ↦ if t = s then 1 else 0 := by
  cases s with
  | critical => exact ⟨rfl, fun _ _ ↦ rfl⟩
  | high => exact ⟨rfl, fun _ _ ↦ rfl⟩
  | medium => exact ⟨rfl, fun _ _ ↦ rfl⟩
  | low => exact ⟨rfl, fun _ _ ↦ rfl⟩

def Counts.Balanced (c : Counts) : Prop := c.total = c.critical + c.high + c.medium + c.low

theorem balanced_count {c : Counts} (h : c.Balanced) (s : Severity) : (c.count s).Balanced := by
  have hold : c.total = c.critical + c.high + c.medium + c.low := h
  cases s with
  | critical => simp [Counts.Balanced, Counts.count]; omega
  | high => simp [Counts.Balanced, Counts.count]; omega
  | medium => simp [Counts.Balanced, Counts.count]; omega
  | low => simp [Counts.Balanced, Counts.count]; omega

theorem get?_set_eq {ν : Type} (d : Dict Text ν) (k : Text) (v : ν) :
    (d.set k v).get? = Function.update d.get? k (some v) := by
  funext k'
  rw [Dict.get?_set, Function.update_apply]

theorem count_count (c : Counts) (s t : Severity) : (c.count s).count t = (c.count t).count s := by
  rw [Counts.count, Counts.count, Counts.count, Counts.count, Counts.mk.injEq]
  exact ⟨rfl, Nat.add_right_comm _ _ _, Nat.add_right_comm _ _ _, Nat.add_right_comm _ _ _, Nat.add_right_comm _ _ _⟩

theorem joinVendor_comm (existing : Option Text) {v w : Text} (hv : v ≠ []) (hw : w ≠ []) :
    joinVendor (some (joinVendor existing v)) w = joinVendor (some (joinVendor existing w)) v := by
  have hpair : joinVendor (some v) w = joinVendor (some w) v := by
    by_cases heq : v = w
    · rw [heq]
    · rw [joinVendor, joinVendor, if_pos ⟨hv, heq⟩, if_pos ⟨hw, Ne.symm heq⟩]
  cases existing with
  | none => exact hpair
  | some old =>
    by_cases hold : old = []
    · simp [joinVendor, hold]
    · by_cases hov : old = v
      · by_cases how : old = w
        · rw [← hov, ← how]
        · simp [joinVendor, hov, hv, hov ▸ how]
      · by_cases how : old = w
        · simp [joinVendor, how, hw, how ▸ hov]
        · simp [joinVendor, hold, hov, how]

theorem update_comm_of {ν : Type} (f : Text → Option ν) (k l : Text) (g h : Option ν → Option ν)
    (hcomm : h (g (f k)) = g (h (f k))) :
    Function.update (Function.update f k (g (f k))) l (h (Function.update f k (g (f k)) l)) =
      Function.update (Function.update f l (h (f l))) k (g (Function.update f l (h (f l)) k)) := by
  by_cases hkl : k = l
  · subst hkl
    simp [hcomm]
  · rw [Function.update_of_ne (Ne.symm hkl), Function.update_of_ne hkl, Function.update_comm hkl]

theorem sum_indicator {α : Type} (p : α → Prop) [DecidablePred p] (l : List α) :
    (l.map fun x ↦ if p x then 1 else 0).sum = l.countP p := by
  induction l with
  | nil => rfl
  | cons x l ih =>
    rw [List.map_cons, List.sum_cons, ih, List.countP_cons, Nat.add_comm]
    simp

section
variable [Interp]

/-- What the clusters say of each key. -/
abbrev View := Counts × (Text → Option Counts) × (Text → Option Text)

def Clusters.view (c : Clusters) : View := (c.severityTotals, c.clusters.get?, c.clusterVendors.get?)

def addView (v : View) (row : Row) : View :=
  let key := (primaryVendorProduct row).2
  let vendor := (primaryVendorProduct row).1
  (v.1.count (severityOf row),
    Function.update v.2.1 key (some (((v.2.1 key).getD .none).count (severityOf row))),
    if vendor = [] then v.2.2 else Function.update v.2.2 key (some (joinVendor (v.2.2 key) vendor)))

theorem view_addRow (c : Clusters) (row : Row) : (addRow c row).view = addView c.view row := by
  rw [Clusters.view, addView, addRow]
  dsimp only
  rw [get?_set_eq]
  split
  · rfl
  · rw [get?_set_eq]
    rfl

/-- The clusters do not tell which of two rows came first. -/
theorem addView_comm (v : View) (r s : Row) : addView (addView v r) s = addView (addView v s) r := by
  have hcounts := update_comm_of v.2.1 (primaryVendorProduct r).2 (primaryVendorProduct s).2
    (fun o ↦ some ((o.getD .none).count (severityOf r))) (fun o ↦ some ((o.getD .none).count (severityOf s)))
    (congrArg some (count_count _ _ _))
  refine Prod.ext (count_count _ _ _) (Prod.ext hcounts ?_)
  rw [addView, addView, addView, addView]
  dsimp only
  by_cases hr : (primaryVendorProduct r).1 = []
  · simp only [if_pos hr]
  · by_cases hs : (primaryVendorProduct s).1 = []
    · simp only [if_pos hs]
    · simp only [if_neg hr, if_neg hs]
      exact update_comm_of v.2.2 (primaryVendorProduct r).2 (primaryVendorProduct s).2
        (fun o ↦ some (joinVendor o (primaryVendorProduct r).1))
        (fun o ↦ some (joinVendor o (primaryVendorProduct s).1))
        (congrArg some (joinVendor_comm _ hr hs))

theorem view_clusterRows (rows : List Row) : (clusterRows rows).view = rows.foldl addView Clusters.empty.view := by
  have hfold : ∀ c : Clusters, (rows.foldl addRow c).view = rows.foldl addView c.view := by
    induction rows with
    | nil => exact fun c ↦ rfl
    | cons row rows ih =>
      intro c
      rw [List.foldl_cons, ih, view_addRow, List.foldl_cons]
  exact hfold .empty

theorem view_of_perm {rows rows' : List Row} (h : rows.Perm rows') :
    (clusterRows rows).view = (clusterRows rows').view := by
  have hcomm : RightCommutative addView := ⟨addView_comm⟩
  rw [view_clusterRows, view_clusterRows, h.foldl_eq]

theorem sum_clusters {f : Counts → ℕ} {weight : Severity → ℕ} (h : Additive f weight) (rows : List Row) :
    ((clusterRows rows).clusters.items.map fun entry ↦ f entry.2).sum = f (clusterRows rows).severityTotals := by
  induction rows using List.reverseRecOn with
  | nil => exact h.none.symm
  | append_singleton rows row ih =>
    have hstep : clusterRows (rows ++ [row]) = addRow (clusterRows rows) row := List.foldl_append
    have hset := Dict.sum_set f (clusterRows rows).clusters (primaryVendorProduct row).2
      ((((clusterRows rows).clusters.get? (primaryVendorProduct row).2).getD .none).count (severityOf row))
    have hold : f (((clusterRows rows).clusters.get? (primaryVendorProduct row).2).getD .none) =
        (((clusterRows rows).clusters.get? (primaryVendorProduct row).2).map f).getD 0 := by
      cases (clusterRows rows).clusters.get? (primaryVendorProduct row).2 with
      | none => exact h.none
      | some counts => rfl
    rw [hstep, addRow]
    dsimp only
    rw [h.count, ← ih]
    rw [h.count] at hset
    omega

theorem severityTotals_eq {f : Counts → ℕ} {weight : Severity → ℕ} (h : Additive f weight) (rows : List Row) :
    f (clusterRows rows).severityTotals = (rows.map fun row ↦ weight (severityOf row)).sum := by
  induction rows using List.reverseRecOn with
  | nil => exact h.none
  | append_singleton rows row ih =>
    have hstep : clusterRows (rows ++ [row]) = addRow (clusterRows rows) row := List.foldl_append
    rw [hstep, addRow]
    dsimp only
    rw [h.count, ih, List.map_append, List.sum_append]
    rfl

theorem balanced_clusters (rows : List Row) : ∀ entry ∈ (clusterRows rows).clusters.items, entry.2.Balanced := by
  have hget : ∀ key counts, (clusterRows rows).clusters.get? key = some counts → counts.Balanced := by
    induction rows using List.reverseRecOn with
    | nil => exact fun key counts h ↦ by cases h
    | append_singleton rows row ih =>
      intro key counts h
      have hstep : clusterRows (rows ++ [row]) = addRow (clusterRows rows) row := List.foldl_append
      rw [hstep, addRow] at h
      dsimp only at h
      rw [Dict.get?_set] at h
      split at h
      next =>
        obtain rfl := Option.some.inj h
        refine balanced_count ?_ _
        cases hold : (clusterRows rows).clusters.get? (primaryVendorProduct row).2 with
        | none => rfl
        | some old => exact ih _ old hold
      next => exact ih key counts h
  exact fun entry hentry ↦ hget entry.1 entry.2 (Dict.mem_items_iff.mp hentry)

section
variable (catalogTitles : Text × Text → Option Text)

theorem map_counts_unsorted (c : Clusters) :
    (unsortedProducts catalogTitles c).map Product.counts = c.clusters.items.map Prod.snd := by
  rw [unsortedProducts, List.map_map, List.map_map]
  rfl

theorem sum_products (f : Counts → ℕ) (c : Clusters) :
    ((allProducts catalogTitles c).map fun p ↦ f p.counts).sum = (c.clusters.items.map fun entry ↦ f entry.2).sum := by
  have hperm := ((perm_sortBy sortKey (unsortedProducts catalogTitles c)).map fun p ↦ f p.counts).sum_eq
  have hcounts := congrArg (List.map f) (map_counts_unsorted catalogTitles c)
  rw [List.map_map, List.map_map] at hcounts
  rw [allProducts, hperm]
  exact congrArg List.sum hcounts

/-- Each row is counted once: in the totals, and in one product, under its severity. -/
theorem market_conserves (rows : List Row) :
    let market := clusterPublished catalogTitles rows
    let products := allProducts catalogTitles (clusterRows rows)
    (products.map fun p ↦ p.counts.total).sum = rows.length ∧
      (∀ s, (products.map fun p ↦ p.counts.of s).sum = rows.countP (fun row ↦ severityOf row = s) ∧
        market.severityTotals.of s = rows.countP fun row ↦ severityOf row = s) ∧
      (∀ p ∈ products, p.counts.Balanced) ∧
      (unmappedCoverage market).unmapped + (unmappedCoverage market).named = rows.length ∧
      market.products ++ products.drop productLimit = products ∧
        market.omittedProducts = (products.drop productLimit).length := by
  intro market products
  have hlength : (clusterRows rows).severityTotals.total = rows.length := by
    rw [severityTotals_eq additive_total]
    simp
  have htotal : (products.map fun p ↦ p.counts.total).sum = rows.length := by
    rw [sum_products catalogTitles Counts.total, sum_clusters additive_total, hlength]
  have hseverity : ∀ s, (clusterRows rows).severityTotals.of s = rows.countP fun row ↦ severityOf row = s := by
    intro s
    rw [severityTotals_eq (additive_of s), sum_indicator]
  have hcovered : (unmappedCoverage market).unmapped ≤ rows.length := by
    rw [unmappedCoverage]
    dsimp only
    split
    · have hsub : (market.products.filter isUnmappedProduct).Sublist products :=
        List.filter_sublist.trans (List.take_sublist _ _)
      rw [← htotal]
      exact (hsub.map fun p ↦ p.counts.total).sum_le_sum fun _ _ ↦ Nat.zero_le _
    next hne =>
      rw [← hlength, ← sum_clusters additive_total]
      cases hget : (clusterRows rows).clusters.get? unanalyzedLabel with
      | none =>
        have hzero : market.unmapped = 0 := by
          change (((clusterRows rows).clusters.get? unanalyzedLabel).map Counts.total).getD 0 = 0
          rw [hget]
          rfl
        exact absurd hzero hne
      | some counts =>
        have hunmapped : market.unmapped = counts.total := by
          change (((clusterRows rows).clusters.get? unanalyzedLabel).map Counts.total).getD 0 = counts.total
          rw [hget]
          rfl
        rw [hunmapped]
        exact List.le_sum_of_mem (List.mem_map_of_mem (Dict.mem_items_iff.mpr hget))
  refine ⟨htotal, fun s ↦ ⟨?_, hseverity s⟩, ?_, ?_, List.take_append_drop _ _, ?_⟩
  · rw [sum_products catalogTitles fun c ↦ c.of s, sum_clusters (additive_of s), hseverity]
  · intro p hp
    have hunsorted := (perm_sortBy sortKey _).mem_iff.mp hp
    have hcounts := List.mem_map_of_mem (f := Product.counts) hunsorted
    rw [map_counts_unsorted] at hcounts
    obtain ⟨entry, hentry, heq⟩ := List.mem_map.mp hcounts
    rw [← heq]
    exact balanced_clusters rows entry hentry
  · exact Nat.add_sub_cancel' hcovered
  · exact List.length_drop.symm

/-- The order of the rows shows in the order of the products alone, and there in none but those of one weight, one total
and one label. -/
theorem market_of_perm {rows rows' : List Row} (h : rows.Perm rows') :
    let market := clusterPublished catalogTitles rows
    let market' := clusterPublished catalogTitles rows'
    market.published = market'.published ∧ market.severityTotals = market'.severityTotals ∧
      market.unmapped = market'.unmapped ∧ market.omittedProducts = market'.omittedProducts ∧
      (allProducts catalogTitles (clusterRows rows)).Perm (allProducts catalogTitles (clusterRows rows')) ∧
      market.products.map sortKey = market'.products.map sortKey ∧
      ((∀ p ∈ allProducts catalogTitles (clusterRows rows), ∀ q ∈ allProducts catalogTitles (clusterRows rows),
        sortKey p = sortKey q → p = q) → market.products = market'.products) := by
  intro market market'
  have hview := view_of_perm h
  have hclusters : (clusterRows rows).clusters.get? = (clusterRows rows').clusters.get? :=
    congrArg (fun v : View ↦ v.2.1) hview
  have hvendors : (clusterRows rows).clusterVendors.get? = (clusterRows rows').clusterVendors.get? :=
    congrArg (fun v : View ↦ v.2.2) hview
  have hresolve : resolve catalogTitles (clusterRows rows) = resolve catalogTitles (clusterRows rows') := by
    funext entry
    rw [resolve, resolve, hvendors]
  have hresolved := (Dict.perm_items hclusters).map (resolve catalogTitles (clusterRows rows))
  have hdisplay : display ((clusterRows rows).clusters.items.map (resolve catalogTitles (clusterRows rows))) =
      display ((clusterRows rows').clusters.items.map (resolve catalogTitles (clusterRows rows))) := by
    funext p
    rw [display, display, hresolved.countP_eq]
  have hunsorted : (unsortedProducts catalogTitles (clusterRows rows)).Perm
      (unsortedProducts catalogTitles (clusterRows rows')) := by
    rw [unsortedProducts, unsortedProducts, hdisplay, ← hresolve]
    exact hresolved.map _
  have hall : (allProducts catalogTitles (clusterRows rows)).Perm (allProducts catalogTitles (clusterRows rows')) :=
    (perm_sortBy _ _).trans (hunsorted.trans (perm_sortBy _ _).symm)
  have hkeys : (allProducts catalogTitles (clusterRows rows)).map sortKey =
      (allProducts catalogTitles (clusterRows rows')).map sortKey := by
    refine (hall.map sortKey).eq_of_pairwise (fun a b _ _ hab hba ↦ le_antisymm hab hba) ?_ ?_
    · exact List.pairwise_map.mpr (pairwise_sortBy _ _)
    · exact List.pairwise_map.mpr (pairwise_sortBy _ _)
  refine ⟨h.length_eq, congrArg (fun v : View ↦ v.1) hview, ?_, ?_, hall, ?_, fun hties ↦ ?_⟩
  · exact congrArg (fun get? ↦ ((get? unanalyzedLabel).map Counts.total).getD 0) hclusters
  · exact congrArg (· - productLimit) hall.length_eq
  · exact (List.map_take.trans (congrArg (List.take productLimit) hkeys)).trans List.map_take.symm
  · have heq := eq_of_perm_of_sorted sortKey hall (pairwise_sortBy _ _) (pairwise_sortBy _ _)
      fun p hp q hq ↦ hties p hp q (hall.mem_iff.mpr hq)
    exact congrArg (List.take productLimit) heq

end

end

section
local instance marketInterp : Interp := ascii fun _ ↦ none

def namedRow (severity vendor product : Text) : Row where
  severity := .str severity
  cpeMatches := .list [.dict [("vendor".toList, .str vendor), ("product".toList, .str product)]]
  affectedProducts := .none

def highRow : Row := namedRow "HIGH".toList "acme".toList "gateway".toList

def criticalRow : Row := namedRow "critical".toList "acme".toList "agent".toList

theorem swapped_rows : (clusterPublished (fun _ ↦ none) [highRow, criticalRow]).products =
    (clusterPublished (fun _ ↦ none) [criticalRow, highRow]).products := by
  have hmarket := market_of_perm (fun _ ↦ none) (List.Perm.swap criticalRow highRow [])
  refine hmarket.2.2.2.2.2.2 ?_
  decide

end

end Briefr.Reports.MarketClusters
