import Briefr.Feeds.CveRecordV5
import Briefr.Feeds.NvdConfigurations

namespace Briefr.Feeds.CpeNames

open Briefr.Python Briefr.Feeds.NvdConfigurations Briefr.Feeds.CveRecordV5

theorem not_mem_of_mem_splitOn {s part : Text} {sep : Char} (h : part ∈ s.splitOn sep) : sep ∉ part := by
  induction s generalizing part with
  | nil =>
    obtain rfl := List.mem_singleton.mp h
    exact List.not_mem_nil
  | cons c s ih =>
    rw [List.splitOn_cons_eq_if_modifyHead] at h
    split at h
    · rcases List.mem_cons.mp h with rfl | h
      · exact List.not_mem_nil
      · exact ih h
    · rename_i hc
      obtain ⟨p, l, hs⟩ := List.exists_cons_of_ne_nil (List.splitOn_ne_nil sep s)
      rw [hs] at h ih
      rcases List.mem_cons.mp h with rfl | h
      · rw [List.mem_cons, not_or]
        exact ⟨fun he ↦ hc (beq_iff_eq.mpr he.symm), ih List.mem_cons_self⟩
      · exact ih (List.mem_cons_of_mem p h)

/-- The value of an attribute: printable ASCII without blanks, and not a hyphen alone. -/
abbrev AttributeString := { s : Text // s ≠ [] ∧ s ≠ "-" ∧ ∀ c ∈ s, 33 ≤ c.toNat ∧ c.toNat ≤ 126 }

/-- What a formatted string holds only behind a backslash. -/
def isSpecial (c : Char) : Bool := !(c.isAlphanum || c == '_' || c == '.' || c == '-')

def escape (s : Text) : Text := s.flatMap fun c ↦ if isSpecial c then ['\\', c] else [c]

/-- Nothing in it has to be escaped. -/
def Plain (s : Text) : Prop := ∀ c ∈ s, isSpecial c = false

inductive Attribute
  | any
  | na
  | value (s : AttributeString)

namespace Attribute

def text : Attribute → Text
  | any => "*"
  | na => "-"
  | value s => s.1

def formatted : Attribute → Text
  | any => "*"
  | na => "-"
  | value s => escape s.1

def Plain : Attribute → Prop
  | any | na => True
  | value s => CpeNames.Plain s.1

end Attribute

inductive PartName
  | application
  | operatingSystem
  | hardware

def PartName.text : PartName → Text
  | application => "a"
  | operatingSystem => "o"
  | hardware => "h"

/-- A CPE name; `others` are the attributes from `update` to `other`. -/
structure CpeName where
  part : PartName
  vendor : AttributeString
  product : AttributeString
  version : Attribute
  others : List Attribute

/-- The components of the formatted string behind the product. -/
def CpeName.rest (n : CpeName) : List Text := n.version.formatted :: n.others.map Attribute.formatted

/-- The CPE 2.3 formatted string. -/
def CpeName.formatted (n : CpeName) : Text :=
  List.intercalate [':'] ("cpe".toList :: "2.3".toList :: n.part.text :: escape n.vendor.1 :: escape n.product.1 :: n.rest)

theorem mem_escape {s : Text} {c : Char} (hc : c ≠ '\\') : c ∈ escape s ↔ c ∈ s := by
  rw [escape, List.mem_flatMap]
  constructor
  · rintro ⟨d, hd, h⟩
    split at h
    · rcases List.mem_cons.mp h with h | h
      · exact absurd h hc
      · exact List.mem_singleton.mp h ▸ hd
    · exact List.mem_singleton.mp h ▸ hd
  · intro h
    refine ⟨c, h, ?_⟩
    split
    · exact List.mem_cons_of_mem _ (List.mem_singleton.mpr rfl)
    · exact List.mem_singleton.mpr rfl

theorem colon_mem_escape {s : Text} : ':' ∈ escape s ↔ ':' ∈ s := mem_escape (by decide)

theorem escape_of_plain {s : Text} (h : Plain s) : escape s = s := by
  rw [escape, List.flatMap_congr fun c hc ↦ if_neg (Bool.eq_false_iff.mp (h c hc))]
  exact List.flatMap_singleton' s

theorem length_le_escape (s : Text) : s.length ≤ (escape s).length := by
  induction s with
  | nil => exact le_refl 0
  | cons c s ih =>
    rw [escape, List.flatMap_cons, List.length_append, List.length_cons, ← escape]
    have hc : 1 ≤ (if isSpecial c then ['\\', c] else [c]).length := by split <;> simp
    omega

/-- Every escaped character makes the text longer. -/
theorem plain_of_length_escape {s : Text} (h : (escape s).length = s.length) : Plain s := by
  induction s with
  | nil => exact List.forall_mem_nil _
  | cons c s ih =>
    have hs := length_le_escape s
    rw [escape, List.flatMap_cons, List.length_append, List.length_cons, ← escape] at h
    by_cases hc : isSpecial c = true
    · rw [if_pos hc, List.length_cons, List.length_singleton] at h
      omega
    · rw [if_neg hc, List.length_singleton] at h
      exact List.forall_mem_cons.mpr ⟨Bool.eq_false_iff.mpr hc, ih (by omega)⟩

theorem escape_eq_self_iff {s : Text} : escape s = s ↔ Plain s :=
  ⟨fun h ↦ plain_of_length_escape (congrArg List.length h), escape_of_plain⟩

theorem Plain.colon {s : Text} (h : Plain s) : ':' ∉ s := fun hc ↦ absurd (h ':' hc) (by decide)

theorem Attribute.formatted_eq_text_iff (a : Attribute) : a.formatted = a.text ↔ a.Plain := by
  cases a with
  | any => exact ⟨fun _ ↦ trivial, fun _ ↦ rfl⟩
  | na => exact ⟨fun _ ↦ trivial, fun _ ↦ rfl⟩
  | value s => exact escape_eq_self_iff

theorem Attribute.colon_mem_formatted (a : Attribute) : ':' ∈ a.formatted ↔ ':' ∈ a.text := by
  cases a with
  | any => rfl
  | na => rfl
  | value s => exact colon_mem_escape

/-- The parts of a name without a colon in vendor and product. -/
theorem splitOn_formatted {n : CpeName} (hv : ':' ∉ n.vendor.1) (hp : ':' ∉ n.product.1) :
    n.formatted.splitOn ':' = "cpe".toList :: "2.3".toList :: n.part.text :: escape n.vendor.1 :: escape n.product.1 ::
      (List.intercalate [':'] n.rest).splitOn ':' := by
  have hstep : ∀ (a b : Text) (l : List Text), ':' ∉ a →
      (List.intercalate [':'] (a :: b :: l)).splitOn ':' = a :: (List.intercalate [':'] (b :: l)).splitOn ':' := by
    intro a b l ha
    rw [List.intercalate_cons_cons, List.append_assoc, List.singleton_append,
      List.splitOn_append_cons_self_of_not_mem ha]
  have hpart : ':' ∉ n.part.text := by cases n.part <;> decide
  rw [CpeName.formatted, hstep _ _ _ (by decide), hstep _ _ _ (by decide), hstep _ _ _ hpart,
    hstep _ _ _ (mt colon_mem_escape.mp hv), CpeName.rest, hstep _ _ _ (mt colon_mem_escape.mp hp)]

theorem head?_splitOn_rest {n : CpeName} (h : ':' ∉ n.version.text) :
    ((List.intercalate [':'] n.rest).splitOn ':').head? = some n.version.formatted := by
  have hf := mt n.version.colon_mem_formatted.mp h
  rw [CpeName.rest]
  cases n.others with
  | nil => rw [List.map_nil, List.intercalate_singleton, List.splitOn_eq_singleton hf, List.head?_cons]
  | cons a l =>
    rw [List.map_cons, List.intercalate_cons_cons, List.append_assoc, List.singleton_append,
      List.splitOn_append_cons_self_of_not_mem hf, List.head?_cons]

theorem nameOf_formatted {n : CpeName} (hv : ':' ∉ n.vendor.1) (hp : ':' ∉ n.product.1) :
    nameOf n.formatted =
      some ⟨escape n.vendor.1, escape n.product.1, ((List.intercalate [':'] n.rest).splitOn ':').head?⟩ := by
  rw [nameOf, splitOn_formatted hv hp]

/-- No part of a criteria text has a colon in it. -/
theorem nameOf_colon {criteria : Text} {name : Name} (h : nameOf criteria = some name) :
    ':' ∉ name.vendor ∧ ':' ∉ name.product ∧ ∀ v ∈ name.version, ':' ∉ v := by
  rw [nameOf] at h
  split at h
  · rename_i a b c vendor product rest hs
    obtain rfl := Option.some.inj h
    have hm : ∀ part ∈ a :: b :: c :: vendor :: product :: rest, ':' ∉ part :=
      fun part hp ↦ not_mem_of_mem_splitOn (hs ▸ hp)
    simp only [List.forall_mem_cons] at hm
    obtain ⟨-, -, -, hv, hp, hr⟩ := hm
    exact ⟨hv, hp, fun v hv ↦ hr v (List.mem_of_head? hv)⟩
  · cases h

/-- Vendor, product and version are what the parts of the formatted string say exactly when no colon shifts them. -/
theorem nameOf_formatted_iff {n : CpeName} {vendor product version : Text}
    (hv : ':' ∈ vendor ↔ ':' ∈ n.vendor.1) (hp : ':' ∈ product ↔ ':' ∈ n.product.1)
    (hw : ':' ∈ version ↔ ':' ∈ n.version.text) :
    nameOf n.formatted = some ⟨vendor, product, some version⟩ ↔
      (':' ∉ n.vendor.1 ∧ ':' ∉ n.product.1 ∧ ':' ∉ n.version.text) ∧
        escape n.vendor.1 = vendor ∧ escape n.product.1 = product ∧ n.version.formatted = version := by
  constructor
  · intro h
    obtain ⟨hcv, hcp, hcw⟩ := nameOf_colon h
    have hv' := mt hv.mpr hcv
    have hp' := mt hp.mpr hcp
    have hw' := mt hw.mpr (hcw version rfl)
    rw [nameOf_formatted hv' hp', head?_splitOn_rest hw', Option.some.injEq, Name.mk.injEq, Option.some.injEq] at h
    exact ⟨⟨hv', hp', hw'⟩, h⟩
  · rintro ⟨⟨hv', hp', hw'⟩, rfl, rfl, rfl⟩
    rw [nameOf_formatted hv' hp', head?_splitOn_rest hw']

theorem isName_escape (s : AttributeString) : isName (escape s.1) = true := by
  have hone : ∀ c, escape s.1 = [c] → s.1 = [c] ∧ isSpecial c = false := by
    intro c h
    have hl := length_le_escape s.1
    rw [h, List.length_singleton] at hl
    have hn := List.length_pos_iff.mpr s.2.1
    have hplain : Plain s.1 := plain_of_length_escape (by rw [h, List.length_singleton]; omega)
    have hs := (escape_of_plain hplain).symm.trans h
    exact ⟨hs, hplain c (hs ▸ List.mem_singleton.mpr rfl)⟩
  have hnil : escape s.1 ≠ [] := by
    intro h
    have hl := length_le_escape s.1
    rw [h, List.length_nil] at hl
    exact s.2.1 (List.length_eq_zero_iff.mp (Nat.le_zero.mp hl))
  have hstar : escape s.1 ≠ ['*'] := fun h ↦ absurd (hone '*' h).2 (by decide)
  have hdash : escape s.1 ≠ ['-'] := fun h ↦ s.2.2.1 (hone '-' h).1
  simp [isName, hnil, hstar, hdash]

/-- The criteria of one `cpeMatch` object. -/
def single (m : CpeMatch) : List Configuration := [⟨none, false, [⟨.or, false, [m]⟩]⟩]

/-- The entry of an object for a vendor, a product and a version. -/
def entryOf (m : CpeMatch) (vendor product version : Text) : Value :=
  Key.entry ⟨vendor, product, some version, m.versionStartIncluding, m.versionStartExcluding, m.versionEndIncluding,
    m.versionEndExcluding⟩

theorem extractCpeMatches_single (m : CpeMatch) :
    extractCpeMatches (single m) = (keyOfMatch m).toList.map Key.entry := by
  change ([m].foldl visit []).map Key.entry = _
  rw [List.foldl_cons, List.foldl_nil, visit]
  cases keyOfMatch m with
  | none => rfl
  | some k => rfl

theorem extractCpeMatches_eq_iff (m : CpeMatch) (vendor product version : Text) :
    extractCpeMatches (single m) = [entryOf m vendor product version] ↔
      nameOf m.criteria = some ⟨vendor, product, some version⟩ ∧ isName vendor = true ∧ isName product = true := by
  rw [extractCpeMatches_single, entryOf]
  constructor
  · intro h
    cases hk : keyOfMatch m with
    | none =>
      rw [hk] at h
      cases h
    | some k =>
      rw [hk, Option.toList_some, List.map_singleton] at h
      obtain rfl := Key.entry_injective (List.cons.inj h).1
      rw [keyOfMatch] at hk
      split at hk
      · rename_i name hn
        split at hk
        · rename_i hname
          obtain ⟨hv, hp⟩ := Bool.and_eq_true_iff.mp hname
          injection Option.some.inj hk with h1 h2 h3
          cases name
          simp only at h1 h2 h3 hv hp
          subst h1 h2 h3
          exact ⟨hn, hv, hp⟩
        · cases hk
      · cases hk
  · intro ⟨hn, hv, hp⟩
    rw [keyOfMatch, hn]
    simp only [hv, hp, Bool.and_self, ↓reduceIte]
    rfl

theorem isName_of_plain {s : AttributeString} (h : Plain s.1) : isName s.1 = true := by
  rw [← escape_of_plain h]
  exact isName_escape s

/-- The entry holds the attributes as they are. -/
theorem entry_exact_iff (n : CpeName) (m : CpeMatch) :
    extractCpeMatches (single { m with criteria := n.formatted }) = [entryOf m n.vendor.1 n.product.1 n.version.text] ↔
      Plain n.vendor.1 ∧ Plain n.product.1 ∧ n.version.Plain := by
  refine (extractCpeMatches_eq_iff { m with criteria := n.formatted } _ _ _).trans ?_
  rw [nameOf_formatted_iff .rfl .rfl .rfl, escape_eq_self_iff, escape_eq_self_iff, Attribute.formatted_eq_text_iff]
  constructor
  · rintro ⟨⟨-, h⟩, -⟩
    exact h
  · intro ⟨hv, hp, hw⟩
    have hcw : ':' ∉ n.version.text := by
      rw [← n.version.colon_mem_formatted, (n.version.formatted_eq_text_iff).mpr hw]
      cases hver : n.version with
      | any => decide
      | na => decide
      | value s =>
        rw [hver] at hw
        exact Plain.colon hw
    exact ⟨⟨⟨hv.colon, hp.colon, hcw⟩, hv, hp, hw⟩, isName_of_plain hv, isName_of_plain hp⟩

/-- The entry holds the components of the formatted string, neither cut nor shifted. -/
theorem entry_whole_iff (n : CpeName) (m : CpeMatch) :
    extractCpeMatches (single { m with criteria := n.formatted }) =
        [entryOf m (escape n.vendor.1) (escape n.product.1) n.version.formatted] ↔
      ':' ∉ n.vendor.1 ∧ ':' ∉ n.product.1 ∧ ':' ∉ n.version.text := by
  refine (extractCpeMatches_eq_iff { m with criteria := n.formatted } _ _ _).trans ?_
  rw [nameOf_formatted_iff colon_mem_escape colon_mem_escape n.version.colon_mem_formatted]
  exact ⟨fun h ↦ h.1.1, fun h ↦ ⟨⟨h, rfl, rfl, rfl⟩, isName_escape _, isName_escape _⟩⟩

section
variable [Interp]

/-- The affected product is the one that the configuration of the same criteria names. -/
theorem cpeProduct_eq (criteria : Text) : cpeProduct (.str criteria) = (nameOf criteria).bind fun name ↦
    if isWildcard name.vendor || isWildcard name.product then none
    else some (vendorProductKey name.vendor name.product) := by
  rw [cpeProduct, nameOf]
  rcases criteria.splitOn ':' with _ | ⟨_, _ | ⟨_, _ | ⟨_, _ | ⟨_, _ | ⟨_, _⟩⟩⟩⟩⟩ <;> rfl

omit [Interp] in
theorem isWildcard_eq (s : Text) : isWildcard s = !isName s := by
  cases s <;> simp [isWildcard, isName]

theorem cpeProduct_eq_some {criteria key : Text} :
    cpeProduct (.str criteria) = some key ↔ ∃ name, nameOf criteria = some name ∧
      (isName name.vendor = true ∧ isName name.product = true) ∧ vendorProductKey name.vendor name.product = key := by
  rw [cpeProduct_eq, Option.bind_eq_some_iff]
  refine exists_congr fun name ↦ and_congr_right fun _ ↦ ?_
  rw [isWildcard_eq, isWildcard_eq]
  cases isName name.vendor <;> cases isName name.product <;> simp

theorem vendorProductKey_inj {v p v' p' : Text} (hv' : ':' ∉ v') (hp' : ':' ∉ p')
    (h : vendorProductKey v p = vendorProductKey v' p') :
    (':' ∉ v ∧ ':' ∉ p) ∧ lower (strip v) = lower (strip v') ∧ lower (strip p) = lower (strip p') := by
  have hcolon : ∀ s : Text, ':' ∈ lower (strip s) ↔ ':' ∈ s := fun s ↦ colon_mem_lower.trans colon_mem_strip
  have hkey : ∀ a b : Text, vendorProductKey a b = lower (strip a) ++ ':' :: lower (strip b) := by
    intro a b
    rw [vendorProductKey, List.append_assoc]
    rfl
  rw [hkey, hkey] at h
  have hs := congrArg splitColon h
  rw [splitColon_append (mt (hcolon v').mp hv')] at hs
  by_cases hv : ':' ∈ v
  · obtain ⟨a, b, ha, hab⟩ := exists_split_colon ((hcolon v).mpr hv)
    rw [hab, List.append_assoc, List.cons_append, splitColon_append ha] at hs
    have hb : ':' ∈ lower (strip p') := by
      rw [← (Prod.mk.inj hs).2]
      exact List.mem_append_right _ List.mem_cons_self
    exact absurd ((hcolon p').mp hb) hp'
  · rw [splitColon_append (mt (hcolon v).mp hv)] at hs
    obtain ⟨h1, h2⟩ := Prod.mk.inj hs
    refine ⟨⟨hv, fun hp ↦ hp' ?_⟩, h1, h2⟩
    exact (hcolon p').mp (h2 ▸ (hcolon p).mpr hp)

/-- Text of printable ASCII is neither stripped nor does its length change with its case. -/
theorem length_lower_strip {s : Text} (h : ∀ c ∈ s, 33 ≤ c.toNat ∧ c.toNat ≤ 126) :
    (lower (strip s)).length = s.length := by
  have hs : strip s = s := by
    apply strip_eq_self
    intro c hc
    have hn := h c hc
    rw [Interp.isSpace_ascii c (by omega)]
    simp only [isAsciiSpace, Bool.or_eq_false_iff, Bool.and_eq_false_iff, decide_eq_false_iff_not, beq_eq_false_iff_ne]
    omega
  have hl : s.flatMap lowerChar = s.map Char.toLower := by
    rw [List.flatMap_congr fun c hc ↦ Interp.lowerChar_ascii c (by have := h c hc; omega), ← List.map_eq_flatMap]
  rw [hs, ← (Interp.lower_spec s).length_eq, hl, List.length_map]

omit [Interp] in
theorem printable_escape (s : AttributeString) : ∀ c ∈ escape s.1, 33 ≤ c.toNat ∧ c.toNat ≤ 126 := by
  intro c hc
  by_cases hb : c = '\\'
  · subst hb
    decide
  · exact s.2.2.2 c ((mem_escape hb).mp hc)

theorem plain_of_lower {s : AttributeString} (h : lower (strip s.1) = lower (strip (escape s.1))) : Plain s.1 := by
  have hl := congrArg List.length h
  rw [length_lower_strip s.2.2.2, length_lower_strip (printable_escape s)] at hl
  exact plain_of_length_escape hl.symm

/-- A container with one affected item, which names the CPE. -/
def container (criteria : Text) : Dict := [("affected", .list [.dict [("cpes", .list [.str criteria])]])]

theorem extractAffectedProducts_container {criteria key : Text} :
    extractAffectedProducts [container criteria] = [key] ↔ cpeProduct (.str criteria) = some key := by
  have hx : extractAffectedProducts [container criteria] = sortedSet (cpeProduct (.str criteria)).toList := by
    have hitem : (container criteria).get "affected" = .list [.dict [("cpes", .list [.str criteria])]] := rfl
    have hname : namedProduct (.dict [("cpes", .list [.str criteria])]) = none := rfl
    have hcpes : listOf "cpes" (.dict [("cpes", .list [.str criteria])]) = [.str criteria] := rfl
    simp only [extractAffectedProducts, List.flatMap_cons, List.flatMap_nil, List.append_nil, listOf, hitem, hname]
    rw [← listOf, hcpes]
    cases hc : cpeProduct (.str criteria) <;> simp [hc]
  rw [hx]
  cases cpeProduct (.str criteria) with
  | none => simp [sortedSet]
  | some k => simp [sortedSet]

/-- The product is filed under the names of the parts exactly when no colon shifts them. -/
theorem product_iff {n : CpeName} {v p : Text} (hv : ':' ∈ v ↔ ':' ∈ n.vendor.1) (hp : ':' ∈ p ↔ ':' ∈ n.product.1) :
    extractAffectedProducts [container n.formatted] = [vendorProductKey v p] ↔
      (':' ∉ n.vendor.1 ∧ ':' ∉ n.product.1) ∧ lower (strip v) = lower (strip (escape n.vendor.1)) ∧
        lower (strip p) = lower (strip (escape n.product.1)) := by
  rw [extractAffectedProducts_container, cpeProduct_eq_some]
  constructor
  · rintro ⟨name, hn, -, hk⟩
    obtain ⟨hcv, hcp, -⟩ := nameOf_colon hn
    obtain ⟨⟨hcv', hcp'⟩, h1, h2⟩ := vendorProductKey_inj hcv hcp hk.symm
    have hv' := mt hv.mpr hcv'
    have hp' := mt hp.mpr hcp'
    rw [nameOf_formatted hv' hp'] at hn
    obtain rfl := Option.some.inj hn
    exact ⟨⟨hv', hp'⟩, h1, h2⟩
  · intro ⟨⟨hv', hp'⟩, h1, h2⟩
    refine ⟨_, nameOf_formatted hv' hp', ⟨isName_escape _, isName_escape _⟩, ?_⟩
    rw [vendorProductKey, vendorProductKey, h1, h2]

/-- A CPE name is decomposed into its attributes exactly when nothing in them is escaped, and into its components
exactly when no colon is. -/
theorem cpe_decomposed_iff (n : CpeName) (m : CpeMatch) :
    (extractCpeMatches (single { m with criteria := n.formatted }) = [entryOf m n.vendor.1 n.product.1 n.version.text] ↔
      Plain n.vendor.1 ∧ Plain n.product.1 ∧ n.version.Plain) ∧
    (extractCpeMatches (single { m with criteria := n.formatted }) =
        [entryOf m (escape n.vendor.1) (escape n.product.1) n.version.formatted] ↔
      ':' ∉ n.vendor.1 ∧ ':' ∉ n.product.1 ∧ ':' ∉ n.version.text) ∧
    (extractAffectedProducts [container n.formatted] = [vendorProductKey n.vendor.1 n.product.1] ↔
      Plain n.vendor.1 ∧ Plain n.product.1) ∧
    (extractAffectedProducts [container n.formatted] = [vendorProductKey (escape n.vendor.1) (escape n.product.1)] ↔
      ':' ∉ n.vendor.1 ∧ ':' ∉ n.product.1) := by
  refine ⟨entry_exact_iff n m, entry_whole_iff n m, ?_, ?_⟩
  · rw [product_iff .rfl .rfl]
    constructor
    · exact fun h ↦ ⟨plain_of_lower h.2.1, plain_of_lower h.2.2⟩
    · intro ⟨hv, hp⟩
      exact ⟨⟨hv.colon, hp.colon⟩, by rw [escape_of_plain hv], by rw [escape_of_plain hp]⟩
  · rw [product_iff colon_mem_escape colon_mem_escape]
    exact ⟨fun h ↦ h.1, fun h ↦ ⟨h, rfl, rfl⟩⟩

end

section
local instance cpeInterp : Interp := ascii fun _ ↦ none

/-- Version 1.0 of the product `foo:bar`. -/
def fooBar : CpeName where
  part := .application
  vendor := ⟨"acme", by decide, by decide, List.forall_iff_forall_mem.mp (by decide)⟩
  product := ⟨"foo:bar", by decide, by decide, List.forall_iff_forall_mem.mp (by decide)⟩
  version := .value ⟨"1.0", by decide, by decide, List.forall_iff_forall_mem.mp (by decide)⟩
  others := [.any, .any, .any, .any, .any, .any, .any]

/-- The product is cut at the escaped colon and its rest stands where the version should. -/
theorem colon_shifts_version : fooBar.formatted = "cpe:2.3:a:acme:foo\\:bar:1.0:*:*:*:*:*:*:*".toList ∧
    nameOf fooBar.formatted = some ⟨"acme", "foo\\", some "bar"⟩ ∧
    extractAffectedProducts [container fooBar.formatted] = ["acme:foo\\".toList] ∧
    (¬∀ (n : CpeName) (m : CpeMatch), extractCpeMatches (single { m with criteria := n.formatted }) =
      [entryOf m n.vendor.1 n.product.1 n.version.text]) ∧
    ¬∀ n : CpeName, extractAffectedProducts [container n.formatted] = [vendorProductKey n.vendor.1 n.product.1] := by
  have hname : nameOf fooBar.formatted = some ⟨"acme", "foo\\", some "bar"⟩ := rfl
  have hproduct : extractAffectedProducts [container fooBar.formatted] = ["acme:foo\\".toList] := rfl
  refine ⟨by decide, hname, hproduct, fun h ↦ ?_, fun h ↦ ?_⟩
  · have hn := ((extractCpeMatches_eq_iff _ _ _ _).mp (h fooBar (plainMatch true ""))).1
    exact absurd (congrArg (Option.map Name.product) (hname.symm.trans hn)) (by decide)
  · exact absurd (hproduct.symm.trans (h fooBar)) (by decide)

end

end Briefr.Feeds.CpeNames
