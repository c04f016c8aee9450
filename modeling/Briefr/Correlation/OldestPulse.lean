import Mathlib.Algebra.Group.Int.Defs
import Mathlib.Data.Prod.Lex
import Mathlib.Data.List.Lex
import Briefr.Library.RoundHalfEven
import Briefr.Library.StableSort
import Briefr.Python.Loop

namespace Briefr.Correlation

open Briefr.Python Briefr.Library.StableSort Briefr.Library.NearestFloat

/-- `datetime.fromisoformat` with the offset applied, a missing one being UTC: the microseconds since the year 1 began.
Its `none` is a `ValueError`. The offset can carry an instant out of the years that `datetime` has. -/
class Iso where
  fromIsoformat : Text → Option ℤ

export Iso (fromIsoformat)

def yearTenThousand : ℤ := 315537897600000000

def yearNineteenSeventy : ℕ := 62135596800000000

def astimezone (t : ℤ) : Py ℕ := if 0 ≤ t ∧ t < yearTenThousand then .ok t.toNat else .error .overflowError

/-- `dt.timestamp()`, a double, in units of `2 ^ -72` seconds. -/
def timestamp (t : ℕ) : ℤ := signedNearest 53 ((t - yearNineteenSeventy) * 2 ^ 72) 1000000

theorem timestamp_mono {s t : ℕ} (h : s ≤ t) : timestamp s ≤ timestamp t := by
  apply signedNearest_mono (by omega) (by omega)
  omega

section
variable [Interp] [Iso]

def parseDt (value : Option Text) : Py (Option ℕ) :=
  let text := strip (value.getD [])
  if text = [] then .ok none
  else
    let text := if text.getLast? = some 'Z' then text.dropLast ++ "+00:00".toList else text
    let text :=
      if text.length = 10 ∧ text[4]? = some '-' ∧ text[7]? = some '-' then text ++ "T00:00:00+00:00".toList else text
    match fromIsoformat text with
    | none => .ok none
    | some t => some <$> astimezone t

/-- The first of the pulses by rank of the date and then by id; an empty list, which no caller has, gives none. -/
def oldestBy {κ : Type} [LinearOrder κ] (rank : Option ℕ → κ) (members : List (Text × Option Text)) :
    Py (Option Text) := do
  let dated ← members.mapM fun m ↦ do return (← parseDt m.2, m.1)
  return (sortBy (fun d ↦ toLex (rank d.1, d.2)) dated).head?.map Prod.snd

end

/-- `(1, pid)` for an undated pulse, else `(0, dt.timestamp(), pid)`. -/
def familyRank : Option ℕ → ℕ ×ₗ ℤ
  | none => toLex (1, 0)
  | some t => toLex (0, timestamp t)

/-- An undated pulse counts as one of `datetime.min`. -/
def campaignRank (date : Option ℕ) : ℕ := date.getD 0

/-- An undated pulse counts as one of 1970. -/
def suppressionRank (date : Option ℕ) : ℕ := date.getD yearNineteenSeventy

section
variable [Interp] [Iso]

/-- The choice behind the family id. -/
def oldestPulseId (members : List (Text × Option Text)) : Py (Option Text) := oldestBy familyRank members

/-- The choice behind the campaign id. -/
def oldestPulse (members : List (Text × Option Text)) : Py (Option Text) := oldestBy campaignRank members

/-- The choice behind the campaign that a dismissal resolves to. -/
def oldestMember (members : List (Text × Option Text)) : Py (Option Text) := oldestBy suppressionRank members

def Readable (date : Option Text) : Prop := ∃ d, parseDt date = .ok d

/-- All dates can be read and the pulse is first. -/
def IsOldest {κ : Type} [LinearOrder κ] (rank : Option ℕ → κ) (members : List (Text × Option Text)) (p : Text) : Prop :=
  ∃ m ∈ members, m.1 = p ∧ ∃ d, parseDt m.2 = .ok d ∧
    ∀ m' ∈ members, ∃ d', parseDt m'.2 = .ok d' ∧ toLex (rank d, p) ≤ toLex (rank d', m'.1)

variable {κ : Type} [LinearOrder κ] {rank : Option ℕ → κ} {members members' : List (Text × Option Text)} {p q : Text}

theorem IsOldest.mem (h : IsOldest rank members p) : p ∈ members.map Prod.fst := by
  obtain ⟨m, hm, rfl, -⟩ := h
  exact List.mem_map_of_mem hm

theorem IsOldest.unique (hp : IsOldest rank members p) (hq : IsOldest rank members q) : p = q := by
  obtain ⟨m, hm, rfl, d, hd, hle⟩ := hp
  obtain ⟨m', hm', rfl, d', hd', hle'⟩ := hq
  obtain ⟨e, he, h⟩ := hle m' hm'
  obtain ⟨e', he', h'⟩ := hle' m hm
  rw [hd'] at he
  rw [hd] at he'
  obtain rfl := Except.ok.inj he
  obtain rfl := Except.ok.inj he'
  exact congrArg (fun k ↦ (ofLex k).2) (le_antisymm h h')

theorem IsOldest.congr (h : IsOldest rank members p) (hm : ∀ m, m ∈ members ↔ m ∈ members') :
    IsOldest rank members' p := by
  simpa only [IsOldest, hm] using h

/-- Only what the dates are read as counts. -/
theorem IsOldest.congr_dates {ids : List Text} {f g : Text → Option Text}
    (hfg : ∀ pid ∈ ids, parseDt (f pid) = parseDt (g pid)) (h : IsOldest rank (ids.map fun pid ↦ (pid, f pid)) p) :
    IsOldest rank (ids.map fun pid ↦ (pid, g pid)) p := by
  obtain ⟨m, hm, rfl, d, hd, hle⟩ := h
  obtain ⟨pid, hpid, rfl⟩ := List.mem_map.mp hm
  refine ⟨(pid, g pid), List.mem_map.mpr ⟨pid, hpid, rfl⟩, rfl, d, (hfg pid hpid) ▸ hd, ?_⟩
  intro m' hm'
  obtain ⟨pid', hpid', rfl⟩ := List.mem_map.mp hm'
  obtain ⟨d', hd', hle⟩ := hle _ (List.mem_map.mpr ⟨pid', hpid', rfl⟩)
  exact ⟨d', hfg pid' hpid' ▸ hd', hle⟩

theorem isOldest_of_oldestBy (h : oldestBy rank members = .ok (some p)) : IsOldest rank members p := by
  obtain ⟨dated, hdated, h⟩ := bind_eq_ok.mp h
  obtain ⟨d, hd, rfl⟩ := Option.map_eq_some_iff.mp (Except.ok.inj h)
  have hfirst := head?_sortBy.mp hd
  obtain ⟨m, hm, hr⟩ := mem_of_mem_mapM hdated hfirst.mem
  obtain ⟨e, he, hr⟩ := bind_eq_ok.mp hr
  obtain rfl := Except.ok.inj hr
  refine ⟨m, hm, rfl, e, he, ?_⟩
  intro m' hm'
  obtain ⟨y, hy, hr⟩ := mem_of_mapM hdated hm'
  obtain ⟨e', he', hr⟩ := bind_eq_ok.mp hr
  obtain rfl := Except.ok.inj hr
  exact ⟨e', he', hfirst.le hy⟩

theorem exists_oldestBy (rank : Option ℕ → κ) (hne : members ≠ []) (hread : ∀ m ∈ members, Readable m.2) :
    ∃ p, oldestBy rank members = .ok (some p) := by
  have hdefined : ∀ m ∈ members, ∃ y, (do return (← parseDt m.2, m.1) : Py (Option ℕ × Text)) = .ok y := by
    intro m hm
    obtain ⟨d, hd⟩ := hread m hm
    exact ⟨(d, m.1), by rw [hd]; rfl⟩
  obtain ⟨dated, hdated⟩ := mapM_defined hdefined
  have hlen : dated.length = members.length := (mapM_eq_ok.mp hdated).length_eq.symm
  have hsorted : sortBy (fun d : Option ℕ × Text ↦ toLex (rank d.1, d.2)) dated ≠ [] := by
    intro h
    have hz := length_sortBy (fun d : Option ℕ × Text ↦ toLex (rank d.1, d.2)) dated
    rw [h, hlen, List.length_nil] at hz
    exact hne (List.eq_nil_of_length_eq_zero hz.symm)
  obtain ⟨d, t, hdt⟩ := List.exists_cons_of_ne_nil hsorted
  refine ⟨d.2, ?_⟩
  rw [oldestBy, hdated, ok_bind, hdt]
  rfl

theorem readable_of_oldestBy {x : Option Text} (h : oldestBy rank members = .ok x) : ∀ m ∈ members, Readable m.2 := by
  obtain ⟨dated, hdated, -⟩ := bind_eq_ok.mp h
  intro m hm
  obtain ⟨y, -, hr⟩ := mem_of_mapM hdated hm
  obtain ⟨d, hd, -⟩ := bind_eq_ok.mp hr
  exact ⟨d, hd⟩

theorem oldestBy_eq_ok : oldestBy rank members = .ok (some p) ↔ IsOldest rank members p := by
  constructor
  · exact isOldest_of_oldestBy
  · intro h
    obtain ⟨m, hm, rfl, d, hd, hle⟩ := h
    obtain ⟨q, hq⟩ := exists_oldestBy rank (List.ne_nil_of_mem hm) fun m' hm' ↦
      (hle m' hm').imp fun _ h ↦ h.1
    rw [hq, (isOldest_of_oldestBy hq).unique ⟨m, hm, rfl, d, hd, hle⟩]

theorem oldestBy_eq_ok_iff {x : Option Text} (hne : members ≠ []) :
    oldestBy rank members = .ok x ↔ ∃ p, x = some p ∧ IsOldest rank members p := by
  constructor
  · intro h
    obtain ⟨p, hp⟩ := exists_oldestBy rank hne (readable_of_oldestBy h)
    exact ⟨p, Except.ok.inj (h.symm.trans hp), oldestBy_eq_ok.mp hp⟩
  · intro ⟨p, hx, hp⟩
    rw [hx, oldestBy_eq_ok.mpr hp]

theorem IsOldest.readable (h : IsOldest rank members p) : ∀ m ∈ members, Readable m.2 := by
  obtain ⟨_, _, _, _, _, hle⟩ := h
  exact fun m hm ↦ (hle m hm).imp fun _ h ↦ h.1

/-- All dates can be read and none is given, or the first dated pulse stays first when dates are read as floats and is
of `datetime.min` and first by its id among the undated ones. -/
def Consistent (members : List (Text × Option Text)) : Prop :=
  (∀ m ∈ members, parseDt m.2 = .ok none) ∨
    ∃ m ∈ members, ∃ t, parseDt m.2 = .ok (some t) ∧ ∀ m' ∈ members,
      (parseDt m'.2 = .ok none ∧ t = 0 ∧ m.1 ≤ m'.1) ∨
        ∃ t', parseDt m'.2 = .ok (some t') ∧ t ≤ t' ∧ (timestamp t = timestamp t' → m.1 ≤ m'.1)

theorem consistent_of_isOldest (hn : (members.map Prod.fst).Nodup) (hf : IsOldest familyRank members p)
    (hc : IsOldest campaignRank members p) : Consistent members := by
  obtain ⟨m, hm, rfl, d, hd, hle⟩ := hf
  obtain ⟨m', hm', he, d', hd', hle'⟩ := hc
  obtain rfl : m' = m := List.inj_on_of_nodup_map hn hm' hm he
  obtain rfl := Except.ok.inj (hd.symm.trans hd')
  cases d with
  | none =>
    refine .inl fun m' hm' ↦ ?_
    obtain ⟨e, he, h⟩ := hle m' hm'
    cases e with
    | none => exact he
    | some t => simp [familyRank, Prod.Lex.toLex_le_toLex, Prod.Lex.toLex_lt_toLex] at h
  | some t =>
    refine .inr ⟨m', hm, t, hd, fun m'' hm'' ↦ ?_⟩
    obtain ⟨e, he, h⟩ := hle m'' hm''
    obtain ⟨e', he', h'⟩ := hle' m'' hm''
    obtain rfl := Except.ok.inj (he.symm.trans he')
    cases e with
    | none =>
      refine .inl ⟨he, ?_⟩
      simpa [campaignRank, Prod.Lex.toLex_le_toLex] using h'
    | some t' =>
      refine .inr ⟨t', he, ?_, ?_⟩
      · rcases Prod.Lex.toLex_le_toLex.mp h' with h' | h'
        · exact le_of_lt h'
        · exact h'.1.le
      · intro hts
        simpa [familyRank, Prod.Lex.toLex_le_toLex, hts] using h

/-- Where the first pulse under one rank stays first under another, both choose it. -/
theorem isOldest_of_rank {κ' : Type} [LinearOrder κ'] {rank' : Option ℕ → κ'} {m : Text × Option Text} {d : Option ℕ}
    (hm : m ∈ members) (hd : parseDt m.2 = .ok d)
    (h : ∀ m' ∈ members, ∃ d', parseDt m'.2 = .ok d' ∧
      (rank' d < rank' d' ∨ rank' d = rank' d' ∧ m.1 ≤ m'.1)) : IsOldest rank' members m.1 :=
  ⟨m, hm, rfl, d, hd, fun m' hm' ↦ (h m' hm').imp fun _ hd' ↦ ⟨hd'.1, Prod.Lex.toLex_le_toLex.mpr hd'.2⟩⟩

theorem isOldest_undated (rank : Option ℕ → κ) (hall : ∀ m ∈ members, parseDt m.2 = .ok none)
    {κ' : Type} [LinearOrder κ'] (rank' : Option ℕ → κ') (h : IsOldest rank members p) : IsOldest rank' members p := by
  obtain ⟨m, hm, rfl, d, hd, hle⟩ := h
  obtain rfl := Except.ok.inj (hd.symm.trans (hall m hm))
  apply isOldest_of_rank hm hd
  intro m' hm'
  obtain ⟨e, he, h⟩ := hle m' hm'
  obtain rfl := Except.ok.inj (he.symm.trans (hall m' hm'))
  refine ⟨none, he, .inr ⟨rfl, ?_⟩⟩
  simpa [Prod.Lex.toLex_le_toLex] using h

theorem exists_isOldest_of_consistent (hne : members ≠ []) (h : Consistent members) :
    ∃ p, IsOldest familyRank members p ∧ IsOldest campaignRank members p ∧ IsOldest suppressionRank members p := by
  rcases h with hall | ⟨m, hm, t, ht, h⟩
  · obtain ⟨p, hp⟩ := exists_oldestBy familyRank hne fun m hm ↦ ⟨none, hall m hm⟩
    have hp := oldestBy_eq_ok.mp hp
    exact ⟨p, hp, isOldest_undated familyRank hall campaignRank hp, isOldest_undated familyRank hall suppressionRank hp⟩
  · refine ⟨m.1, isOldest_of_rank hm ht ?_, isOldest_of_rank hm ht ?_, isOldest_of_rank hm ht ?_⟩
    · intro m' hm'
      rcases h m' hm' with ⟨hu, -⟩ | ⟨t', ht', hle, hid⟩
      · exact ⟨none, hu, .inl (Prod.Lex.toLex_lt_toLex.mpr (.inl Nat.zero_lt_one))⟩
      · refine ⟨some t', ht', ?_⟩
        rcases (timestamp_mono hle).lt_or_eq with hlt | heq
        · exact .inl (Prod.Lex.toLex_lt_toLex.mpr (.inr ⟨rfl, hlt⟩))
        · exact .inr ⟨by rw [familyRank, familyRank, heq], hid heq⟩
    · intro m' hm'
      rcases h m' hm' with ⟨hu, rfl, hid⟩ | ⟨t', ht', hle, hid⟩
      · exact ⟨none, hu, .inr ⟨rfl, hid⟩⟩
      · exact ⟨some t', ht', hle.lt_or_eq.imp id fun he ↦ ⟨he, hid (congrArg timestamp he)⟩⟩
    · intro m' hm'
      rcases h m' hm' with ⟨hu, rfl, -⟩ | ⟨t', ht', hle, hid⟩
      · exact ⟨none, hu, .inl (by decide)⟩
      · exact ⟨some t', ht', hle.lt_or_eq.imp id fun he ↦ ⟨he, hid (congrArg timestamp he)⟩⟩

/-- The three choices agree exactly on the consistently dated families. -/
theorem choices_agree (hne : members ≠ []) (hn : (members.map Prod.fst).Nodup) :
    (∃ p, oldestPulseId members = .ok (some p) ∧ oldestPulse members = .ok (some p) ∧
      oldestMember members = .ok (some p)) ↔ Consistent members := by
  simp only [oldestPulseId, oldestPulse, oldestMember, oldestBy_eq_ok]
  constructor
  · intro ⟨p, hf, hc, _⟩
    exact consistent_of_isOldest hn hf hc
  · exact exists_isOldest_of_consistent hne

end

end Briefr.Correlation
