import Briefr.Db.PgPlaceholders

namespace Briefr.Db.PgAdapt

open Briefr.Library Briefr.Library.Rewriting Briefr.Library.SqlText Briefr.Python

/-- A text that SQL reads as another one, with the same literals. -/
structure Alike (a b : Text) : Prop where
  reading : reading .outside b = reading .outside a
  marks : marks .outside b = marks .outside a
  literals : literals b = literals a
  inside : inside .outside b = inside .outside a

theorem Alike.refl (a : Text) : Alike a a := ⟨rfl, rfl, rfl, rfl⟩

/-- A clause at the end, in the place of semicolons. -/
theorem alike_withClause {clause text : Text} (hclause : ∀ c ∈ clause, isQuiet c = true ∧ c ≠ '?')
    (h : reading .outside text = .outside) : Alike text (withClause clause text) := by
  have hparts := List.rdropWhile_append_rtakeWhile (p := (· == ';')) (l := text)
  have hsemicolons : ∀ c ∈ text.rtakeWhile (· == ';'), isQuiet c = true ∧ c ≠ '?' := by
    intro c hc
    obtain rfl : c = ';' := beq_iff_eq.mp (List.mem_rtakeWhile_imp (p := (· == ';')) hc)
    decide
  rw [withClause]
  revert hparts hsemicolons
  generalize text.rdropWhile (· == ';') = kept
  generalize text.rtakeWhile (· == ';') = semicolons
  rintro rfl hsemicolons
  have hkept : reading .outside kept = .outside := by
    rwa [reading_append, (inert_quiet hsemicolons _).1] at h
  have hliteral : reading .outside kept ≠ .literal := by
    rw [hkept]
    exact fun h ↦ by cases h
  have hquiet : ∀ part : Text, (∀ c ∈ part, isQuiet c = true ∧ c ≠ '?') → reading .outside (kept ++ part) = .outside ∧
      marks .outside (kept ++ part) = marks .outside kept ∧ literals (kept ++ part) = literals kept ∧
        inside .outside (kept ++ part) = inside .outside kept := by
    intro part hpart
    obtain ⟨hreading, hmarks⟩ := inert_quiet hpart .outside
    refine ⟨?_, ?_, literals_append_quiet hliteral fun c hc ↦ (hpart c hc).1, ?_⟩
    · rw [reading_append, hkept, hreading]
    · rw [marks_append, hkept, hmarks, Nat.add_zero]
    · rw [inside_append, inside_quiet fun c hc ↦ (hpart c hc).1, if_neg hliteral, Nat.add_zero]
  obtain ⟨hreading, hmarks, hliterals, hinside⟩ := hquiet clause hclause
  obtain ⟨hreading', hmarks', hliterals', hinside'⟩ := hquiet semicolons hsemicolons
  exact ⟨hreading.trans hreading'.symm, hmarks.trans hmarks'.symm, hliterals.trans hliterals'.symm,
    hinside.trans hinside'.symm⟩

/-- A dictionary of the names themselves. -/
theorem exists_dict (keys : List Text) : ∃ values : Dict Text Text, ∀ k ∈ keys, values.get? k = some k := by
  induction keys with
  | nil => exact ⟨Dict.empty, fun _ hk ↦ absurd hk List.not_mem_nil⟩
  | cons key keys ih =>
    obtain ⟨values, hvalues⟩ := ih
    refine ⟨values.set key key, fun k hk ↦ ?_⟩
    rw [Dict.get?_set]
    split_ifs with heq
    · rw [heq]
    · exact hvalues k ((List.mem_cons.mp hk).resolve_left heq)

theorem mapM_self {values : Dict Text Text} {keys : List Text} (h : ∀ k ∈ keys, values.get? k = some k) :
    keys.mapM values.get? = some keys := by
  induction keys with
  | nil => rfl
  | cons key keys ih =>
    obtain ⟨hkey, hkeys⟩ := List.forall_mem_cons.mp h
    rw [List.mapM_cons, hkey, ih hkeys]
    rfl

/-- What is bound tells the names. -/
theorem names_of_bound {found wanted : List Text} {text : Text} (hwanted : wanted ≠ [])
    (h : ∀ (ν : Type) (values : Dict Text ν),
      (if found = [] then some (text, Params.tuple (values.items.map Prod.snd))
        else (found.mapM values.get?).map fun bound ↦ (text, .tuple bound)) =
        (wanted.mapM values.get?).map fun bound ↦ (text, .tuple bound)) : found = wanted := by
  by_cases hfound : found = []
  · have hempty := h Text Dict.empty
    obtain ⟨key, keys, rfl⟩ := List.exists_cons_of_ne_nil hwanted
    rw [if_pos hfound, List.mapM_cons, Dict.get?_empty] at hempty
    cases hempty
  · obtain ⟨values, hvalues⟩ := exists_dict (found ++ wanted)
    have heq := h Text values
    rw [if_neg hfound, mapM_self fun k hk ↦ hvalues k (List.mem_append_left _ hk),
      mapM_self fun k hk ↦ hvalues k (List.mem_append_right _ hk)] at heq
    injection heq with heq
    injection heq with _ heq
    injection heq

section
variable [Alnums]

theorem alike_translateReplace {text : Text} (h : reading .outside text = .outside) :
    Alike (rewriteFirst (unbounded insertOrReplace) text) (translateReplace text) := by
  have hreading : reading .outside (rewriteFirst (unbounded insertOrReplace) text) = .outside :=
    (rewriteFirst_related congruence_same shortens_insertOrReplace.2 text .outside).1.symm.trans h
  rw [translateReplace]
  split_ifs
  · exact alike_withClause (quiet_of_all rfl) hreading
  · exact .refl _

theorem alike_translateIgnore {text : Text} (h : reading .outside text = .outside) :
    Alike (rewriteFirst (unbounded insertOrIgnore) text) (translateIgnore text) := by
  have hreading : reading .outside (rewriteFirst (unbounded insertOrIgnore) text) = .outside :=
    (rewriteFirst_related congruence_same shortens_insertOrIgnore.2 text .outside).1.symm.trans h
  rw [translateIgnore]
  split_ifs with hfound
  · dsimp only
    split_ifs
    · exact alike_withClause (quiet_of_all rfl) hreading
    · exact .refl _
  · have hnone := Option.not_isSome_iff_eq_none.mp hfound
    rw [rewriteFirst, hnone]
    exact .refl _

/-- The text with its dates translated. -/
def dated (text : Text) : Text := if isCheck text then text else translateDates text

/-- Nothing is a match in a literal where inserts are translated. -/
structure Inserts (text : Text) : Prop where
  replaced : Apart (unbounded insertOrReplace) (translateDates text)
  ignored : Apart (unbounded insertOrIgnore) (translateReplace (translateDates text))

theorem translate_reads {text : Text} (h : reading .outside text = .outside) :
    reading .outside (translateDates text) = .outside ∧
      reading .outside (translateReplace (translateDates text)) = .outside ∧
        reading .outside (translateIgnore (translateReplace (translateDates text))) = .outside ∧
          marks .outside (translateIgnore (translateReplace (translateDates text))) = marks .outside text := by
  obtain ⟨hdates, hmarks⟩ := same_translateDates text .outside
  have hreading := hdates.symm.trans h
  have hreplace := alike_translateReplace hreading
  obtain ⟨hfirst, hmarks'⟩ :=
    rewriteFirst_related congruence_same shortens_insertOrReplace.2 (translateDates text) .outside
  have hreading' := hreplace.reading.trans (hfirst.symm.trans hreading)
  have hignore := alike_translateIgnore hreading'
  obtain ⟨hfirst', hmarks''⟩ := rewriteFirst_related congruence_same shortens_insertOrIgnore.2
    (translateReplace (translateDates text)) .outside
  refine ⟨hreading, hreading', hignore.reading.trans (hfirst'.symm.trans hreading'), ?_⟩
  rw [hignore.marks, ← hmarks'', hreplace.marks, ← hmarks', ← hmarks]

/-- The literals of the text with its dates translated stay exactly if no insert that is translated is in one. -/
theorem literals_translate_iff {text : Text} (h : reading .outside text = .outside) :
    literals (translateIgnore (translateReplace (translateDates text))) = literals (translateDates text) ↔
      Inserts text := by
  obtain ⟨hdates, hreplace, hignore, -⟩ := translate_reads h
  have hreplaced := alike_translateReplace hdates
  have hignored := alike_translateIgnore hreplace
  obtain ⟨hle, heq⟩ := inside_rewriteFirst shortens_insertOrReplace.1 (translateDates text)
  obtain ⟨hle', heq'⟩ := inside_rewriteFirst shortens_insertOrIgnore.1 (translateReplace (translateDates text))
  constructor
  · intro hliterals
    have hinside := congrArg (fun l ↦ (l.map List.length).sum) hliterals
    rw [length_literals hignore, length_literals hdates, hignored.inside] at hinside
    rw [← hreplaced.inside] at hle heq
    exact ⟨heq (by omega), heq' (by omega)⟩
  · rintro ⟨hapart, hapart'⟩
    rw [hignored.literals, literals_rewriteFirst shortens_insertOrIgnore.1 hapart', hreplaced.literals,
      literals_rewriteFirst shortens_insertOrReplace.1 hapart]

/-- The texts that are checks, and those whose inserts are translated outside literals. -/
def KeepsLiterals (text : Text) : Prop := isCheck text = false → Inserts text

theorem strip_of_check {text : Text} (h : isCheck (strip text) = true) :
    postgresTranslateSql (strip text) = strip text := by
  rw [postgresTranslateSql, if_pos h, strip_strip]

theorem translated_reads {sql : Text} (h : reading .outside (strip sql) = .outside) :
    marks .outside (postgresTranslateSql (strip sql)) = marks .outside (strip sql) := by
  cases hcheck : isCheck (strip sql) with
  | true => rw [strip_of_check hcheck]
  | false =>
    rw [postgresTranslateSql, if_neg (by rw [hcheck]; exact Bool.false_ne_true)]
    exact (translate_reads h).2.2.2

theorem literals_translated_iff {sql : Text} (h : reading .outside (strip sql) = .outside) :
    literals (postgresTranslateSql (strip sql)) = literals (dated (strip sql)) ↔ KeepsLiterals (strip sql) := by
  cases hcheck : isCheck (strip sql) with
  | true =>
    rw [strip_of_check hcheck, dated, if_pos hcheck, KeepsLiterals, hcheck]
    exact iff_of_true rfl fun h ↦ by cases h
  | false =>
    have hneg : ¬isCheck (strip sql) = true := by
      rw [hcheck]
      exact Bool.false_ne_true
    rw [postgresTranslateSql, dated, if_neg hneg, if_neg hneg, literals_translate_iff h, KeepsLiterals, hcheck]
    exact ⟨fun h _ ↦ h, fun h ↦ h rfl⟩

def postgresql : Option Text := some "postgresql".toList

/-- The placeholders of a text are translated exactly: the question marks, or the names, are numbered in turn, nothing
else is changed, and every name has its value bound. -/
structure Exact (isPostgres : Bool) (sql : Text) : Prop where
  text : adaptSql sql postgresql isPostgres = filled (postgresTranslateSql (strip sql))
  numbers : names (strip sql) = [] → dollars .outside (adaptSql sql postgresql isPostgres) =
    (List.range' 1 (marks .outside (strip sql))).map (Nat.toDigits 10)
  bound : names (strip sql) ≠ [] → ∀ (ν : Type) (values : Dict Text ν),
    prepareQuery sql (.dict values) postgresql isPostgres = ((names (strip sql)).mapM values.get?).map fun bound ↦
      (adaptSql sql postgresql isPostgres, .tuple bound)
  kept : literals (adaptSql sql postgresql isPostgres) = literals (dated (strip sql))
  none_left : marks .outside (adaptSql sql postgresql isPostgres) = 0

/-- Where a quote behind a backslash is taken for a part of what it ends, no parameter is missed or made; the rewrites
make and lose no name and leave literals alone; no number stands in the text, nor digits behind a question mark. -/
structure Regular (sql : Text) : Prop where
  inStep : InStep .outside .outside (postgresTranslateSql (strip sql))
  names : names (postgresTranslateSql (strip sql)) = names (strip sql)
  bare : PgAdapt.names (strip sql) = [] → Bare .outside (postgresTranslateSql (strip sql))
  literals : KeepsLiterals (strip sql)

section
variable {sql : Text} {isPostgres : Bool}

theorem adaptSql_eq : adaptSql sql postgresql isPostgres =
    fill endsBehind .outside 1 1 (postgresTranslateSql (strip sql)) :=
  qmarkToDollar_colonToDollar (postgresTranslateSql (strip sql))

theorem prepareQuery_dict {ν : Type} (values : Dict Text ν) :
    prepareQuery sql (.dict values) postgresql isPostgres =
      let found := namesFrom endsBehind .outside (postgresTranslateSql (strip sql))
      if found = [] then some (adaptSql sql postgresql isPostgres, .tuple (values.items.map Prod.snd))
      else (found.mapM values.get?).map fun bound ↦ (adaptSql sql postgresql isPostgres, .tuple bound) := by
  rw [← colonToDollar_names]
  rfl

theorem regular_of_exact (h : reading .outside (strip sql) = .outside) (hexact : Exact isPostgres sql) : Regular sql := by
  have hfill := hexact.text
  rw [adaptSql_eq] at hfill
  have hinStep := (fill_eq_iff rfl 1 1 _).mp hfill
  have hfound := namesFrom_of_inStep hinStep
  have hnumbers : names (strip sql) = [] → names (postgresTranslateSql (strip sql)) = [] ∧
      Bare .outside (postgresTranslateSql (strip sql)) := by
    intro hnames
    have hdollars := hexact.numbers hnames
    rw [hexact.text, ← translated_reads h] at hdollars
    exact (dollars_fill_iff (show Sane .outside _ from trivial) 1 1).mp hdollars
  refine ⟨hinStep, ?_, fun hnames ↦ (hnumbers hnames).2, ?_⟩
  · by_cases hnames : names (strip sql) = []
    · rw [hnames]
      exact (hnumbers hnames).1
    · refine @names_of_bound _ _ (adaptSql sql postgresql isPostgres) hnames fun ν values ↦ ?_
      have hbound := hexact.bound hnames ν values
      rw [prepareQuery_dict, hfound] at hbound
      exact hbound
  · have hkept := hexact.kept
    rw [hexact.text] at hkept
    refine (literals_translated_iff h).mp (Eq.trans ?_ hkept)
    exact congrArg Reader.literals (run_fill (show Sane .outside _ from trivial) (r := Reader.start) (fun _ ↦ rfl) rfl 1 1).symm

theorem exact_of_regular (h : reading .outside (strip sql) = .outside) (hregular : Regular sql) : Exact isPostgres sql := by
  have htext : adaptSql sql postgresql isPostgres = filled (postgresTranslateSql (strip sql)) := by
    rw [adaptSql_eq]
    exact (fill_eq_iff rfl 1 1 _).mpr hregular.inStep
  refine ⟨htext, fun hnames ↦ ?_, fun hnames ν values ↦ ?_, ?_, ?_⟩
  · rw [htext, ← translated_reads h]
    exact (dollars_fill_iff (show Sane .outside _ from trivial) 1 1).mpr
      ⟨hregular.names.trans hnames, hregular.bare hnames⟩
  · have hfound : namesFrom endsBehind .outside (postgresTranslateSql (strip sql)) = names (strip sql) :=
      (namesFrom_of_inStep hregular.inStep).trans hregular.names
    rw [prepareQuery_dict, hfound]
    exact if_neg hnames
  · rw [htext, ← (literals_translated_iff h).mpr hregular.literals]
    exact congrArg Reader.literals (run_fill (show Sane .outside _ from trivial) (r := Reader.start) (fun _ ↦ rfl) rfl 1 1)
  · rw [htext]
    exact marks_fill (show Sane .outside _ from trivial) 1 1

end

end

section
local instance : Alnums := { ascii fun _ ↦ none with isAlnum := Char.isAlphanum, isAlnum_ascii := fun _ _ ↦ rfl }

def escapeSql : Text := "x LIKE ? ESCAPE '\\' AND y = ?".toList

end

end Briefr.Db.PgAdapt
