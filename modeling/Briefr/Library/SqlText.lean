import Mathlib.Algebra.GroupWithZero.Nat
import Mathlib.Data.List.Basic
import Briefr.Library.Rewriting

namespace Briefr.Library.SqlText

open Briefr.Library.Rewriting

/-- Where a reader of SQL is: a doubled quote closes and opens again. -/
inductive Mode
  | outside
  | literal
  | identifier
  deriving DecidableEq

def Mode.next : Mode → Char → Mode
  | .outside, c => if c = '\'' then .literal else if c = '"' then .identifier else .outside
  | .literal, c => if c = '\'' then .outside else .literal
  | .identifier, c => if c = '"' then .outside else .identifier

def reading (mode : Mode) (text : List Char) : Mode := text.foldl Mode.next mode

/-- The number of question marks outside literals and identifiers. -/
def marks : Mode → List Char → ℕ
  | _, [] => 0
  | mode, c :: text => (if mode = .outside ∧ c = '?' then 1 else 0) + marks (mode.next c) text

/-- The digits of the parameters `$1`, `$2`, … outside literals and identifiers. -/
def dollars : Mode → List Char → List (List Char)
  | _, [] => []
  | mode, c :: text =>
    if mode = .outside ∧ c = '$' ∧ text.takeWhile Char.isDigit ≠ [] then
      text.takeWhile Char.isDigit :: dollars (mode.next c) text
    else dollars (mode.next c) text

/-- Outside literals and identifiers no digit follows a question mark or a dollar sign. -/
def Bare : Mode → List Char → Prop
  | _, [] => True
  | mode, c :: text =>
    (mode = .outside → c = '?' ∨ c = '$' → text.takeWhile Char.isDigit = []) ∧ Bare (mode.next c) text

/-- A reader with the literal that it is in and those that it has read. -/
structure Reader where
  mode : Mode
  current : List Char
  literals : List (List Char)

def Reader.step (r : Reader) (c : Char) : Reader :=
  match r.mode with
  | .literal =>
    if c = '\'' then ⟨.outside, [], r.literals ++ [r.current]⟩ else { r with current := r.current ++ [c] }
  | mode => ⟨mode.next c, [], r.literals⟩

def Reader.run (r : Reader) (text : List Char) : Reader := text.foldl Reader.step r

def Reader.start : Reader := ⟨.outside, [], []⟩

/-- What stands between quotes. -/
def literals (text : List Char) : List (List Char) := (Reader.start.run text).literals

/-- A character that is no quote. -/
def isQuiet (c : Char) : Bool := c != '\'' && c != '"'

/-- Two texts that take every reader to the same place with the same number of question marks. -/
def Same (a b : List Char) : Prop := ∀ mode, reading mode a = reading mode b ∧ marks mode a = marks mode b

/-- A text that no reader takes notice of. -/
def Inert (text : List Char) : Prop := ∀ mode, reading mode text = mode ∧ marks mode text = 0

theorem reading_append (mode : Mode) (a b : List Char) : reading mode (a ++ b) = reading (reading mode a) b :=
  List.foldl_append

theorem marks_append (mode : Mode) (a b : List Char) : marks mode (a ++ b) = marks mode a + marks (reading mode a) b := by
  induction a generalizing mode with
  | nil => exact (Nat.zero_add _).symm
  | cons c a ih =>
    rw [List.cons_append, marks, marks, ih, Nat.add_assoc]
    rfl

theorem congruence_same : Congruence Same := by
  refine ⟨fun _ _ ↦ ⟨rfl, rfl⟩, fun a a' b b' ha hb mode ↦ ?_⟩
  obtain ⟨hreading, hmarks⟩ := ha mode
  obtain ⟨hreading', hmarks'⟩ := hb (reading mode a')
  rw [reading_append, reading_append, marks_append, marks_append, hreading, hmarks, hreading', hmarks']
  exact ⟨rfl, rfl⟩

theorem inert_append {a b : List Char} (ha : Inert a) (hb : Inert b) : Inert (a ++ b) := by
  intro mode
  rw [reading_append, marks_append, (ha mode).1, (ha mode).2]
  exact ⟨(hb mode).1, (Nat.zero_add _).trans (hb mode).2⟩

theorem same_of_inert {a b : List Char} (ha : Inert a) (hb : Inert b) : Same a b :=
  fun mode ↦ ⟨(ha mode).1.trans (hb mode).1.symm, (ha mode).2.trans (hb mode).2.symm⟩

/-- A part between inert texts may stay between others. -/
theorem same_of_kept {a b a' b' : List Char} (ha : Inert a) (hb : Inert b) (ha' : Inert a') (hb' : Inert b')
    (part : List Char) : Same (a ++ (part ++ b)) (a' ++ (part ++ b')) :=
  congruence_same.append _ _ _ _ (same_of_inert ha ha')
    (congruence_same.append _ _ _ _ (congruence_same.refl part) (same_of_inert hb hb'))

theorem next_quiet {c : Char} (h : isQuiet c = true) (mode : Mode) : mode.next c = mode := by
  rw [isQuiet, Bool.and_eq_true, bne_iff_ne, bne_iff_ne] at h
  cases mode with
  | outside => exact (if_neg h.1).trans (if_neg h.2)
  | literal => exact if_neg h.1
  | identifier => exact if_neg h.2

theorem reading_quiet {text : List Char} (h : ∀ c ∈ text, isQuiet c = true) (mode : Mode) : reading mode text = mode := by
  induction text with
  | nil => rfl
  | cons c text ih =>
    obtain ⟨hc, htext⟩ := List.forall_mem_cons.mp h
    change reading (mode.next c) text = mode
    rw [next_quiet hc]
    exact ih htext

/-- Whether a fixed text is quiet is found by running over it. -/
theorem quiet_of_all {text : List Char} (h : (text.all fun c ↦ isQuiet c && c != '?') = true) :
    ∀ c ∈ text, isQuiet c = true ∧ c ≠ '?' := by
  intro c hc
  obtain ⟨hquiet, hmark⟩ := Bool.and_eq_true_iff.mp (List.all_eq_true.mp h c hc)
  exact ⟨hquiet, bne_iff_ne.mp hmark⟩

theorem inert_quiet {text : List Char} (h : ∀ c ∈ text, isQuiet c = true ∧ c ≠ '?') : Inert text := by
  refine fun mode ↦ ⟨reading_quiet (fun c hc ↦ (h c hc).1) mode, ?_⟩
  induction text with
  | nil => rfl
  | cons c text ih =>
    obtain ⟨⟨hquiet, hmark⟩, htext⟩ := List.forall_mem_cons.mp h
    rw [marks, if_neg fun hc ↦ hmark hc.2, next_quiet hquiet, Nat.zero_add]
    exact ih htext

section
variable {r : Reader}

theorem run_append (r : Reader) (a b : List Char) : r.run (a ++ b) = (r.run a).run b := List.foldl_append

theorem mode_step (r : Reader) (c : Char) : (r.step c).mode = r.mode.next c := by
  obtain ⟨mode, current, literals⟩ := r
  cases mode with
  | outside | identifier => rfl
  | literal =>
    rw [Reader.step, Mode.next]
    dsimp only
    split_ifs <;> rfl

theorem mode_run (r : Reader) (text : List Char) : (r.run text).mode = reading r.mode text := by
  induction text generalizing r with
  | nil => rfl
  | cons c text ih =>
    change ((r.step c).run text).mode = reading (r.mode.next c) text
    rw [ih, mode_step]

/-- Outside literals there is nothing of one. -/
def Reader.Proper (r : Reader) : Prop := r.mode ≠ .literal → r.current = []

theorem proper_step (h : r.Proper) (c : Char) : (r.step c).Proper := by
  obtain ⟨mode, current, literals⟩ := r
  cases mode with
  | outside | identifier => exact fun _ ↦ rfl
  | literal =>
    rw [Reader.step]
    dsimp only
    split_ifs
    · exact fun _ ↦ rfl
    · exact fun hmode ↦ absurd rfl hmode

theorem proper_run (h : r.Proper) (text : List Char) : (r.run text).Proper := by
  induction text generalizing r with
  | nil => exact h
  | cons c text ih => exact ih (proper_step h c)

/-- Text without quotes outside literals leaves the reader as it is. -/
theorem run_quiet_outside {text : List Char} (h : ∀ c ∈ text, isQuiet c = true) (hproper : r.Proper)
    (hmode : r.mode ≠ .literal) : r.run text = r := by
  induction text with
  | nil => rfl
  | cons c text ih =>
    obtain ⟨hc, htext⟩ := List.forall_mem_cons.mp h
    have hstep : r.step c = r := by
      have hcurrent := hproper hmode
      obtain ⟨mode, current, literals⟩ := r
      dsimp only at hcurrent
      subst hcurrent
      cases mode with
      | outside | identifier =>
        rw [Reader.step]
        dsimp only
        rw [next_quiet hc]
      | literal => exact absurd rfl hmode
    change (r.step c).run text = r
    rw [hstep]
    exact ih htext

/-- The characters of literals so far. -/
def Reader.weight (r : Reader) : ℕ := (r.literals.map List.length).sum + r.current.length

def inside : Mode → List Char → ℕ
  | _, [] => 0
  | mode, c :: text => (if mode = .literal ∧ c ≠ '\'' then 1 else 0) + inside (mode.next c) text

theorem inside_append (mode : Mode) (a b : List Char) :
    inside mode (a ++ b) = inside mode a + inside (reading mode a) b := by
  induction a generalizing mode with
  | nil => exact (Nat.zero_add _).symm
  | cons c a ih =>
    rw [List.cons_append, inside, inside, ih, Nat.add_assoc]
    rfl

theorem inside_quiet {text : List Char} (h : ∀ c ∈ text, isQuiet c = true) (mode : Mode) :
    inside mode text = if mode = .literal then text.length else 0 := by
  induction text with
  | nil => rw [inside, List.length_nil, ite_self]
  | cons c text ih =>
    obtain ⟨hc, htext⟩ := List.forall_mem_cons.mp h
    have hquote : c ≠ '\'' := by
      rw [isQuiet, Bool.and_eq_true, bne_iff_ne] at hc
      exact hc.1
    rw [inside, next_quiet hc, ih htext, List.length_cons]
    by_cases hmode : mode = .literal
    · rw [if_pos ⟨hmode, hquote⟩, if_pos hmode, if_pos hmode, Nat.add_comm]
    · rw [if_neg fun h ↦ hmode h.1, if_neg hmode, if_neg hmode]

theorem weight_run (h : r.Proper) (text : List Char) : (r.run text).weight = r.weight + inside r.mode text := by
  induction text generalizing r with
  | nil => rfl
  | cons c text ih =>
    have hstep : (r.step c).weight = r.weight + if r.mode = .literal ∧ c ≠ '\'' then 1 else 0 := by
      have hcurrent := h
      obtain ⟨mode, current, literals⟩ := r
      cases mode with
      | outside | identifier =>
        have hnil : current = [] := hcurrent fun hmode ↦ by cases hmode
        rw [hnil, if_neg fun hmode ↦ by cases hmode.1]
        rfl
      | literal =>
        rw [Reader.step]
        dsimp only
        by_cases hc : c = '\''
        · rw [if_pos hc, if_neg fun h ↦ h.2 hc]
          simp [Reader.weight]
        · rw [if_neg hc, if_pos ⟨rfl, hc⟩]
          simp [Reader.weight, Nat.add_assoc]
    change ((r.step c).run text).weight = _
    rw [ih (proper_step h c), hstep, mode_step, inside, Nat.add_assoc]

/-- The literals of a text that ends outside hold the characters that are read in them. -/
theorem length_literals {text : List Char} (h : reading .outside text = .outside) :
    ((literals text).map List.length).sum = inside .outside text := by
  have hproper : Reader.start.Proper := fun _ ↦ rfl
  have hweight := weight_run hproper text
  have hmode : (Reader.start.run text).mode = .outside := (mode_run _ text).trans h
  have hnil := proper_run hproper text (by rw [hmode]; exact fun h ↦ by cases h)
  rw [Reader.weight, hnil] at hweight
  exact hweight.trans (Nat.zero_add _)

end

section
variable {a b front rest : List Char}

theorem literals_append_quiet (h : reading .outside a ≠ .literal) (hb : ∀ c ∈ b, isQuiet c = true) :
    literals (a ++ b) = literals a := by
  have hproper : Reader.start.Proper := fun _ ↦ rfl
  have hmode : (Reader.start.run a).mode ≠ .literal := by
    rw [mode_run]
    exact h
  rw [literals, run_append, run_quiet_outside hb (proper_run hproper a) hmode]
  rfl

/-- Quiet text outside literals may be replaced. -/
theorem literals_between (h : reading .outside front ≠ .literal) (ha : ∀ c ∈ a, isQuiet c = true)
    (hb : ∀ c ∈ b, isQuiet c = true) : literals (front ++ (a ++ rest)) = literals (front ++ (b ++ rest)) := by
  have hproper : Reader.start.Proper := fun _ ↦ rfl
  have hmode : (Reader.start.run front).mode ≠ .literal := by
    rw [mode_run]
    exact h
  have hquiet : ∀ part : List Char, (∀ c ∈ part, isQuiet c = true) →
      Reader.start.run (front ++ (part ++ rest)) = (Reader.start.run front).run rest := by
    intro part hpart
    rw [run_append, run_append, run_quiet_outside hpart (proper_run hproper front) hmode]
  rw [literals, literals, hquiet a ha, hquiet b hb]

theorem inside_between (ha : ∀ c ∈ a, isQuiet c = true) :
    inside .outside (front ++ (a ++ rest)) = inside .outside front +
      ((if reading .outside front = .literal then a.length else 0) + inside (reading .outside front) rest) := by
  rw [inside_append, inside_append, inside_quiet ha, reading_quiet ha]

/-- A rule that makes quiet text shorter. -/
def Shortens (rule : Rule Char) : Prop :=
  ∀ before text replacement length, rule before text = some (replacement, length) →
    (∀ c ∈ text.take length, isQuiet c = true) ∧ (∀ c ∈ replacement, isQuiet c = true) ∧
      replacement.length < (text.take length).length

/-- The first match is not in a literal. -/
def Apart (rule : Rule Char) (text : List Char) : Prop :=
  ∀ front replacement length, first rule text = some (front, replacement, length) → reading .outside front ≠ .literal

variable {rule : Rule Char} {text : List Char}

theorem literals_rewriteFirst (hrule : Shortens rule) (h : Apart rule text) :
    literals (rewriteFirst rule text) = literals text := by
  cases hfirst : first rule text with
  | none => rw [rewriteFirst, hfirst]
  | some found =>
    obtain ⟨front, replacement, length⟩ := found
    have hmode := h front replacement length hfirst
    obtain ⟨before, found, rest, rfl, hmatch, htake, heq⟩ := rewriteFirst_of_first hfirst
    obtain ⟨hfound, hreplacement, -⟩ := hrule _ _ _ _ hmatch
    rw [← htake] at hfound
    rw [heq]
    exact literals_between hmode hreplacement hfound

theorem inside_rewriteFirst (hrule : Shortens rule) (text : List Char) :
    inside .outside (rewriteFirst rule text) ≤ inside .outside text ∧
      (inside .outside (rewriteFirst rule text) = inside .outside text → Apart rule text) := by
  cases hfirst : first rule text with
  | none =>
    rw [rewriteFirst, hfirst]
    refine ⟨le_rfl, fun _ front replacement length h ↦ ?_⟩
    rw [hfirst] at h
    cases h
  | some found =>
    obtain ⟨front, replacement, length⟩ := found
    obtain ⟨before, found, rest, rfl, hmatch, htake, heq⟩ := rewriteFirst_of_first hfirst
    obtain ⟨hfound, hreplacement, hlength⟩ := hrule _ _ _ _ hmatch
    rw [← htake] at hfound hlength
    rw [heq, inside_between hreplacement, inside_between hfound]
    refine ⟨?_, fun hinside front' replacement' length' h hmode ↦ ?_⟩
    · split_ifs <;> omega
    · rw [hfirst] at h
      cases h
      rw [if_pos hmode, if_pos hmode] at hinside
      omega

end

end Briefr.Library.SqlText
