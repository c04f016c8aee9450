import Mathlib.Data.List.Basic
import Mathlib.Logic.Function.Basic

namespace Briefr.Library.FileTree

inductive Comp (N : Type)
  | name (n : N)
  | here
  | up
  deriving DecidableEq

structure Path (N : Type) where
  absolute : Bool
  comps : List (Comp N)
  deriving DecidableEq

/-- The names from the root down, with no link among them. -/
abbrev Place (N : Type) := List N

inductive Node (N : Type)
  | dir
  | file (inode : ℕ)
  | link (target : Path N)
  deriving DecidableEq

/-- A tree of directories; a file may have several places. -/
structure Fs (N : Type) where
  node : Place N → Option (Node N)
  inodes : ℕ
  root_dir : node [] = some .dir
  parent_dir : ∀ p, p ≠ [] → node p ≠ none → node p.dropLast = some .dir

section
variable {N : Type} [DecidableEq N]

/-- The tree with a new node at a place, which is in a directory and is no directory itself. -/
def Fs.put? (fs : Fs N) (p : Place N) (node : Node N) : Option (Fs N) :=
  if h : p ≠ [] ∧ fs.node p.dropLast = some .dir ∧ fs.node p ≠ some .dir then
    some
      { node := Function.update fs.node p (some node)
        inodes := fs.inodes + 1
        root_dir := by rw [Function.update_of_ne h.1.symm, fs.root_dir]
        parent_dir := by
          intro q hq hnode
          by_cases hqp : q.dropLast = p
          · have hne : q ≠ p := by
              rintro rfl
              have hlength := congrArg List.length hqp
              rw [List.length_dropLast] at hlength
              have hpos := List.length_pos_of_ne_nil hq
              omega
            rw [Function.update_of_ne hne] at hnode
            exact absurd (hqp ▸ fs.parent_dir q hq hnode) h.2.2
          · rw [Function.update_of_ne hqp]
            by_cases hqp' : q = p
            · rw [hqp', h.2.1]
            · rw [Function.update_of_ne hqp'] at hnode
              exact fs.parent_dir q hq hnode }
  else none

theorem Fs.put?_eq_some {fs fs' : Fs N} {p : Place N} {node : Node N} (h : fs.put? p node = some fs') :
    fs'.node = Function.update fs.node p (some node) ∧ p ≠ [] ∧ fs.node p.dropLast = some .dir ∧
      fs.node p ≠ some .dir := by
  rw [put?] at h
  split_ifs at h with hput
  obtain rfl := Option.some.inj h
  exact ⟨rfl, hput⟩

end

section
variable {N : Type} (fs : Fs N)

/-- Where a path leads, by the system's rules: all that it passes through are directories, and its end may be missing. -/
def locateWith (follow : Place N → List (Comp N) → Option (Place N)) :
    Place N → List (Comp N) → Option (Place N)
  | cur, [] => some cur
  | cur, .here :: rest => locateWith follow cur rest
  | cur, .up :: rest => locateWith follow cur.dropLast rest
  | cur, .name n :: rest =>
    match fs.node (cur ++ [n]) with
    | some (.link target) => follow (if target.absolute then [] else cur) (target.comps ++ rest)
    | some .dir => locateWith follow (cur ++ [n]) rest
    | _ => if rest.isEmpty then some (cur ++ [n]) else none

/-- `locateWith` with a number of links that are followed at most. -/
def locate : ℕ → Place N → List (Comp N) → Option (Place N)
  | 0 => locateWith fs fun _ _ ↦ none
  | links + 1 => locateWith fs (locate links)

/-- Where a path leads if what is missing is taken for directories. -/
def resolveWith (follow : Place N → List (Comp N) → Option (Place N)) :
    Place N → List (Comp N) → Option (Place N)
  | cur, [] => some cur
  | cur, .here :: rest => resolveWith follow cur rest
  | cur, .up :: rest => resolveWith follow cur.dropLast rest
  | cur, .name n :: rest =>
    match fs.node (cur ++ [n]) with
    | some (.link target) => follow (if target.absolute then [] else cur) (target.comps ++ rest)
    | _ => resolveWith follow (cur ++ [n]) rest

def resolve : ℕ → Place N → List (Comp N) → Option (Place N)
  | 0 => resolveWith fs fun _ _ ↦ none
  | links + 1 => resolveWith fs (resolve links)

/-- The directory that a path leads to. -/
def enter [DecidableEq N] (links : ℕ) (comps : List (Comp N)) : Option (Place N) :=
  (locate fs links [] comps).filter fun p ↦ fs.node p = some .dir

end

variable {N : Type} {fs fs' : Fs N}

theorem resolveWith_of_locateWith {follow follow' : Place N → List (Comp N) → Option (Place N)}
    (hfollow : ∀ cur comps p, follow cur comps = some p → follow' cur comps = some p) {cur p : Place N}
    {comps : List (Comp N)} (h : locateWith fs follow cur comps = some p) :
    resolveWith fs follow' cur comps = some p := by
  induction comps generalizing cur with
  | nil => exact h
  | cons c rest ih =>
    cases c with
    | here => exact ih h
    | up => exact ih h
    | name n =>
      rw [locateWith] at h
      rw [resolveWith]
      cases hnode : fs.node (cur ++ [n]) with
      | none =>
        rw [hnode] at h
        cases rest with
        | nil => exact h
        | cons d rest => cases h
      | some node =>
        rw [hnode] at h
        cases node with
        | dir => exact ih h
        | link target => exact hfollow _ _ _ h
        | file inode =>
          cases rest with
          | nil => exact h
          | cons d rest => cases h

/-- A path that the system can go is resolved to where it leads. -/
theorem resolve_of_locate {links : ℕ} {cur p : Place N} {comps : List (Comp N)}
    (h : locate fs links cur comps = some p) : resolve fs links cur comps = some p := by
  induction links generalizing cur comps p with
  | zero => exact resolveWith_of_locateWith (fun _ _ _ h ↦ h) h
  | succ links ih => exact resolveWith_of_locateWith (fun _ _ _ ↦ ih) h

/-- Two trees with the same links. -/
def SameLinks (fs fs' : Fs N) : Prop := ∀ p target, fs.node p = some (.link target) ↔ fs'.node p = some (.link target)

theorem resolveWith_congr (h : SameLinks fs fs') (follow : Place N → List (Comp N) → Option (Place N))
    (cur : Place N) (comps : List (Comp N)) : resolveWith fs follow cur comps = resolveWith fs' follow cur comps := by
  induction comps generalizing cur with
  | nil => rfl
  | cons c rest ih =>
    cases c with
    | here => exact ih _
    | up => exact ih _
    | name n =>
      rw [resolveWith, resolveWith]
      by_cases hlink : ∃ target, fs.node (cur ++ [n]) = some (.link target)
      · obtain ⟨target, htarget⟩ := hlink
        rw [htarget, (h _ _).mp htarget]
      · have hlink' : ∀ target, fs'.node (cur ++ [n]) ≠ some (.link target) :=
          fun target htarget ↦ hlink ⟨target, (h _ _).mpr htarget⟩
        rw [not_exists] at hlink
        split
        next target htarget => exact absurd htarget (hlink target)
        next => exact ih _

theorem resolve_congr (h : SameLinks fs fs') (links : ℕ) : resolve fs links = resolve fs' links := by
  induction links with
  | zero => exact funext fun cur ↦ funext fun comps ↦ resolveWith_congr h _ cur comps
  | succ links ih =>
    rw [resolve, resolve, ih]
    exact funext fun cur ↦ funext fun comps ↦ resolveWith_congr h _ cur comps

theorem locateWith_append {follow : Place N → List (Comp N) → Option (Place N)}
    (hfollow : ∀ cur a b p, fs.node cur = some .dir → follow cur (a ++ b) = some p → fs.node p = some .dir →
      ∃ q, follow cur a = some q ∧ fs.node q = some .dir)
    {cur p : Place N} (hcur : fs.node cur = some .dir) {a b : List (Comp N)}
    (h : locateWith fs follow cur (a ++ b) = some p) (hp : fs.node p = some .dir) :
    ∃ q, locateWith fs follow cur a = some q ∧ fs.node q = some .dir := by
  induction a generalizing cur with
  | nil => exact ⟨cur, rfl, hcur⟩
  | cons c a ih =>
    cases c with
    | here => exact ih hcur h
    | up =>
      refine ih ?_ h
      cases cur with
      | nil => exact hcur
      | cons n cur => exact fs.parent_dir _ (List.cons_ne_nil _ _) (hcur ▸ Option.some_ne_none _)
    | name n =>
      rw [List.cons_append, locateWith] at h
      rw [locateWith]
      have hend : (if (a ++ b).isEmpty then some (cur ++ [n]) else none) = some p → p = cur ++ [n] := by
        intro h
        split_ifs at h
        exact (Option.some.inj h).symm
      cases hnode : fs.node (cur ++ [n]) with
      | none =>
        rw [hnode] at h
        rw [hend h, hnode] at hp
        cases hp
      | some node =>
        rw [hnode] at h
        cases node with
        | dir => exact ih hnode h
        | file inode =>
          rw [hend h, hnode] at hp
          cases hp
        | link target =>
          dsimp only at h ⊢
          rw [← List.append_assoc] at h
          refine hfollow _ _ _ _ ?_ h hp
          split_ifs
          · exact fs.root_dir
          · exact hcur

/-- What comes first on the way to a directory leads to a directory itself. -/
theorem locate_append {links : ℕ} {cur p : Place N} (hcur : fs.node cur = some .dir) {a b : List (Comp N)}
    (h : locate fs links cur (a ++ b) = some p) (hp : fs.node p = some .dir) :
    ∃ q, locate fs links cur a = some q ∧ fs.node q = some .dir := by
  induction links generalizing cur a b p with
  | zero =>
    refine locateWith_append (fun _ _ _ _ _ h ↦ ?_) hcur h hp
    cases h
  | succ links ih => exact locateWith_append (fun _ _ _ _ hcur h hp ↦ ih hcur h hp) hcur h hp

theorem resolveWith_concat {follow : Place N → List (Comp N) → Option (Place N)} {n : N} {d : Place N}
    (hfollow : ∀ cur a, follow cur a = some d → follow cur (a ++ [.name n]) = some (d ++ [n]))
    (hlink : ∀ target, fs.node (d ++ [n]) ≠ some (.link target)) {cur : Place N} {a : List (Comp N)}
    (h : resolveWith fs follow cur a = some d) : resolveWith fs follow cur (a ++ [.name n]) = some (d ++ [n]) := by
  induction a generalizing cur with
  | nil =>
    obtain rfl := Option.some.inj h
    rw [List.nil_append, resolveWith]
    split
    next target htarget => exact absurd htarget (hlink target)
    next => rfl
  | cons c a ih =>
    cases c with
    | here => exact ih h
    | up => exact ih h
    | name m =>
      rw [resolveWith] at h
      rw [List.cons_append, resolveWith]
      split at h
      next target _ =>
        rw [← List.append_assoc]
        exact hfollow _ _ h
      next => exact ih h

/-- A name in the place that a path is resolved to, which is no link. -/
theorem resolve_concat {links : ℕ} {cur d : Place N} {a : List (Comp N)} {n : N} (h : resolve fs links cur a = some d)
    (hlink : ∀ target, fs.node (d ++ [n]) ≠ some (.link target)) :
    resolve fs links cur (a ++ [.name n]) = some (d ++ [n]) := by
  induction links generalizing cur a with
  | zero =>
    refine resolveWith_concat (fun _ _ h ↦ ?_) hlink h
    cases h
  | succ links ih => exact resolveWith_concat (fun _ _ h ↦ ih h) hlink h

section
variable [DecidableEq N] {links : ℕ} {comps a b : List (Comp N)} {d : Place N}

theorem enter_eq_some : enter fs links comps = some d ↔ locate fs links [] comps = some d ∧ fs.node d = some .dir := by
  rw [enter, Option.filter_eq_some_iff, decide_eq_true_eq]

theorem enter_append (h : enter fs links (a ++ b) = some d) : ∃ q, enter fs links a = some q := by
  obtain ⟨hlocate, hd⟩ := enter_eq_some.mp h
  obtain ⟨q, hq⟩ := locate_append fs.root_dir hlocate hd
  exact ⟨q, enter_eq_some.mpr hq⟩

theorem resolve_of_enter (h : enter fs links comps = some d) : resolve fs links [] comps = some d :=
  resolve_of_locate (enter_eq_some.mp h).1

end

end Briefr.Library.FileTree
