import Briefr.Library.FileTree
import Briefr.Python.Value

namespace Briefr.Backup.TarExtraction

open Briefr.Python Briefr.Library.FileTree

abbrev Tree := Fs Text

abbrev Comps := List (Comp Text)

inductive Kind
  | file
  | dir
  | sym (linkname : Text)
  | hard (linkname : Text)
  deriving DecidableEq

structure Member where
  name : Text
  kind : Kind
  deriving DecidableEq

def isAbsolute (text : Text) : Bool := text.head? = some '/'

def comps (text : Text) : Comps :=
  ((text.splitOn '/').filter fun part ↦ !part.isEmpty).map fun part ↦
    if part = ['.'] then .here else if part = ['.', '.'] then .up else .name part

/-- The target of a symbolic link; one that ends in a slash is a directory. -/
def linkPath (text : Text) : Path Text :=
  ⟨isAbsolute text, comps text ++ if text.getLast? = some '/' then [.here] else []⟩

/-- `os.path.join(path, name)` -/
def join (root : Place Text) (name : Text) : Comps :=
  if isAbsolute name then comps name else root.map .name ++ comps name

/-- `os.path.normpath` -/
def normpath (text : Text) : Path Text :=
  ⟨isAbsolute text, (comps text).foldl (fun done comp ↦ match comp with
    | .here => done
    | .name n => done ++ [.name n]
    | .up => match done.getLast? with
      | some (.name _) => done.dropLast
      | _ => if isAbsolute text then done else done ++ [.up]) []⟩

/-- The links that the system follows on one path. -/
def maxLinks : ℕ := 40

/-- What one call makes: a new node at a place, or new content of a file that is there. -/
inductive Event
  | made (p : Place Text)
  | wrote (fs : Tree) (inode : ℕ)

def Event.Touches : Event → Place Text → Prop
  | .made p, q => q = p
  | .wrote fs inode, q => fs.node q = some (.file inode)

def exists? (fs : Tree) (path : Comps) : Bool :=
  match locate fs maxLinks [] path with
  | some p => (fs.node p).isSome
  | none => false

def mkdir (fs : Tree) (parent : Comps) (comp : Comp Text) : Option (Tree × Place Text) :=
  match comp, enter fs maxLinks parent with
  | .name n, some d =>
    if fs.node (d ++ [n]) = none then (fs.put? (d ++ [n]) .dir).map fun fs' ↦ (fs', d ++ [n]) else none
  | _, _ => none

/-- `os.makedirs` of a path that is not there, with the directories made. A part that is there when its turn comes is
passed over, unless it is the last one. -/
def makedirs (fs : Tree) : Comps → Comps → Option (Tree × List (Place Text))
  | _, [] => some (fs, [])
  | done, comp :: rest =>
    match enter fs maxLinks (done ++ [comp]) with
    | some _ => if rest = [] ∧ comp ≠ .here then none else makedirs fs (done ++ [comp]) rest
    | none => do
      let (fs, p) ← mkdir fs done comp
      let (fs, made) ← makedirs fs (done ++ [comp]) rest
      pure (fs, p :: made)

def makeUpperdirs (fs : Tree) (upper : Comps) : Option (Tree × List (Place Text)) :=
  if exists? fs upper then some (fs, []) else makedirs fs [] upper

/-- The tree with the upper directories of a path, those that are made for it, and the one that it goes to. -/
def upperdirs (fs : Tree) (path : Comps) : Option (Tree × List (Place Text) × Place Text) := do
  let (fs, made) ← makeUpperdirs fs path.dropLast
  let d ← enter fs maxLinks path.dropLast
  pure (fs, made, d)

/-- The member that `_find_link_target` leads to in the end. -/
def copied : List Member → Text → Option Member
  | [], _ => none
  | member :: earlier, name =>
    if normpath member.name = normpath name then
      match member.kind with
      | .hard linkname => copied earlier linkname
      | _ => some member
    else copied earlier name

/-- What is made at the path of a member. -/
inductive Act
  | makefile
  | makedir
  | entry (node : Node Text)
  | nothing
  deriving DecidableEq

/-- The entry of the member's name in the directory `d`. -/
def place? (d : Place Text) (path : Comps) : Option (Place Text) :=
  match path.getLast? with
  | some (.name n) => some (d ++ [n])
  | _ => none

/-- `symlink`, behind an `unlink` of what is there; it fails on a directory. -/
def symlinkAct (fs : Tree) (d : Place Text) (path : Comps) (linkname : Text) : Option Act :=
  match place? d path with
  | some p => if fs.node p = some .dir then none else some (.entry (.link (linkPath linkname)))
  | none => none

def copyAct (fs : Tree) (earlier : List Member) (d : Place Text) (path : Comps) (linkname : Text) : Act :=
  match copied earlier linkname with
  | some ⟨_, .file⟩ => .makefile
  | some ⟨_, .dir⟩ => .makedir
  | some ⟨_, .sym target⟩ => if target = [] then .nothing else (symlinkAct fs d path target).getD .nothing
  | _ => .nothing

/-- The node that `link` gives a second place: it does not follow a link. -/
def linked? (fs : Tree) (source : Comps) : Option (Node Text) := do
  let d ← enter fs maxLinks source.dropLast
  let p ← place? d source
  let node ← fs.node p
  if node = .dir then none else some node

/-- The name that a symbolic link of the archive gives for its target. -/
def linkTarget (name linkname : Text) : Text :=
  let head := name.rdropWhile fun c ↦ c != '/'
  let dirname := if head.all fun c ↦ c == '/' then head else head.rdropWhile fun c ↦ c == '/'
  if dirname = [] then linkname else dirname ++ '/' :: linkname

/-- The branch of `_extract_member` by the member's type; `none` where it raises. -/
def act (fs : Tree) (root : Place Text) (all earlier : List Member) (path : Comps) (d : Place Text)
    (member : Member) : Option Act :=
  match member.kind with
  | .file => some .makefile
  | .dir => some .makedir
  | .sym linkname =>
    if linkname = [] then none
    else
      match symlinkAct fs d path linkname with
      | some act => some act
      | none =>
        -- the directory in the way is not replaced by a file either
        match copied all.reverse (linkTarget member.name linkname) with
        | some ⟨_, .file⟩ => none
        | _ => some .nothing
  | .hard linkname =>
    if exists? fs (join root linkname) then
      match linked? fs (join root linkname), place? d path with
      | some node, some p => if fs.node p = none then some (.entry node) else some (copyAct fs earlier d path linkname)
      | _, _ => some (copyAct fs earlier d path linkname)
    else if earlier.any fun other ↦ normpath other.name = normpath linkname then
      some (copyAct fs earlier d path linkname)
    else none

def perform (fs : Tree) (path : Comps) (d : Place Text) : Act → Option (Tree × List Event)
  | .makefile =>
    match locate fs maxLinks [] path with
    | none => none
    | some p =>
      match fs.node p with
      | none => (fs.put? p (.file fs.inodes)).map fun fs' ↦ (fs', [.made p])
      | some (.file inode) => some (fs, [.wrote fs inode])
      | _ => none
  | .makedir =>
    match place? d path with
    | none => some (fs, [])
    | some p =>
      if fs.node p = none then (fs.put? p .dir).map fun fs' ↦ (fs', [.made p])
      else if (enter fs maxLinks path).isSome then some (fs, []) else none
  | .entry node =>
    match place? d path with
    | none => none
    | some p => (fs.put? p node).map fun fs' ↦ (fs', [.made p])
  | .nothing => some (fs, [])

/-- One member of `extractall`; `earlier` has the members before it, the last one first. -/
def extractMember (fs : Tree) (root : Place Text) (all earlier : List Member) (member : Member) :
    Option (Tree × List Event) := do
  let path := join root member.name
  let (fs, made, d) ← upperdirs fs path
  let act ← act fs root all earlier path d member
  let (fs, events) ← perform fs path d act
  pure (fs, made.map .made ++ events)

def extractall (fs : Tree) (root : Place Text) (all : List Member) :
    List Member → List Member → Option (Tree × List Event)
  | _, [] => some (fs, [])
  | earlier, member :: rest => do
    let (fs, events) ← extractMember fs root all earlier member
    let (fs, more) ← extractall fs root all (member :: earlier) rest
    pure (fs, events ++ more)

/-- Whether the resolved path of a name is in the root. -/
def isSafe (fs : Tree) (root : Place Text) (name : Text) : Bool :=
  match resolve fs maxLinks [] (join root name) with
  | some p => root.isPrefixOf p
  | none => false

/-- The tree that is extracted and what is made on the way, or `none` if an exception is raised. -/
def safeExtractTar (fs : Tree) (root : Place Text) (members : List Member) : Option (Tree × List Event) :=
  if members.all fun member ↦ isSafe fs root member.name then extractall fs root members [] members else none

/-- A tree with some new directories. -/
structure Grown (fs fs' : Tree) (made : List (Place Text)) : Prop where
  old : ∀ p, p ∉ made → fs'.node p = fs.node p
  fresh : ∀ p ∈ made, fs.node p = none
  dir : ∀ p ∈ made, fs'.node p = some .dir

section
variable {fs fs' fs₁ : Tree} {made : List (Place Text)} {p d root : Place Text}

theorem Grown.refl (fs : Tree) : Grown fs fs [] := ⟨fun _ _ ↦ rfl, List.forall_mem_nil _, List.forall_mem_nil _⟩

theorem Grown.cons (hput : fs.put? p .dir = some fs₁) (hp : fs.node p = none) (h : Grown fs₁ fs' made) :
    Grown fs fs' (p :: made) := by
  have hnode := (Fs.put?_eq_some hput).1
  have hself : fs₁.node p = some .dir := by rw [hnode, Function.update_self]
  have hother : ∀ q, q ≠ p → fs₁.node q = fs.node q := fun q hq ↦ by rw [hnode, Function.update_of_ne hq]
  have hnot : p ∉ made := by
    intro hmem
    have hnone := h.fresh p hmem
    rw [hself] at hnone
    cases hnone
  refine ⟨fun q hq ↦ ?_, ?_, ?_⟩
  · obtain ⟨hne, hq⟩ := not_or.mp (mt List.mem_cons.mpr hq)
    rw [h.old q hq, hother q hne]
  · refine List.forall_mem_cons.mpr ⟨hp, fun q hq ↦ ?_⟩
    have hne : q ≠ p := fun heq ↦ hnot (heq ▸ hq)
    rw [← hother q hne, h.fresh q hq]
  · refine List.forall_mem_cons.mpr ⟨?_, h.dir⟩
    rw [h.old p hnot, hself]

theorem Grown.sameLinks (h : Grown fs fs' made) : SameLinks fs fs' := by
  intro p target
  by_cases hp : p ∈ made
  · rw [h.fresh p hp, h.dir p hp]
    constructor <;> rintro ⟨⟩
  · rw [h.old p hp]

theorem Grown.keeps (h : Grown fs fs' made) (hroot : fs.node root = some .dir) : fs'.node root = some .dir := by
  by_cases hp : root ∈ made
  · exact h.dir root hp
  · rw [h.old root hp, hroot]

theorem mkdir_eq_some {parent : Comps} {comp : Comp Text} (h : mkdir fs parent comp = some (fs', p)) :
    ∃ n, comp = .name n ∧ resolve fs maxLinks [] (parent ++ [.name n]) = some p ∧ fs.node p = none ∧
      fs.put? p .dir = some fs' := by
  unfold mkdir at h
  split at h
  next n d henter =>
    split_ifs at h with hnone
    obtain ⟨_, hput, heq⟩ := Option.map_eq_some_iff.mp h
    obtain ⟨rfl, rfl⟩ := Prod.mk.inj heq
    refine ⟨n, rfl, resolve_concat (resolve_of_enter henter) fun target htarget ↦ ?_, hnone, hput⟩
    rw [hnone] at htarget
    cases htarget
  next => cases h

/-- The directories that are made are those that the names on the path are resolved to. -/
theorem makedirs_grown {done rest : Comps} (h : makedirs fs done rest = some (fs', made)) :
    Grown fs fs' made ∧
      ∀ p ∈ made, ∃ q n, (q ++ [.name n]) <+: done ++ rest ∧ resolve fs maxLinks [] (q ++ [.name n]) = some p := by
  induction rest generalizing fs done made with
  | nil =>
    obtain ⟨rfl, rfl⟩ := Prod.mk.inj (Option.some.inj h)
    exact ⟨.refl fs, List.forall_mem_nil _⟩
  | cons comp rest ih =>
    have hassoc : done ++ comp :: rest = (done ++ [comp]) ++ rest := by simp
    rw [makedirs] at h
    split at h
    next =>
      split_ifs at h
      rw [hassoc]
      exact ih h
    next =>
      obtain ⟨⟨fs₁, p⟩, hmkdir, h⟩ := Option.bind_eq_some_iff.mp h
      obtain ⟨⟨_, rest'⟩, hrest, h⟩ := Option.bind_eq_some_iff.mp h
      obtain ⟨rfl, rfl⟩ := Prod.mk.inj (Option.some.inj h)
      obtain ⟨n, rfl, hresolve, hnone, hput⟩ := mkdir_eq_some hmkdir
      obtain ⟨hgrown, hmade⟩ := ih hrest
      have hcons := hgrown.cons hput hnone
      have hone : Grown fs fs₁ [p] := (Grown.refl fs₁).cons hput hnone
      refine ⟨hcons, List.forall_mem_cons.mpr ⟨⟨done, n, ?_, hresolve⟩, fun p' hp' ↦ ?_⟩⟩
      · rw [hassoc]
        exact List.prefix_append _ _
      · obtain ⟨q, m, hprefix, hq⟩ := hmade p' hp'
        rw [hassoc]
        exact ⟨q, m, hprefix, by rw [resolve_congr hone.sameLinks, hq]⟩

/-- No directory that is missing on the way lies outside. -/
def WayStays (fs : Tree) (root : Place Text) (upper : Comps) : Prop :=
  ∀ q n p, (q ++ [.name n]) <+: upper → resolve fs maxLinks [] (q ++ [.name n]) = some p → fs.node p = none → root <+: p

theorem made_iff_wayStays {upper : Comps} (hgrown : Grown fs fs' made)
    (hmade : ∀ p ∈ made, ∃ q n, (q ++ [.name n]) <+: upper ∧ resolve fs maxLinks [] (q ++ [.name n]) = some p)
    (henter : enter fs' maxLinks upper = some d) : (∀ p ∈ made, root <+: p) ↔ WayStays fs root upper := by
  constructor
  · intro h q n p hprefix hresolve hnone
    obtain ⟨rest, rfl⟩ := hprefix
    obtain ⟨p', hp'⟩ := enter_append henter
    have hresolve' := resolve_of_enter hp'
    rw [← resolve_congr hgrown.sameLinks, hresolve] at hresolve'
    obtain rfl := Option.some.inj hresolve'
    refine h p (by_contra fun hnot ↦ ?_)
    have hdir := (enter_eq_some.mp hp').2
    rw [hgrown.old p hnot, hnone] at hdir
    cases hdir
  · intro h p hp
    obtain ⟨q, n, hprefix, hresolve⟩ := hmade p hp
    exact h q n p hprefix hresolve (hgrown.fresh p hp)

/-- Nothing outside is touched. -/
def Inside (root : Place Text) (events : List Event) : Prop := ∀ e ∈ events, ∀ p, e.Touches p → root <+: p

theorem inside_nil (root : Place Text) : Inside root [] := List.forall_mem_nil _

theorem inside_append {events events' : List Event} :
    Inside root (events ++ events') ↔ Inside root events ∧ Inside root events' := List.forall_mem_append

theorem inside_made (root : Place Text) (made : List (Place Text)) :
    Inside root (made.map .made) ↔ ∀ p ∈ made, root <+: p := by
  constructor
  · intro h p hp
    exact h _ (List.mem_map_of_mem hp) p rfl
  · intro h e he p hp
    obtain ⟨q, hq, rfl⟩ := List.mem_map.mp he
    obtain rfl : p = q := hp
    exact h p hq

theorem inside_singleton : Inside root [.made p] ↔ root <+: p := by
  have h := inside_made root [p]
  rwa [List.map_singleton, List.forall_mem_singleton] at h

/-- What an act makes lies inside, by the tree that it is done in. -/
def Act.Stays (fs : Tree) (root : Place Text) (path : Comps) : Act → Prop
  | .makefile => ∀ p, resolve fs maxLinks [] path = some p →
      root <+: p ∧ ∀ inode q, fs.node p = some (.file inode) → fs.node q = some (.file inode) → root <+: q
  | .makedir => ∀ n p, path.getLast? = some (.name n) → resolve fs maxLinks [] path = some p → fs.node p = none →
      root <+: p
  | .entry _ => ∀ d, resolve fs maxLinks [] path.dropLast = some d → root <+: d
  | .nothing => True

theorem prefix_concat {n : Text} (hroot : fs.node root = some .dir) (hp : fs.node (d ++ [n]) ≠ some .dir) :
    root <+: d ++ [n] ↔ root <+: d := by
  constructor
  · intro h
    rcases List.prefix_concat_iff.mp h with rfl | h
    · exact absurd hroot hp
    · exact h
  · intro h
    exact h.trans (List.prefix_append _ _)

theorem put?_keeps {node : Node Text} (hroot : fs.node root = some .dir) (h : fs.put? p node = some fs') :
    fs'.node root = some .dir := by
  obtain ⟨hnode, -, -, hp⟩ := Fs.put?_eq_some h
  have hne : root ≠ p := by
    rintro rfl
    exact hp hroot
  rw [hnode, Function.update_of_ne hne, hroot]

theorem place?_eq_some {path : Comps} (h : place? d path = some p) :
    ∃ n, p = d ++ [n] ∧ path = path.dropLast ++ [.name n] := by
  unfold place? at h
  split at h
  next n hlast =>
    obtain rfl := Option.some.inj h
    exact ⟨n, rfl, (List.dropLast_append_getLast? _ hlast).symm⟩
  next => cases h

theorem perform_keeps {act : Act} {path : Comps} {events : List Event} (hroot : fs.node root = some .dir)
    (h : perform fs path d act = some (fs', events)) : fs'.node root = some .dir := by
  have hput : ∀ p node, (fs.put? p node).map (fun fs' ↦ (fs', [Event.made p])) = some (fs', events) →
      fs'.node root = some .dir := by
    intro p node h
    obtain ⟨_, hput, heq⟩ := Option.map_eq_some_iff.mp h
    obtain ⟨rfl, -⟩ := Prod.mk.inj heq
    exact put?_keeps hroot hput
  cases act with
  | makefile =>
    simp only [perform] at h
    split at h
    next => cases h
    next p _ =>
      split at h
      next => exact hput _ _ h
      next =>
        obtain ⟨rfl, -⟩ := Prod.mk.inj (Option.some.inj h)
        exact hroot
      next => cases h
  | makedir =>
    simp only [perform] at h
    split at h
    next =>
      obtain ⟨rfl, -⟩ := Prod.mk.inj (Option.some.inj h)
      exact hroot
    next p _ =>
      split_ifs at h
      · exact hput _ _ h
      · obtain ⟨rfl, -⟩ := Prod.mk.inj (Option.some.inj h)
        exact hroot
  | entry node =>
    simp only [perform] at h
    split at h
    next => cases h
    next p _ => exact hput _ _ h
  | nothing =>
    obtain ⟨rfl, -⟩ := Prod.mk.inj (Option.some.inj h)
    exact hroot

theorem makefile_iff {path : Comps} {events : List Event} (h : perform fs path d .makefile = some (fs', events)) :
    Inside root events ↔ Act.Stays fs root path .makefile := by
  simp only [perform] at h
  split at h
  next => cases h
  next p hlocate =>
    have hresolve := resolve_of_locate hlocate
    have hstays : Act.Stays fs root path .makefile ↔ root <+: p ∧ ∀ inode q, fs.node p = some (.file inode) →
        fs.node q = some (.file inode) → root <+: q := by
      rw [Act.Stays, hresolve]
      exact ⟨fun h ↦ h p rfl, fun h p' hp' ↦ Option.some.inj hp' ▸ h⟩
    rw [hstays]
    split at h
    next hnone =>
      obtain ⟨_, -, heq⟩ := Option.map_eq_some_iff.mp h
      obtain ⟨rfl, rfl⟩ := Prod.mk.inj heq
      rw [inside_singleton, hnone]
      exact ⟨fun h ↦ ⟨h, fun _ _ h ↦ by cases h⟩, And.left⟩
    next inode hfile =>
      obtain ⟨rfl, rfl⟩ := Prod.mk.inj (Option.some.inj h)
      constructor
      · intro h
        have hall := h _ (.head _)
        refine ⟨hall p hfile, fun i q hi hq ↦ hall q ?_⟩
        rw [hfile] at hi
        rwa [Event.Touches, Node.file.inj (Option.some.inj hi)]
      · rintro ⟨-, hall⟩ e he q hq
        obtain rfl := List.mem_singleton.mp he
        exact hall inode q hfile hq
    next => cases h

theorem makedir_iff {path : Comps} {events : List Event} (henter : enter fs maxLinks path.dropLast = some d)
    (h : perform fs path d .makedir = some (fs', events)) :
    Inside root events ↔ Act.Stays fs root path .makedir := by
  simp only [perform] at h
  split at h
  next hplace =>
    obtain ⟨rfl, rfl⟩ := Prod.mk.inj (Option.some.inj h)
    refine ⟨fun _ n p hlast ↦ ?_, fun _ ↦ inside_nil root⟩
    simp only [place?, hlast] at hplace
    cases hplace
  next p hplace =>
    obtain ⟨n, rfl, hpath⟩ := place?_eq_some hplace
    split_ifs at h with hnone hthere
    · obtain ⟨_, -, heq⟩ := Option.map_eq_some_iff.mp h
      obtain ⟨rfl, rfl⟩ := Prod.mk.inj heq
      have hresolve : resolve fs maxLinks [] path = some (d ++ [n]) := by
        rw [hpath]
        refine resolve_concat (resolve_of_enter henter) fun target htarget ↦ ?_
        rw [hnone] at htarget
        cases htarget
      rw [inside_singleton, Act.Stays, hresolve]
      constructor
      · intro h _ p _ hp _
        exact Option.some.inj hp ▸ h
      · intro h
        exact h n _ (hpath ▸ List.getLast?_concat) rfl hnone
    · obtain ⟨rfl, rfl⟩ := Prod.mk.inj (Option.some.inj h)
      obtain ⟨p, hp⟩ := Option.isSome_iff_exists.mp hthere
      refine ⟨fun _ _ p' _ hp' hnone' ↦ ?_, fun _ ↦ inside_nil root⟩
      rw [resolve_of_enter hp] at hp'
      obtain rfl := Option.some.inj hp'
      rw [(enter_eq_some.mp hp).2] at hnone'
      cases hnone'

theorem entry_iff {path : Comps} {node : Node Text} {events : List Event} (hroot : fs.node root = some .dir)
    (henter : enter fs maxLinks path.dropLast = some d) (h : perform fs path d (.entry node) = some (fs', events)) :
    Inside root events ↔ Act.Stays fs root path (.entry node) := by
  simp only [perform] at h
  split at h
  next => cases h
  next p hplace =>
    obtain ⟨n, rfl, -⟩ := place?_eq_some hplace
    obtain ⟨_, hput, heq⟩ := Option.map_eq_some_iff.mp h
    obtain ⟨rfl, rfl⟩ := Prod.mk.inj heq
    have hdir := (Fs.put?_eq_some hput).2.2.2
    rw [inside_singleton, prefix_concat hroot hdir, Act.Stays, resolve_of_enter henter]
    exact ⟨fun h d' hd' ↦ Option.some.inj hd' ▸ h, fun h ↦ h d rfl⟩

theorem perform_iff {act : Act} {path : Comps} {events : List Event} (hroot : fs.node root = some .dir)
    (henter : enter fs maxLinks path.dropLast = some d) (h : perform fs path d act = some (fs', events)) :
    Inside root events ↔ act.Stays fs root path := by
  cases act with
  | makefile => exact makefile_iff h
  | makedir => exact makedir_iff henter h
  | entry node => exact entry_iff hroot henter h
  | nothing =>
    obtain ⟨-, rfl⟩ := Prod.mk.inj (Option.some.inj h)
    exact ⟨fun _ ↦ trivial, fun _ ↦ inside_nil root⟩

/-- A member stays inside, by the tree that the members before it left: so do the directories that are missing on its
way, and what its type makes. -/
structure Stays (fs : Tree) (root : Place Text) (all earlier : List Member) (member : Member) : Prop where
  upper : WayStays fs root (join root member.name).dropLast
  made : ∀ fs₁ made d action, upperdirs fs (join root member.name) = some (fs₁, made, d) →
    act fs₁ root all earlier (join root member.name) d member = some action →
      action.Stays fs₁ root (join root member.name)

theorem upperdirs_eq_some {path : Comps} (h : upperdirs fs path = some (fs₁, made, d)) :
    Grown fs fs₁ made ∧ enter fs₁ maxLinks path.dropLast = some d ∧
      ∀ p ∈ made, ∃ q n, (q ++ [.name n]) <+: path.dropLast ∧ resolve fs maxLinks [] (q ++ [.name n]) = some p := by
  obtain ⟨⟨fs₂, made₂⟩, hmade, h⟩ := Option.bind_eq_some_iff.mp h
  obtain ⟨d₂, henter, h⟩ := Option.bind_eq_some_iff.mp h
  obtain ⟨rfl, hpair⟩ := Prod.mk.inj (Option.some.inj h)
  obtain ⟨rfl, rfl⟩ := Prod.mk.inj hpair
  rw [makeUpperdirs] at hmade
  split_ifs at hmade
  · obtain ⟨rfl, rfl⟩ := Prod.mk.inj (Option.some.inj hmade)
    exact ⟨.refl _, henter, List.forall_mem_nil _⟩
  · obtain ⟨hgrown, hall⟩ := makedirs_grown hmade
    exact ⟨hgrown, henter, hall⟩

variable {all earlier : List Member} {events : List Event}

/-- One member touches nothing outside exactly if it stays inside, and leaves the root a directory. -/
theorem extractMember_iff {member : Member} (hroot : fs.node root = some .dir)
    (h : extractMember fs root all earlier member = some (fs', events)) :
    (Inside root events ↔ Stays fs root all earlier member) ∧ fs'.node root = some .dir := by
  obtain ⟨⟨fs₁, made, d⟩, hupper, h⟩ := Option.bind_eq_some_iff.mp h
  obtain ⟨action, hact, h⟩ := Option.bind_eq_some_iff.mp h
  obtain ⟨⟨fs₂, events₂⟩, hperform, h⟩ := Option.bind_eq_some_iff.mp h
  obtain ⟨rfl, rfl⟩ := Prod.mk.inj (Option.some.inj h)
  obtain ⟨hgrown, henter, hmade⟩ := upperdirs_eq_some hupper
  have hroot₁ := hgrown.keeps hroot
  refine ⟨?_, perform_keeps hroot₁ hperform⟩
  rw [inside_append, inside_made, made_iff_wayStays hgrown hmade henter, perform_iff hroot₁ henter hperform]
  constructor
  · rintro ⟨hway, hstays⟩
    refine ⟨hway, fun fs₃ made₃ d₃ action₃ hupper₃ hact₃ ↦ ?_⟩
    rw [hupper] at hupper₃
    obtain ⟨rfl, h₃⟩ := Prod.mk.inj (Option.some.inj hupper₃)
    obtain ⟨rfl, rfl⟩ := Prod.mk.inj h₃
    rw [hact] at hact₃
    exact Option.some.inj hact₃ ▸ hstays
  · intro h
    exact ⟨h.upper, h.made fs₁ made d action hupper hact⟩

/-- Each member stays inside at its turn. -/
def AllStay (fs : Tree) (root : Place Text) (all : List Member) : List Member → List Member → Prop
  | _, [] => True
  | earlier, member :: rest => Stays fs root all earlier member ∧
      ∀ fs' events, extractMember fs root all earlier member = some (fs', events) →
        AllStay fs' root all (member :: earlier) rest

theorem extractall_iff {members : List Member} (hroot : fs.node root = some .dir)
    (h : extractall fs root all earlier members = some (fs', events)) :
    Inside root events ↔ AllStay fs root all earlier members := by
  induction members generalizing fs earlier events with
  | nil =>
    obtain ⟨-, rfl⟩ := Prod.mk.inj (Option.some.inj h)
    exact ⟨fun _ ↦ trivial, fun _ ↦ inside_nil root⟩
  | cons member rest ih =>
    obtain ⟨⟨fs₁, first⟩, hfirst, h⟩ := Option.bind_eq_some_iff.mp h
    obtain ⟨⟨fs₂, more⟩, hmore, h⟩ := Option.bind_eq_some_iff.mp h
    obtain ⟨rfl, rfl⟩ := Prod.mk.inj (Option.some.inj h)
    obtain ⟨hiff, hroot₁⟩ := extractMember_iff hroot hfirst
    rw [inside_append, hiff, ih hroot₁ hmore, AllStay, hfirst]
    constructor
    · rintro ⟨hstays, hrest⟩
      refine ⟨hstays, fun fs₃ events₃ h₃ ↦ ?_⟩
      obtain ⟨rfl, rfl⟩ := Prod.mk.inj (Option.some.inj h₃)
      exact hrest
    · rintro ⟨hstays, hrest⟩
      exact ⟨hstays, hrest fs₁ first rfl⟩

/-- An extraction that returns has touched nothing outside exactly if each member stays inside at its turn. -/
theorem safeExtractTar_inside_iff {members : List Member} (hroot : fs.node root = some .dir)
    (h : safeExtractTar fs root members = some (fs', events)) :
    Inside root events ↔ AllStay fs root members [] members := by
  rw [safeExtractTar] at h
  split_ifs at h
  exact extractall_iff hroot h

end

/-- A root with an empty directory in it. -/
def exampleTree : Tree where
  node := fun p ↦ if p = [] ∨ p = ["dest".toList] then some .dir else none
  inodes := 0
  root_dir := rfl
  parent_dir p hp hnode := by
    split_ifs at hnode with h
    · rcases h with rfl | rfl
      · exact absurd rfl hp
      · rfl
    · exact absurd rfl hnode

def exampleRoot : Place Text := ["dest".toList]

def plainMembers : List Member := [⟨"data".toList, .dir⟩, ⟨"data/briefr.db".toList, .file⟩]

/-- A link to the root of the tree, and a file behind it. -/
def linkMembers : List Member := [⟨"out".toList, .sym "/".toList⟩, ⟨"out/briefr.db".toList, .file⟩]

/-- The places that an extraction makes. -/
def madePlaces (members : List Member) : Option (List (Place Text)) :=
  (safeExtractTar exampleTree exampleRoot members).map fun r ↦ r.2.flatMap fun e ↦ match e with
    | .made p => [p]
    | .wrote _ _ => []

theorem safeExtractTar_inside_iff_plain : ∃ fs events,
    safeExtractTar exampleTree exampleRoot plainMembers = some (fs, events) ∧
      (Inside exampleRoot events ↔ AllStay exampleTree exampleRoot plainMembers [] plainMembers) := by
  have hplaces : madePlaces plainMembers =
      some [["dest".toList, "data".toList], ["dest".toList, "data".toList, "briefr.db".toList]] := by decide +kernel
  obtain ⟨⟨fs, events⟩, h, -⟩ := Option.map_eq_some_iff.mp hplaces
  exact ⟨fs, events, h, safeExtractTar_inside_iff rfl h⟩

theorem linkMembers_outside : ∃ fs events, safeExtractTar exampleTree exampleRoot linkMembers = some (fs, events) ∧
    ¬Inside exampleRoot events := by
  have hplaces : madePlaces linkMembers = some [["dest".toList, "out".toList], ["briefr.db".toList]] := by
    decide +kernel
  obtain ⟨⟨fs, events⟩, h, hmade⟩ := Option.map_eq_some_iff.mp hplaces
  refine ⟨fs, events, h, fun hinside ↦ ?_⟩
  have hmem : ["briefr.db".toList] ∈ [["dest".toList, "out".toList], ["briefr.db".toList]] := .tail _ (.head _)
  rw [← hmade] at hmem
  obtain ⟨e, he, hp⟩ := List.mem_flatMap.mp hmem
  cases e with
  | made p =>
    have hprefix := hinside _ he _ (List.mem_singleton.mp hp)
    exact absurd hprefix (by decide)
  | wrote fs inode => cases hp

end Briefr.Backup.TarExtraction
