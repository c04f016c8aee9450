import Mathlib.Data.List.Basic

namespace Briefr.Library.YaraSyntax

inductive Token
  | word (text : List Char)
  | str (value : List Char)
  | sym (c : Char)
  deriving DecidableEq

/-- What the lexer is in the middle of, with the part that it has read. -/
inductive Mode
  | gap
  | word (text : List Char)
  | str (value : List Char)
  | escape (value : List Char)
  | hex (value : List Char)
  | hexDigit (value : List Char) (digit : ℕ)
  deriving DecidableEq

def isWordChar (c : Char) : Bool := c.isAlphanum || c == '_'

def isGap (c : Char) : Bool := c == ' ' || c == '\n' || c == '\t' || c == '\r'

def isSymbol (c : Char) : Bool := c ∈ ['{', '}', '(', ')', ':', '=', '.', ',']

def hexValue (c : Char) : Option ℕ :=
  if '0' ≤ c ∧ c ≤ '9' then some (c.toNat - 48)
  else if 'a' ≤ c ∧ c ≤ 'f' then some (c.toNat - 87)
  else if 'A' ≤ c ∧ c ≤ 'F' then some (c.toNat - 55)
  else none

def escaped (c : Char) : Option Char :=
  if c = '"' ∨ c = '\\' then some c
  else if c = 't' then some '\t'
  else if c = 'n' then some '\n'
  else if c = 'r' then some '\r'
  else none

/-- A character that a string literal holds as it is. -/
def isPlain (c : Char) : Bool := c != '"' && c != '\\' && c != '\n'

def start (c : Char) : Option (List Token × Mode) :=
  if isGap c then some ([], .gap)
  else if isWordChar c then some ([], .word [c])
  else if c = '"' then some ([], .str [])
  else if isSymbol c then some ([.sym c], .gap)
  else none

/-- One character of the source, with the tokens that it ends. -/
def next : Mode → Char → Option (List Token × Mode)
  | .gap, c => start c
  | .word text, c =>
    if isWordChar c then some ([], .word (text ++ [c]))
    else (start c).map fun r ↦ (.word text :: r.1, r.2)
  | .str value, c =>
    if isPlain c then some ([], .str (value ++ [c]))
    else if c = '"' then some ([.str value], .gap)
    else if c = '\\' then some ([], .escape value)
    else none
  | .escape value, c =>
    if c = 'x' then some ([], .hex value) else (escaped c).map fun d ↦ ([], .str (value ++ [d]))
  | .hex value, c => (hexValue c).map fun n ↦ ([], .hexDigit value n)
  | .hexDigit value digit, c => (hexValue c).map fun n ↦ ([], .str (value ++ [Char.ofNat (16 * digit + n)]))

def run : Mode → List Char → Option (List Token × Mode)
  | mode, [] => some ([], mode)
  | mode, c :: text => do
    let (ended, mode) ← next mode c
    let (tokens, mode) ← run mode text
    pure (ended ++ tokens, mode)

/-- The tokens of a source. -/
def tokens (text : List Char) : Option (List Token) :=
  match run .gap text with
  | some (tokens, .gap) => some tokens
  | some (tokens, .word last) => some (tokens ++ [.word last])
  | _ => none

def keywords : List (List Char) :=
  ["all".toList, "and".toList, "any".toList, "ascii".toList, "at".toList, "base64".toList, "base64wide".toList,
    "condition".toList, "contains".toList, "defined".toList, "endswith".toList, "entrypoint".toList, "false".toList,
    "filesize".toList, "for".toList, "fullword".toList, "global".toList, "icontains".toList, "iendswith".toList,
    "iequals".toList, "import".toList, "in".toList, "include".toList, "int16".toList, "int16be".toList,
    "int32".toList, "int32be".toList, "int8".toList, "int8be".toList, "istartswith".toList, "matches".toList,
    "meta".toList, "nocase".toList, "none".toList, "not".toList, "of".toList, "or".toList, "private".toList,
    "rule".toList, "startswith".toList, "strings".toList, "them".toList, "true".toList, "uint16".toList,
    "uint16be".toList, "uint32".toList, "uint32be".toList, "uint8".toList, "uint8be".toList, "wide".toList,
    "xor".toList]

def isIdentifier (text : List Char) : Bool :=
  decide (text ≠ []) && !text.head?.any Char.isDigit && text.all isWordChar && decide (text.length ≤ 128) &&
    decide (text ∉ keywords)

/-- A rule whose condition compares a digest of the whole file with a string. -/
structure Rule where
  name : List Char
  metas : List (List Char × List Char)
  digest : List Char
  expected : List Char
  deriving DecidableEq

def readImports : List Token → List (List Char) × List Token
  | .word word :: .str name :: rest =>
    if word = "import".toList then (name :: (readImports rest).1, (readImports rest).2)
    else ([], .word word :: .str name :: rest)
  | rest => ([], rest)

def readMetas : List Token → List (List Char × List Char) × List Token
  | .word key :: .sym '=' :: .str value :: rest =>
    if isIdentifier key then ((key, value) :: (readMetas rest).1, (readMetas rest).2)
    else ([], .word key :: .sym '=' :: .str value :: rest)
  | rest => ([], rest)

/-- `hash.md5(0, filesize) == "…"`, and what follows it. -/
def readCondition : List Token → Option (List Char × List Char × List Token)
  | .word library :: .sym '.' :: .word digest :: .sym '(' :: .word zero :: .sym ',' :: .word size :: .sym ')' ::
      .sym '=' :: .sym '=' :: .str expected :: rest =>
    if library = "hash".toList ∧ digest ∈ ["md5".toList, "sha1".toList, "sha256".toList] ∧ zero = "0".toList ∧
        size = "filesize".toList then some (digest, expected, rest)
    else none
  | _ => none

/-- One rule that has a section of metas and a condition. -/
def readRule : List Token → Option (Rule × List Token)
  | .word rule :: .word name :: .sym '{' :: .word heading :: .sym ':' :: rest =>
    match readMetas rest with
    | (metas, .word condition :: .sym ':' :: rest) =>
      match readCondition rest with
      | some (digest, expected, .sym '}' :: rest) =>
        if rule = "rule".toList ∧ isIdentifier name ∧ heading = "meta".toList ∧ metas ≠ [] ∧
            condition = "condition".toList then some (⟨name, metas, digest, expected⟩, rest)
        else none
      | _ => none
    | _ => none
  | _ => none

/-- The rule of a source that imports the `hash` module and holds one rule of the form above. -/
def readSource (text : List Char) : Option Rule :=
  match tokens text with
  | none => none
  | some tokens =>
    match readRule (readImports tokens).2 with
    | some (rule, []) => if "hash".toList ∈ (readImports tokens).1 then some rule else none
    | _ => none

theorem isWordChar_of_isDigit {c : Char} (h : c.isDigit = true) : isWordChar c = true := by
  rw [isWordChar, Char.isAlphanum, h, Bool.or_true, Bool.true_or]

theorem isPlain_of_isWordChar {c : Char} (h : isWordChar c = true) : isPlain c = true := by
  rw [isPlain, Bool.and_eq_true, Bool.and_eq_true, bne_iff_ne, bne_iff_ne, bne_iff_ne]
  refine ⟨⟨?_, ?_⟩, ?_⟩ <;> (rintro rfl; cases h)

theorem run_append (mode : Mode) (a b : List Char) :
    run mode (a ++ b) = (run mode a).bind fun r ↦ (run r.2 b).map fun q ↦ (r.1 ++ q.1, q.2) := by
  induction a generalizing mode with
  | nil =>
    rw [List.nil_append, run]
    cases hb : run mode b with
    | none => simp [hb]
    | some q => simp [hb]
  | cons c a ih =>
    rw [List.cons_append, run, run]
    cases hn : next mode c with
    | none => rfl
    | some r =>
      simp only [bind, Option.bind, ih, pure]
      cases run r.2 a with
      | none => rfl
      | some q =>
        cases hb : run q.2 b with
        | none => simp [hb]
        | some p => simp [hb, List.append_assoc]

theorem run_append_of {mode mode' : Mode} {a : List Char} {ended : List Token} (h : run mode a = some (ended, mode'))
    (b : List Char) : run mode (a ++ b) = (run mode' b).map fun q ↦ (ended ++ q.1, q.2) := by
  rw [run_append, h]
  rfl

theorem run_word {s : List Char} (h : ∀ c ∈ s, isWordChar c = true) (text : List Char) :
    run (.word text) s = some ([], .word (text ++ s)) := by
  induction s generalizing text with
  | nil => rw [List.append_nil, run]
  | cons c s ih =>
    obtain ⟨hc, hs⟩ := List.forall_mem_cons.mp h
    rw [run, next, if_pos hc]
    simp only [bind, Option.bind, ih hs, pure]
    rw [List.append_assoc, List.singleton_append, List.nil_append]

theorem run_plain {s : List Char} (h : ∀ c ∈ s, isPlain c = true) (value : List Char) :
    run (.str value) s = some ([], .str (value ++ s)) := by
  induction s generalizing value with
  | nil => rw [List.append_nil, run]
  | cons c s ih =>
    obtain ⟨hc, hs⟩ := List.forall_mem_cons.mp h
    rw [run, next, if_pos hc]
    simp only [bind, Option.bind, ih hs, pure]
    rw [List.append_assoc, List.singleton_append, List.nil_append]

/-- What a literal has read so far. -/
def Mode.value : Mode → List Char
  | .gap | .word _ => []
  | .str value | .escape value | .hex value | .hexDigit value _ => value

def Mode.inLiteral : Mode → Bool
  | .gap | .word _ => false
  | .str _ | .escape _ | .hex _ | .hexDigit _ _ => true

/-- One character inside a literal ends it, or adds one character to its value at most. -/
theorem next_literal {mode mode' : Mode} (hmode : mode.inLiteral = true) {c : Char} {ended : List Token}
    (h : next mode c = some (ended, mode')) :
    ended = [.str mode.value] ∧ mode' = .gap ∨
      ended = [] ∧ mode'.inLiteral = true ∧ mode'.value.length ≤ mode.value.length + 1 := by
  cases mode with
  | gap => cases hmode
  | word text => cases hmode
  | str value =>
    rw [next] at h
    split_ifs at h
    · obtain ⟨rfl, rfl⟩ := Prod.mk.inj (Option.some.inj h)
      exact .inr ⟨rfl, rfl, Nat.le_of_eq List.length_append⟩
    · obtain ⟨rfl, rfl⟩ := Prod.mk.inj (Option.some.inj h)
      exact .inl ⟨rfl, rfl⟩
    · obtain ⟨rfl, rfl⟩ := Prod.mk.inj (Option.some.inj h)
      exact .inr ⟨rfl, rfl, Nat.le_succ _⟩
  | escape value =>
    rw [next] at h
    split_ifs at h
    · obtain ⟨rfl, rfl⟩ := Prod.mk.inj (Option.some.inj h)
      exact .inr ⟨rfl, rfl, Nat.le_succ _⟩
    · obtain ⟨d, -, heq⟩ := Option.map_eq_some_iff.mp h
      obtain ⟨rfl, rfl⟩ := Prod.mk.inj heq
      exact .inr ⟨rfl, rfl, Nat.le_of_eq List.length_append⟩
  | hex value =>
    obtain ⟨n, -, heq⟩ := Option.map_eq_some_iff.mp h
    obtain ⟨rfl, rfl⟩ := Prod.mk.inj heq
    exact .inr ⟨rfl, rfl, Nat.le_succ _⟩
  | hexDigit value digit =>
    obtain ⟨n, -, heq⟩ := Option.map_eq_some_iff.mp h
    obtain ⟨rfl, rfl⟩ := Prod.mk.inj heq
    exact .inr ⟨rfl, rfl, Nat.le_of_eq List.length_append⟩

theorem run_cons_of {mode middle : Mode} {c : Char} {first : List Token} (h : next mode c = some (first, middle))
    (text : List Char) : run mode (c :: text) = (run middle text).map fun q ↦ (first ++ q.1, q.2) := by
  rw [run, h]
  simp only [bind, Option.bind, pure]
  cases hrun : run middle text <;> simp

theorem run_cons {mode mode' : Mode} {c : Char} {text : List Char} {ended : List Token}
    (h : run mode (c :: text) = some (ended, mode')) :
    ∃ first middle rest, next mode c = some (first, middle) ∧ run middle text = some (rest, mode') ∧
      ended = first ++ rest := by
  rw [run] at h
  obtain ⟨⟨first, middle⟩, hfirst, h⟩ := Option.bind_eq_some_iff.mp h
  obtain ⟨⟨rest, last⟩, hrest, h⟩ := Option.bind_eq_some_iff.mp h
  obtain ⟨rfl, rfl⟩ := Prod.mk.inj (Option.some.inj h)
  exact ⟨first, middle, rest, hfirst, hrest, rfl⟩

/-- A text inside a literal: the literal ends in it and is shorter than it, or goes on and is no longer. -/
theorem run_literal {mode mode' : Mode} (hmode : mode.inLiteral = true) {text : List Char} {ended : List Token}
    (h : run mode text = some (ended, mode')) :
    (∃ value rest, ended = .str value :: rest ∧ value.length < mode.value.length + text.length) ∨
      ended = [] ∧ mode'.inLiteral = true ∧ mode'.value.length ≤ mode.value.length + text.length := by
  induction text generalizing mode ended with
  | nil =>
    obtain ⟨rfl, rfl⟩ := Prod.mk.inj (Option.some.inj h)
    exact .inr ⟨rfl, hmode, Nat.le_refl _⟩
  | cons c text ih =>
    obtain ⟨first, middle, rest, hfirst, hrest, rfl⟩ := run_cons h
    rw [List.length_cons]
    rcases next_literal hmode hfirst with ⟨rfl, rfl⟩ | ⟨rfl, hmiddle, hle⟩
    · exact .inl ⟨_, rest, rfl, by omega⟩
    · rw [List.nil_append]
      rcases ih hmiddle hrest with ⟨value, rest, rfl, hlt⟩ | ⟨rfl, hmode', hle'⟩
      · exact .inl ⟨value, rest, rfl, by omega⟩
      · exact .inr ⟨rfl, hmode', by omega⟩

/-- A text that a literal takes in as long as it is has plain characters only. -/
theorem plain_of_length {value text : List Char} {mode' : Mode} (h : run (.str value) text = some ([], mode'))
    (hlength : mode'.value.length = value.length + text.length) : ∀ c ∈ text, isPlain c = true := by
  induction text generalizing value with
  | nil => exact List.forall_mem_nil _
  | cons c text ih =>
    obtain ⟨first, middle, rest, hfirst, hrest, hended⟩ := run_cons h
    obtain ⟨rfl, rfl⟩ := List.append_eq_nil_iff.mp hended.symm
    rw [List.length_cons] at hlength
    rw [next] at hfirst
    split_ifs at hfirst with hplain hquote hslash
    · obtain ⟨-, rfl⟩ := Prod.mk.inj (Option.some.inj hfirst)
      refine List.forall_mem_cons.mpr ⟨hplain, ih hrest ?_⟩
      rw [hlength, List.length_append, List.length_singleton]
      omega
    · cases (Prod.mk.inj (Option.some.inj hfirst)).1
    · obtain ⟨-, rfl⟩ := Prod.mk.inj (Option.some.inj hfirst)
      rcases run_literal rfl hrest with ⟨_, _, hcons, -⟩ | ⟨-, -, hle⟩
      · cases hcons
      · have hvalue : (Mode.escape value).value = value := rfl
        rw [hvalue] at hle
        omega

theorem run_str {s : List Char} (h : ∀ c ∈ s, isPlain c = true) (value rest : List Char) :
    run (.str value) (s ++ '"' :: rest) = (run .gap rest).map fun q ↦ (.str (value ++ s) :: q.1, q.2) := by
  have hquote : next (.str (value ++ s)) '"' = some ([.str (value ++ s)], .gap) := rfl
  rw [run_append_of (run_plain h value), run_cons_of hquote, Option.map_map]
  rfl

/-- Text put into a literal before a space and plain text: the literal has it as it is only if it is plain. -/
theorem run_embedded {value text tail rest : List Char} (htail : ∀ c ∈ tail, isPlain c = true) {ended : List Token}
    {mode : Mode} (h : run (.str value) (text ++ (' ' :: tail ++ '"' :: rest)) = some (ended, mode)) :
    ∃ v more, ended = .str v :: more ∧ (v = value ++ (text ++ ' ' :: tail) → ∀ c ∈ text, isPlain c = true) := by
  have hspace : ∀ c ∈ ' ' :: tail, isPlain c = true := List.forall_mem_cons.mpr ⟨rfl, htail⟩
  rw [run_append] at h
  obtain ⟨⟨first, middle⟩, hfirst, h⟩ := Option.bind_eq_some_iff.mp h
  obtain ⟨⟨second, last⟩, hsecond, h⟩ := Option.map_eq_some_iff.mp h
  obtain ⟨rfl, rfl⟩ := Prod.mk.inj h
  rcases run_literal rfl hfirst with ⟨v, more, rfl, hlt⟩ | ⟨rfl, hmiddle, hle⟩
  · refine ⟨v, more ++ second, rfl, ?_⟩
    rintro rfl
    have hvalue : (Mode.str value).value = value := rfl
    rw [hvalue, List.length_append, List.length_append] at hlt
    omega
  · cases middle with
    | gap => cases hmiddle
    | word text => cases hmiddle
    | escape value =>
      obtain ⟨_, _, _, hnext, -, -⟩ := run_cons hsecond
      cases hnext
    | hex value =>
      obtain ⟨_, _, _, hnext, -, -⟩ := run_cons hsecond
      cases hnext
    | hexDigit value digit =>
      obtain ⟨_, _, _, hnext, -, -⟩ := run_cons hsecond
      cases hnext
    | str read =>
      have hread := run_str hspace read rest
      rw [hsecond] at hread
      obtain ⟨⟨more, _⟩, -, heq⟩ := Option.map_eq_some_iff.mp hread.symm
      obtain ⟨rfl, -⟩ := Prod.mk.inj heq
      refine ⟨_, more, rfl, fun hv ↦ plain_of_length hfirst ?_⟩
      have hlength := congrArg List.length hv
      simp only [List.length_append] at hlength
      change read.length = _
      omega

theorem run_name {name : List Char} (hne : name ≠ []) (h : ∀ c ∈ name, isWordChar c = true) :
    run .gap name = some ([], .word name) := by
  obtain ⟨c, rest, rfl⟩ := List.exists_cons_of_ne_nil hne
  obtain ⟨hc, hrest⟩ := List.forall_mem_cons.mp h
  have hgap : isGap c = false := by
    refine Bool.eq_false_iff.mpr fun hgap ↦ ?_
    simp only [isGap, Bool.or_eq_true, beq_iff_eq] at hgap
    rcases hgap with ((rfl | rfl) | rfl) | rfl <;> cases hc
  have hnext : next .gap c = some ([], .word [c]) := by rw [next, start, hgap, if_neg Bool.false_ne_true, if_pos hc]
  rw [run_cons_of hnext, run_word hrest]
  rfl

theorem run_of_tokens {text : List Char} {all : List Token} (h : tokens text = some all) :
    ∃ ended mode last, run .gap text = some (ended, mode) ∧ all = ended ++ last := by
  rw [tokens] at h
  split at h
  next ended hrun =>
    obtain rfl := Option.some.inj h
    exact ⟨ended, _, [], hrun, (List.append_nil _).symm⟩
  next ended last hrun =>
    obtain rfl := Option.some.inj h
    exact ⟨ended, _, _, hrun, rfl⟩
  next => cases h

theorem metas_of_readRule {keyword name heading : List Char} {body rest : List Token} {rule : Rule}
    (h : readRule (.word keyword :: .word name :: .sym '{' :: .word heading :: .sym ':' :: body) = some (rule, rest)) :
    rule.name = name ∧ rule.metas = (readMetas body).1 := by
  rw [readRule] at h
  split at h
  next metas condition _ hmetas =>
    split at h
    next digest expected _ _ =>
      split_ifs at h
      obtain ⟨rfl, -⟩ := Prod.mk.inj (Option.some.inj h)
      rw [hmetas]
      exact ⟨rfl, rfl⟩
    next => cases h
  next => cases h

end Briefr.Library.YaraSyntax
