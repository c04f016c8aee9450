import Briefr.Library.YaraSyntax
import Briefr.Python.Casing
import Briefr.Python.Digits

namespace Briefr.Detection.YaraGenerator

open Briefr.Python Briefr.Library.YaraSyntax

def isHexDigit (c : Char) : Bool := c.isDigit || ('a' ≤ c && c ≤ 'f') || ('A' ≤ c && c ≤ 'F')

/-- `_HASH_RE` on stripped text, which has no line break for the final `$`. -/
def matchesHash (text : Text) : Bool := text.all isHexDigit && decide (text.length ∈ [32, 40, 64])

structure YaraRule where
  ruleName : Text
  hash : Text
  hashType : Text
  source : Text
  yara : Text
  confidence : Text
  deriving DecidableEq

/-- A row of the query. -/
structure Row where
  iocValue : Option Text
  pulseName : Option Text

section
variable [Interp]

def normalizeHash (value : Text) : Option Text :=
  let text := lower (strip value)
  if matchesHash text then some text else none

def ruleName (cveId : Text) (idx : ℕ) : Text :=
  "briefr_otx_".toList ++ lower (cveId.map fun c ↦ if c = '-' then '_' else c) ++ '_' :: Nat.toDigits 10 idx

def hashType (h : Text) : Text :=
  if h.length = 32 then "md5".toList else if h.length = 40 then "sha1".toList else "sha256".toList

def condition (h : Text) : Text :=
  if h.length = 32 then "hash.md5(0, filesize) == \"".toList ++ h ++ ['"']
  else if h.length = 40 then "hash.sha1(0, filesize) == \"".toList ++ h ++ ['"']
  else "hash.sha256(0, filesize) == \"".toList ++ h ++ ['"']

def yaraText (cveId metaPulse name h : Text) : Text :=
  "import \"hash\"\n\nrule ".toList ++ (name ++
    (" \x7b\n    meta:\n        author = \"BRIEFR (generated from OTX)\"\n        description = \"Hash from ".toList ++
    (metaPulse ++ (" linked to ".toList ++ cveId ++ '"' ::
    ("\n        cve = \"".toList ++ (upper cveId ++ '"' ::
    ("\n        confidence = \"experimental\"\n    condition:\n        ".toList ++ (condition h ++ "\n\x7d".toList))))))))

def metaPulse (pulseName : Text) : Text := if pulseName = [] then "OTX pulse".toList else pulseName

def yaraRule (cveId pulseName h : Text) (idx : ℕ) : YaraRule where
  ruleName := ruleName cveId idx
  hash := h
  hashType := hashType h
  source := "otx_pulse_iocs".toList
  yara := yaraText cveId (metaPulse pulseName) (ruleName cveId idx) h
  confidence := "experimental".toList

/-- One turn of the loop over the hashes, with those seen before and the rules so far. -/
def addHash (cveId pulseName : Text) (state : List Text × List YaraRule) (raw : Text) : List Text × List YaraRule :=
  match normalizeHash raw with
  | none => state
  | some h =>
    if h ∈ state.1 then state else (h :: state.1, state.2 ++ [yaraRule cveId pulseName h (state.2.length + 1)])

def buildYaraRulesFromHashes (cveId : Text) (hashes : List Text) (pulseName : Text) : List YaraRule :=
  (hashes.foldl (addHash cveId pulseName) ([], [])).2

/-- The loop over the rows. -/
def collect (key : Text) (limit : ℕ) : List Row → List YaraRule → List YaraRule
  | [], rules => rules
  | row :: rows, rules =>
    let rules := rules ++ buildYaraRulesFromHashes key [row.iocValue.getD []] (row.pulseName.getD [])
    if limit ≤ rules.length then rules else collect key limit rows rules

/-- The rows are those of the query, of which there are three times the limit at most. -/
def findYaraRulesForCve (cveId : Text) (rows : List Row) (limit : ℕ) : List YaraRule :=
  (collect (upper cveId) limit rows []).take limit

end

section
variable [Interp]

def Row.hash? (row : Row) : Option Text := normalizeHash (row.iocValue.getD [])

/-- The rows that rules are made of. -/
def found (rows : List Row) (limit : ℕ) : List Row := (rows.filter fun row ↦ row.hash?.isSome).take limit

def Row.rule? (key : Text) (row : Row) : Option YaraRule :=
  row.hash?.map fun h ↦ yaraRule key (row.pulseName.getD []) h 1

theorem build_singleton (key : Text) (row : Row) :
    buildYaraRulesFromHashes key [row.iocValue.getD []] (row.pulseName.getD []) = (row.rule? key).toList := by
  rw [buildYaraRulesFromHashes, List.foldl_cons, List.foldl_nil, addHash, Row.rule?, Row.hash?]
  cases normalizeHash (row.iocValue.getD []) with
  | none => rfl
  | some h => rfl

theorem take_collect (key : Text) (limit : ℕ) (rows : List Row) (rules : List YaraRule) :
    (collect key limit rows rules).take limit = (rules ++ rows.filterMap (Row.rule? key)).take limit := by
  induction rows generalizing rules with
  | nil => rw [collect, List.filterMap_nil, List.append_nil]
  | cons row rows ih =>
    have hcons : rules ++ (row :: rows).filterMap (Row.rule? key) =
        (rules ++ (row.rule? key).toList) ++ rows.filterMap (Row.rule? key) := by
      rw [List.filterMap_cons]
      cases row.rule? key <;> simp
    rw [collect, build_singleton, hcons]
    split
    next hlimit => rw [List.take_append_of_le_length hlimit]
    next => exact ih _

/-- The rules are made of the rows with a hash, each on its own. -/
theorem find_eq (cveId : Text) (rows : List Row) (limit : ℕ) :
    findYaraRulesForCve cveId rows limit = (found rows limit).filterMap (Row.rule? (upper cveId)) := by
  rw [findYaraRulesForCve, take_collect, List.nil_append, found]
  generalize upper cveId = key
  induction rows generalizing limit with
  | nil => rw [List.filterMap_nil, List.filter_nil, List.take_nil, List.take_nil, List.filterMap_nil]
  | cons row rows ih =>
    have hrule : row.rule? key = row.hash?.map fun h ↦ yaraRule key (row.pulseName.getD []) h 1 := rfl
    cases hhash : row.hash? with
    | none =>
      rw [hhash] at hrule
      rw [List.filterMap_cons_none hrule, List.filter_cons_of_neg (by simp [hhash]), ih]
    | some h =>
      rw [hhash] at hrule
      rw [List.filterMap_cons_some hrule, List.filter_cons_of_pos (by simp [hhash])]
      cases limit with
      | zero => rfl
      | succ limit => rw [List.take_succ_cons, List.take_succ_cons, List.filterMap_cons_some hrule, ih]

end

/-- The shape of a CVE id, in either case. -/
def IsCveId (s : Text) : Prop :=
  ∃ letters year number, s = letters ++ '-' :: (year ++ '-' :: number) ∧ letters.map Char.toUpper = "CVE".toList ∧
    year.length = 4 ∧ 4 ≤ number.length ∧ number.length ≤ 19 ∧ ∀ c ∈ year ++ number, c.isDigit = true

theorem ascii_of_toUpper {c : Char} (h : c.toUpper.toNat < 128) : c.toNat < 128 := by
  by_cases hc : 'a'.val ≤ c.val ∧ c.val ≤ 'z'.val
  · exact lt_of_le_of_lt (show c.toNat ≤ 122 from hc.2) (by decide)
  · have heq : c.toUpper = c := dif_neg hc
    rwa [heq] at h

theorem toUpper_of_isDigit {c : Char} (h : c.isDigit = true) : c.toUpper = c := by
  refine dif_neg fun hc ↦ ?_
  have hd := isDigit_iff.mp h
  have hle : 97 ≤ c.toNat := hc.1
  omega

theorem toLower_of_isDigit {c : Char} (h : c.isDigit = true) : c.toLower = c := by
  have hd := isDigit_iff.mp h
  refine toLower_of_not_upper fun hu ↦ ?_
  unfold isUpperAscii at hu
  omega

theorem ascii_of_isDigit {c : Char} (h : c.isDigit = true) : c.toNat < 128 := by
  have hd := isDigit_iff.mp h
  omega

/-- The key of a CVE id: the year and the number as they are. -/
structure IsKey (key year number : Text) : Prop where
  eq : key = "CVE-".toList ++ (year ++ '-' :: number)
  length_year : year.length = 4
  length_number : number.length ≤ 19
  digits : ∀ c ∈ year ++ number, c.isDigit = true

section
variable {key year number : Text}

theorem IsKey.plain (h : IsKey key year number) : ∀ c ∈ key, isPlain c = true := by
  have hdigits := List.forall_mem_append.mp h.digits
  rw [h.eq]
  simp only [List.mem_append, List.mem_cons]
  rintro c (hc | hc | rfl | hc)
  · have hall : ∀ d ∈ "CVE-".toList, isPlain d = true := List.all_eq_true.mp rfl
    exact hall c hc
  · exact isPlain_of_isWordChar (isWordChar_of_isDigit (hdigits.1 c hc))
  · decide
  · exact isPlain_of_isWordChar (isWordChar_of_isDigit (hdigits.2 c hc))

end

section
variable [Casing] {cveId : Text}

theorem upper_ascii {s : Text} (h : ∀ c ∈ s, c.toNat < 128) : upper s = s.map Char.toUpper := by
  rw [Casing.upper_eq, List.map_eq_flatMap]
  exact List.flatMap_congr fun c hc ↦ Casing.upperChar_ascii c (h c hc)

theorem isKey_upper (h : IsCveId cveId) : ∃ year number, IsKey (upper cveId) year number := by
  obtain ⟨letters, year, number, rfl, hletters, hyear, -, hnumber, hdigits⟩ := h
  refine ⟨year, number, ?_, hyear, hnumber, hdigits⟩
  have hascii : ∀ c ∈ letters, c.toNat < 128 := by
    intro c hc
    have hmem : c.toUpper ∈ "CVE".toList := hletters ▸ List.mem_map_of_mem hc
    have hall : ∀ d ∈ "CVE".toList, d.toNat < 128 := by simp
    exact ascii_of_toUpper (hall _ hmem)
  have hmap : ∀ l : Text, (∀ c ∈ l, c.isDigit = true) → l.map Char.toUpper = l :=
    fun l hl ↦ (List.map_congr_left fun c hc ↦ toUpper_of_isDigit (hl c hc)).trans l.map_id
  rw [List.forall_mem_append] at hdigits
  rw [upper_ascii, List.map_append, hletters, List.map_cons, List.map_append, List.map_cons, hmap _ hdigits.1,
    hmap _ hdigits.2]
  · rfl
  · simp only [List.mem_append, List.mem_cons]
    rintro c (hc | rfl | hc | rfl | hc)
    · exact hascii c hc
    · decide
    · exact ascii_of_isDigit (hdigits.1 c hc)
    · decide
    · exact ascii_of_isDigit (hdigits.2 c hc)

section
variable {key year number : Text}

theorem IsKey.ruleName_eq (h : IsKey key year number) :
    ruleName key 1 = "briefr_otx_cve_".toList ++ (year ++ '_' :: (number ++ "_1".toList)) := by
  have hdigits := List.forall_mem_append.mp h.digits
  have hsafe : ∀ l : Text, (∀ c ∈ l, c.isDigit = true) → l.map (fun c ↦ if c = '-' then '_' else c) = l := by
    refine fun l hl ↦ (List.map_congr_left fun c hc ↦ if_neg ?_).trans l.map_id
    rintro rfl
    cases hl _ hc
  have hlower : ∀ l : Text, (∀ c ∈ l, c.isDigit = true) → l.map Char.toLower = l :=
    fun l hl ↦ (List.map_congr_left fun c hc ↦ toLower_of_isDigit (hl c hc)).trans l.map_id
  have hmap : key.map (fun c ↦ if c = '-' then '_' else c) = "CVE_".toList ++ (year ++ '_' :: number) := by
    rw [h.eq, List.map_append, List.map_append, List.map_cons, hsafe year hdigits.1, hsafe number hdigits.2]
    rfl
  have hascii : ∀ c ∈ "CVE_".toList ++ (year ++ '_' :: number), c.toNat < 128 := by
    simp only [List.mem_append, List.mem_cons]
    rintro c (hc | hc | rfl | hc)
    · have hall : ∀ d ∈ "CVE_".toList, d.toNat < 128 := by simp
      exact hall c hc
    · exact ascii_of_isDigit (hdigits.1 c hc)
    · decide
    · exact ascii_of_isDigit (hdigits.2 c hc)
  have hone : Nat.toDigits 10 1 = ['1'] := rfl
  have hfront : "briefr_otx_cve_".toList = "briefr_otx_".toList ++ "cve_".toList := rfl
  have hcve : "CVE_".toList.map Char.toLower = "cve_".toList := rfl
  have hback : "_1".toList = ['_', '1'] := rfl
  unfold ruleName
  rewrite [hmap, lower_ascii hascii, List.map_append, List.map_append, List.map_cons, hlower year hdigits.1,
    hlower number hdigits.2, hcve, hone, hfront, hback]
  simp only [List.append_assoc, List.cons_append]
  rfl

/-- The name of a rule, as its source spells it. -/
theorem IsKey.isWordChar_ruleName (h : IsKey key year number) : ∀ c ∈ ruleName key 1, isWordChar c = true := by
  have hdigits := List.forall_mem_append.mp h.digits
  rw [h.ruleName_eq]
  simp only [List.mem_append, List.mem_cons]
  rintro c (hc | hc | rfl | hc | hc)
  · have hall : ∀ d ∈ "briefr_otx_cve_".toList, isWordChar d = true := List.all_eq_true.mp rfl
    exact hall c hc
  · exact isWordChar_of_isDigit (hdigits.1 c hc)
  · decide
  · exact isWordChar_of_isDigit (hdigits.2 c hc)
  · have hall : ∀ d ∈ "_1".toList, isWordChar d = true := List.all_eq_true.mp rfl
    exact hall c hc

theorem IsKey.length_ruleName (h : IsKey key year number) :
    20 ≤ (ruleName key 1).length ∧ (ruleName key 1).length ≤ 128 := by
  have hfront : "briefr_otx_cve_".toList.length = 15 := rfl
  have hback : "_1".toList.length = 2 := rfl
  have hnumber := h.length_number
  rw [h.ruleName_eq, List.length_append, List.length_append, List.length_cons, List.length_append, hfront, hback,
    h.length_year]
  omega

theorem IsKey.ruleName_ne_nil (h : IsKey key year number) : ruleName key 1 ≠ [] := by
  have hlength := h.length_ruleName
  exact List.ne_nil_of_length_pos (by omega)

theorem IsKey.isIdentifier_ruleName (h : IsKey key year number) : isIdentifier (ruleName key 1) = true := by
  have hlength := h.length_ruleName
  have hkeywords : ruleName key 1 ∉ keywords := by
    have hshort : ∀ k ∈ keywords, k.length < 20 := by decide
    exact fun hmem ↦ absurd (hshort _ hmem) (not_lt.mpr hlength.1)
  have hhead : (ruleName key 1).head? = some 'b' := rfl
  rw [isIdentifier, hhead, List.all_eq_true.mpr h.isWordChar_ruleName]
  simp [h.ruleName_ne_nil, hlength.2, hkeywords]

end

end

/-- The tokens of a rule up to the text of its description. -/
def headTokens (name : Text) : List Token :=
  [.word "import".toList, .str "hash".toList, .word "rule".toList, .word name, .sym '{', .word "meta".toList, .sym ':',
    .word "author".toList, .sym '=', .str "BRIEFR (generated from OTX)".toList, .word "description".toList, .sym '=']

def conditionTokens (h : Text) : List Token :=
  [.word "hash".toList, .sym '.', .word (hashType h), .sym '(', .word "0".toList, .sym ',', .word "filesize".toList,
    .sym ')', .sym '=', .sym '=', .str h]

/-- The tokens behind the text of a description, for the digest `h`. -/
def bodyTokens (key h : Text) : List Token :=
  [.word "cve".toList, .sym '=', .str key, .word "confidence".toList, .sym '=', .str "experimental".toList,
    .word "condition".toList, .sym ':'] ++ (conditionTokens h ++ [.sym '}'])

theorem run_heading (name : Text) :
    run (.word name)
      " \x7b\n    meta:\n        author = \"BRIEFR (generated from OTX)\"\n        description = \"Hash from ".toList =
      some (.word name :: (headTokens name).drop 4, .str "Hash from ".toList) := by
  have hcons :
      " \x7b\n    meta:\n        author = \"BRIEFR (generated from OTX)\"\n        description = \"Hash from ".toList =
      ' ' ::
        "\x7b\n    meta:\n        author = \"BRIEFR (generated from OTX)\"\n        description = \"Hash from ".toList := by
    decide +kernel
  have hspace : next (.word name) ' ' = some ([.word name], .gap) := rfl
  have hbody : run .gap
      "\x7b\n    meta:\n        author = \"BRIEFR (generated from OTX)\"\n        description = \"Hash from ".toList =
      some ((headTokens []).drop 4, .str "Hash from ".toList) := by
    decide +kernel
  rw [hcons, run_cons_of hspace, hbody]
  rfl

theorem run_head {name : Text} (hne : name ≠ []) (hname : ∀ c ∈ name, isWordChar c = true) (rest : Text) :
    run .gap ("import \"hash\"\n\nrule ".toList ++ (name ++
      (" \x7b\n    meta:\n        author = \"BRIEFR (generated from OTX)\"\n        description = \"Hash from ".toList ++
        rest))) = (run (.str "Hash from ".toList) rest).map fun q ↦ (headTokens name ++ q.1, q.2) := by
  have himport : run .gap "import \"hash\"\n\nrule ".toList =
      some ([.word "import".toList, .str "hash".toList, .word "rule".toList], .gap) := by decide +kernel
  rw [run_append_of himport, run_append_of (run_name hne hname), run_append_of (run_heading name), Option.map_map,
    Option.map_map]
  simp only [headTokens, List.drop_succ_cons, List.drop_zero, List.cons_append, List.nil_append, Function.comp_def]

theorem isPlain_of_isHexDigit {c : Char} (h : isHexDigit c = true) : isPlain c = true := by
  rw [isPlain, Bool.and_eq_true, Bool.and_eq_true, bne_iff_ne, bne_iff_ne, bne_iff_ne]
  refine ⟨⟨?_, ?_⟩, ?_⟩ <;> (rintro rfl; cases h)

theorem run_condition {h : Text} (hplain : ∀ c ∈ h, isPlain c = true) (rest : Text) :
    run .gap (condition h ++ rest) = (run .gap rest).map fun q ↦ (conditionTokens h ++ q.1, q.2) := by
  have hcall : ∀ (call : Text) (digest : Text), run .gap call = some ([.word "hash".toList, .sym '.', .word digest,
        .sym '(', .word "0".toList, .sym ',', .word "filesize".toList, .sym ')', .sym '=', .sym '='], .str []) →
      run .gap (call ++ h ++ ['"'] ++ rest) = (run .gap rest).map fun q ↦ ([.word "hash".toList, .sym '.',
        .word digest, .sym '(', .word "0".toList, .sym ',', .word "filesize".toList, .sym ')', .sym '=', .sym '=',
        .str h] ++ q.1, q.2) := by
    intro call digest hrun
    rw [List.append_assoc, List.append_assoc, run_append_of hrun, List.singleton_append, run_str hplain,
      Option.map_map]
    rfl
  rw [condition, conditionTokens, hashType]
  split_ifs
  · exact hcall _ _ (by decide +kernel)
  · exact hcall _ _ (by decide +kernel)
  · exact hcall _ _ (by decide +kernel)

theorem readImports_head (name : Text) (rest : List Token) :
    readImports (headTokens name ++ rest) = (["hash".toList], (headTokens name).drop 2 ++ rest) := by
  have hrule : readImports ((headTokens name).drop 2 ++ rest) = ([], (headTokens name).drop 2 ++ rest) := by
    rw [headTokens, List.drop_succ_cons, List.drop_succ_cons, List.drop_zero, List.cons_append, List.cons_append,
      readImports]
    nofun
  have hhead : headTokens name ++ rest =
      .word "import".toList :: .str "hash".toList :: ((headTokens name).drop 2 ++ rest) := rfl
  rw [hhead, readImports, if_pos rfl, hrule]

theorem readMetas_cons {key : Text} (hkey : isIdentifier key = true) (value : Text) (rest : List Token) :
    readMetas (.word key :: .sym '=' :: .str value :: rest) =
      ((key, value) :: (readMetas rest).1, (readMetas rest).2) := by
  rw [readMetas, if_pos hkey]

theorem hashType_mem (h : Text) : hashType h ∈ ["md5".toList, "sha1".toList, "sha256".toList] := by
  rw [hashType]
  split_ifs
  · exact .head _
  · exact .tail _ (.head _)
  · exact .tail _ (.tail _ (.head _))

theorem readCondition_tokens (h : Text) (rest : List Token) :
    readCondition (conditionTokens h ++ rest) = some (hashType h, h, rest) := by
  rw [conditionTokens]
  simp only [List.cons_append, List.nil_append]
  rw [readCondition, if_pos ⟨rfl, hashType_mem h, rfl, rfl⟩]

theorem readMetas_description (value : Text) (rest : List Token) :
    readMetas (.word "author".toList :: .sym '=' :: .str "BRIEFR (generated from OTX)".toList ::
        .word "description".toList :: .sym '=' :: .str value :: rest) =
      (("author".toList, "BRIEFR (generated from OTX)".toList) :: ("description".toList, value) ::
        (readMetas rest).1, (readMetas rest).2) := by
  have hauthor : isIdentifier "author".toList = true := by decide +kernel
  have hdescription : isIdentifier "description".toList = true := by decide +kernel
  rw [readMetas_cons hauthor, readMetas_cons hdescription]

theorem readMetas_body (key h : Text) :
    readMetas (bodyTokens key h) = ([("cve".toList, key), ("confidence".toList, "experimental".toList)],
      .word "condition".toList :: .sym ':' :: (conditionTokens h ++ [.sym '}'])) := by
  have hcve : isIdentifier "cve".toList = true := by decide +kernel
  have hconfidence : isIdentifier "confidence".toList = true := by decide +kernel
  rw [bodyTokens]
  simp only [List.cons_append, List.nil_append]
  rw [readMetas_cons hcve, readMetas_cons hconfidence, readMetas]
  nofun

/-- The rule that the tokens of a source spell. -/
def spelled (name description key h : Text) : Rule where
  name := name
  metas := [("author".toList, "BRIEFR (generated from OTX)".toList), ("description".toList, description),
    ("cve".toList, key), ("confidence".toList, "experimental".toList)]
  digest := hashType h
  expected := h

theorem readRule_tokens {name : Text} (hname : isIdentifier name = true) (description key h : Text) :
    readRule ((headTokens name).drop 2 ++ .str description :: bodyTokens key h) =
      some (spelled name description key h, []) := by
  have hdrop : (headTokens name).drop 2 ++ .str description :: bodyTokens key h =
      .word "rule".toList :: .word name :: .sym '{' :: .word "meta".toList :: .sym ':' :: .word "author".toList ::
        .sym '=' :: .str "BRIEFR (generated from OTX)".toList :: .word "description".toList :: .sym '=' ::
        .str description :: bodyTokens key h := rfl
  rw [hdrop, readRule, readMetas_description, readMetas_body]
  simp only [readCondition_tokens]
  exact if_pos ⟨trivial, hname, trivial, List.cons_ne_nil _ _, trivial⟩

/-- What the rule of a row says it is about. -/
def description (key : Text) (row : Row) : Text :=
  "Hash from ".toList ++ (metaPulse (row.pulseName.getD []) ++ (" linked to ".toList ++ key))

/-- A source is one rule with this name and this description. -/
def Reads (source name description : Text) : Prop :=
  ∃ rule, readSource source = some rule ∧ rule.name = name ∧ rule.metas.lookup "description".toList = some description

section
variable [Casing] {key year number pulse h : Text}

theorem tokens_yaraText (hkey : IsKey key year number) (hupper : upper key = key)
    (hh : ∀ c ∈ h, isPlain c = true) (hpulse : ∀ c ∈ pulse, isPlain c = true) :
    tokens (yaraText key pulse (ruleName key 1) h) = some (headTokens (ruleName key 1) ++
      .str ("Hash from ".toList ++ (pulse ++ (" linked to ".toList ++ key))) :: bodyTokens key h) := by
  have hlinked : ∀ c ∈ pulse ++ (" linked to ".toList ++ key), isPlain c = true := by
    have hall : ∀ c ∈ " linked to ".toList, isPlain c = true := List.all_eq_true.mp rfl
    simp only [List.forall_mem_append]
    exact ⟨hpulse, hall, hkey.plain⟩
  have hcve : run .gap "\n        cve = \"".toList = some ([.word "cve".toList, .sym '='], .str []) := by
    decide +kernel
  have hconfidence : run .gap "\n        confidence = \"experimental\"\n    condition:\n        ".toList =
      some ([.word "confidence".toList, .sym '=', .str "experimental".toList, .word "condition".toList, .sym ':'],
        .gap) := by
    decide +kernel
  have hclose : run .gap "\n\x7d".toList = some ([.sym '}'], .gap) := by decide +kernel
  have hrun : run .gap (yaraText key pulse (ruleName key 1) h) = some (headTokens (ruleName key 1) ++
      .str ("Hash from ".toList ++ (pulse ++ (" linked to ".toList ++ key))) :: bodyTokens key h, .gap) := by
    unfold yaraText
    rw [run_head hkey.ruleName_ne_nil hkey.isWordChar_ruleName, ← List.append_assoc pulse, run_str hlinked,
      run_append_of hcve, hupper, run_str hkey.plain, run_append_of hconfidence, run_condition hh, hclose]
    simp only [Option.map_some, bodyTokens, List.cons_append, List.nil_append]
  rw [tokens, hrun]

theorem reads_of_plain (hkey : IsKey key year number) (hupper : upper key = key)
    (hh : ∀ c ∈ h, isPlain c = true) (hpulse : ∀ c ∈ pulse, isPlain c = true) :
    Reads (yaraText key pulse (ruleName key 1) h) (ruleName key 1)
      ("Hash from ".toList ++ (pulse ++ (" linked to ".toList ++ key))) := by
  refine ⟨spelled (ruleName key 1) _ key h, ?_, rfl, rfl⟩
  rw [readSource, tokens_yaraText hkey hupper hh hpulse]
  dsimp only
  rw [readImports_head, readRule_tokens hkey.isIdentifier_ruleName]
  exact if_pos (.head _)

/-- A source is read as the rule of its description only if the name of the pulse is plain. -/
theorem plain_of_reads (hkey : IsKey key year number) {name : Text}
    (h : Reads (yaraText key pulse (ruleName key 1) h) name
      ("Hash from ".toList ++ (pulse ++ (" linked to ".toList ++ key)))) : ∀ c ∈ pulse, isPlain c = true := by
  obtain ⟨rule, hread, -, hlookup⟩ := h
  have hlinked : ∀ c ∈ "linked to ".toList ++ key, isPlain c = true := by
    have hall : ∀ c ∈ "linked to ".toList, isPlain c = true := List.all_eq_true.mp rfl
    exact List.forall_mem_append.mpr ⟨hall, hkey.plain⟩
  rw [readSource] at hread
  split at hread
  next => cases hread
  next all htokens =>
    obtain ⟨ended, mode, last, hrun, rfl⟩ := run_of_tokens htokens
    unfold yaraText at hrun
    rw [run_head hkey.ruleName_ne_nil hkey.isWordChar_ruleName] at hrun
    obtain ⟨⟨read, _⟩, hread', heq⟩ := Option.map_eq_some_iff.mp hrun
    obtain ⟨rfl, rfl⟩ := Prod.mk.inj heq
    obtain ⟨value, more, rfl, hplain⟩ := run_embedded hlinked hread'
    refine hplain ?_
    rw [List.append_assoc, readImports_head] at hread
    split at hread
    next rule' hrule =>
      split_ifs at hread
      obtain rfl := Option.some.inj hread
      have hmetas : rule'.metas = ("author".toList, "BRIEFR (generated from OTX)".toList) ::
          ("description".toList, value) :: (readMetas (more ++ last)).1 :=
        (metas_of_readRule hrule).2.trans (congrArg Prod.fst (readMetas_description value (more ++ last)))
      rw [hmetas] at hlookup
      exact Option.some.inj hlookup
    next => cases hread

theorem plain_of_normalizeHash {value : Text} (h : normalizeHash value = some pulse) :
    ∀ c ∈ pulse, isPlain c = true := by
  rw [normalizeHash] at h
  split_ifs at h with hmatch
  obtain rfl := Option.some.inj h
  rw [matchesHash, Bool.and_eq_true, List.all_eq_true] at hmatch
  exact fun c hc ↦ isPlain_of_isHexDigit (hmatch.1 c hc)

end

/-- What the rules are to be: one for each row, told apart by name and by hash, each of them read as what it is. -/
structure Sound (key : Text) (rows : List Row) (rules : List YaraRule) : Prop where
  names : (rules.map YaraRule.ruleName).Nodup
  hashes : (rules.map YaraRule.hash).Nodup
  reads : List.Forall₂ (fun row rule ↦ Reads rule.yara rule.ruleName (description key row)) rows rules

theorem plain_metaPulse (pulseName : Text) :
    (∀ c ∈ metaPulse pulseName, isPlain c = true) ↔ ∀ c ∈ pulseName, isPlain c = true := by
  rw [metaPulse]
  split_ifs with hnil
  · subst hnil
    have hall : ∀ c ∈ "OTX pulse".toList, isPlain c = true := List.all_eq_true.mp rfl
    exact ⟨fun _ ↦ List.forall_mem_nil _, fun _ ↦ hall⟩
  · rfl

theorem forall₂_iff_forall {α β : Type} {R P : α → β → Prop} {Q : α → Prop} {l : List α} {l' : List β}
    (h : List.Forall₂ R l l') (hiff : ∀ a b, R a b → (P a b ↔ Q a)) : List.Forall₂ P l l' ↔ ∀ a ∈ l, Q a := by
  induction h with
  | nil => exact ⟨fun _ ↦ List.forall_mem_nil _, fun _ ↦ .nil⟩
  | cons hab _ ih => rw [List.forall₂_cons, List.forall_mem_cons, ih, hiff _ _ hab]

section
variable [Casing] {key year number : Text} {row : Row} {rule : YaraRule} {rows : List Row} {rules : List YaraRule}

theorem reads_iff (hkey : IsKey key year number) (hupper : upper key = key) (hrule : row.rule? key = some rule) :
    Reads rule.yara rule.ruleName (description key row) ↔ ∀ c ∈ row.pulseName.getD [], isPlain c = true := by
  obtain ⟨h, hhash, rfl⟩ := Option.map_eq_some_iff.mp hrule
  rw [← plain_metaPulse]
  exact ⟨plain_of_reads hkey, reads_of_plain hkey hupper (plain_of_normalizeHash hhash)⟩

theorem forall₂_filterMap (h : ∀ row ∈ rows, ∃ rule, row.rule? key = some rule) :
    List.Forall₂ (fun row rule ↦ row.rule? key = some rule) rows (rows.filterMap (Row.rule? key)) := by
  induction rows with
  | nil => exact .nil
  | cons row rows ih =>
    obtain ⟨hrow, hrows⟩ := List.forall_mem_cons.mp h
    obtain ⟨rule, hrule⟩ := hrow
    rw [List.filterMap_cons_some hrule]
    exact .cons hrule (ih hrows)

/-- Each row is built on its own, so all rules have the name of a first rule. -/
theorem map_ruleName (h : List.Forall₂ (fun row rule ↦ row.rule? key = some rule) rows rules) :
    rules.map YaraRule.ruleName = List.replicate rows.length (ruleName key 1) := by
  induction h with
  | nil => rfl
  | cons hrule _ ih =>
    obtain ⟨h, -, rfl⟩ := Option.map_eq_some_iff.mp hrule
    rw [List.map_cons, ih, List.length_cons, List.replicate_succ]
    rfl

theorem sound_iff_of_forall₂ (hkey : IsKey key year number) (hupper : upper key = key)
    (h : List.Forall₂ (fun row rule ↦ row.rule? key = some rule) rows rules) :
    Sound key rows rules ↔
      rows.length ≤ 1 ∧ ∀ row ∈ rows, ∀ c ∈ row.pulseName.getD [], isPlain c = true := by
  have hreads := forall₂_iff_forall h fun row rule ↦ @reads_iff _ key year number row rule hkey hupper
  have hnames : (rules.map YaraRule.ruleName).Nodup ↔ rows.length ≤ 1 := by
    rw [map_ruleName h, List.nodup_replicate]
  constructor
  · intro hsound
    exact ⟨hnames.mp hsound.names, hreads.mp hsound.reads⟩
  · rintro ⟨hlength, hplain⟩
    refine ⟨hnames.mpr hlength, ?_, hreads.mpr hplain⟩
    rw [h.length_eq] at hlength
    cases rules with
    | nil => exact List.nodup_nil
    | cons rule rules =>
      obtain rfl : rules = [] := List.eq_nil_of_length_eq_zero (Nat.le_zero.mp (Nat.le_of_succ_le_succ hlength))
      exact List.pairwise_singleton _ _

end

/-- The rules are told apart and read as what they are exactly if there is one at most and the name of its pulse can
stand in a literal as it is. -/
theorem rules_sound_iff [Casing] {cveId : Text} (hid : IsCveId cveId) (rows : List Row) (limit : ℕ) :
    Sound (upper cveId) (found rows limit) (findYaraRulesForCve cveId rows limit) ↔
      (found rows limit).length ≤ 1 ∧ ∀ row ∈ found rows limit, ∀ c ∈ row.pulseName.getD [], isPlain c = true := by
  obtain ⟨year, number, hkey⟩ := isKey_upper hid
  have hsome : ∀ row ∈ found rows limit, ∃ rule, row.rule? (upper cveId) = some rule := by
    intro row hrow
    have hhash := (List.mem_filter.mp (List.mem_of_mem_take hrow)).2
    obtain ⟨h, hh⟩ := Option.isSome_iff_exists.mp hhash
    exact ⟨_, congrArg (Option.map _) hh⟩
  rw [find_eq]
  exact sound_iff_of_forall₂ hkey (Interp.upper_idem cveId) (forall₂_filterMap hsome)

section
local instance yaraCasing : Casing := asciiCasing fun _ ↦ none

def exampleId : Text := "CVE-2024-0001".toList

theorem isCveId_exampleId : IsCveId exampleId :=
  ⟨"CVE".toList, "2024".toList, "0001".toList, rfl, rfl, rfl, by decide, by decide, List.all_eq_true.mp rfl⟩

def md5Row (digit : Char) (pulseName : Text) : Row := ⟨some (List.replicate 32 digit), some pulseName⟩

theorem rules_sound_oneRow : Sound (upper exampleId) (found [md5Row 'a' "APT".toList] 10)
    (findYaraRulesForCve exampleId [md5Row 'a' "APT".toList] 10) := by
  have hplain : ((found [md5Row 'a' "APT".toList] 10).all fun row ↦ (row.pulseName.getD []).all isPlain) = true := by
    decide +kernel
  exact (rules_sound_iff isCveId_exampleId _ _).mpr
    ⟨by decide +kernel, fun row hrow ↦ List.all_eq_true.mp (List.all_eq_true.mp hplain row hrow)⟩

/-- Two hashes make two rules of one name. -/
theorem twoRows_not_sound : ¬Sound (upper exampleId) (found [md5Row 'a' [], md5Row 'b' []] 10)
    (findYaraRulesForCve exampleId [md5Row 'a' [], md5Row 'b' []] 10) := by
  intro h
  exact absurd h.names (by decide +kernel)

end

end Briefr.Detection.YaraGenerator
