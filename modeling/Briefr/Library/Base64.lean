import Mathlib.Data.List.DropRight

namespace Briefr.Library.Base64

/-- The character of a 6-bit value in the URL-safe alphabet. -/
def char (n : ℕ) : Char :=
  if n < 26 then Char.ofNat (65 + n)
  else if n < 52 then Char.ofNat (71 + n)
  else if n < 62 then Char.ofNat (n - 4)
  else if n = 62 then '-'
  else '_'

/-- The value of a character; the two alphabets differ in the last two values, and a decoder
reads both. -/
def value (c : Char) : Option ℕ :=
  if 'A' ≤ c ∧ c ≤ 'Z' then some (c.toNat - 65)
  else if 'a' ≤ c ∧ c ≤ 'z' then some (c.toNat - 71)
  else if '0' ≤ c ∧ c ≤ '9' then some (c.toNat + 4)
  else if c = '-' ∨ c = '+' then some 62
  else if c = '_' ∨ c = '/' then some 63
  else none

def encode : List ℕ → List Char
  | a :: b :: c :: rest =>
    char (a / 4) :: char (a % 4 * 16 + b / 16) :: char (b % 16 * 4 + c / 64) :: char (c % 64) :: encode rest
  | [a, b] => [char (a / 4), char (a % 4 * 16 + b / 16), char (b % 16 * 4), '=']
  | [a] => [char (a / 4), char (a % 4 * 16), '=', '=']
  | [] => []

/-- The decoding loop: `quad` characters of the current group are read, `left` holds the bits not
yet written and `pads` counts padding. Characters outside the alphabet are skipped, and padding
that completes a group ends the text. -/
def decodeFrom (quad left pads : ℕ) : List Char → Option (List ℕ)
  | [] => if quad = 0 then some [] else none
  | c :: s =>
    if c = '=' then
      if quad < 2 then decodeFrom quad left pads s
      else if 4 ≤ quad + (pads + 1) then some []
      else decodeFrom quad left (pads + 1) s
    else
      match value c, quad with
      | none, _ => decodeFrom quad left pads s
      | some v, 0 => decodeFrom 1 v 0 s
      | some v, 1 => (decodeFrom 2 (v % 16) 0 s).map ((left * 4 + v / 16) :: ·)
      | some v, 2 => (decodeFrom 3 (v % 4) 0 s).map ((left * 16 + v / 4) :: ·)
      | some v, _ => (decodeFrom 0 0 0 s).map ((left * 64 + v) :: ·)

def decode (s : List Char) : Option (List ℕ) := decodeFrom 0 0 0 s

theorem value_char {n : ℕ} (h : n < 64) : value (char n) = some n := by
  have hall : ∀ n < 64, value (char n) = some n := by decide
  exact hall n h

theorem char_ne_pad (n : ℕ) : char n ≠ '=' := by
  by_cases h : n < 64
  · have hall : ∀ n < 64, char n ≠ '=' := by decide
    exact hall n h
  · rw [char, if_neg (by omega), if_neg (by omega), if_neg (by omega), if_neg (by omega)]
    decide

section
variable {n : ℕ} (l p : ℕ) (s : List Char) (h : n < 64)
include h

theorem decodeFrom_first : decodeFrom 0 l p (char n :: s) = decodeFrom 1 n 0 s := by
  simp only [decodeFrom, char_ne_pad, value_char h, if_false]

theorem decodeFrom_second :
    decodeFrom 1 l p (char n :: s) = (decodeFrom 2 (n % 16) 0 s).map ((l * 4 + n / 16) :: ·) := by
  simp only [decodeFrom, char_ne_pad, value_char h, if_false]

theorem decodeFrom_third :
    decodeFrom 2 l p (char n :: s) = (decodeFrom 3 (n % 4) 0 s).map ((l * 16 + n / 4) :: ·) := by
  simp only [decodeFrom, char_ne_pad, value_char h, if_false]

theorem decodeFrom_fourth : decodeFrom 3 l p (char n :: s) = (decodeFrom 0 0 0 s).map ((l * 64 + n) :: ·) := by
  simp only [decodeFrom, char_ne_pad, value_char h, if_false]

end

theorem decode_encode {bs : List ℕ} (h : ∀ b ∈ bs, b < 256) : decode (encode bs) = some bs := by
  rw [decode]
  induction bs using encode.induct with
  | case1 a b c rest ih =>
    have ha : a < 256 := h a (by simp)
    have hb : b < 256 := h b (by simp)
    have hc : c < 256 := h c (by simp)
    rw [encode, decodeFrom_first _ _ _ (by omega), decodeFrom_second _ _ _ (by omega),
      decodeFrom_third _ _ _ (by omega), decodeFrom_fourth _ _ _ (by omega), ih fun x hx ↦ h x (by simp [hx])]
    simp only [Option.map_some, Option.some_inj, List.cons.injEq, and_true]
    omega
  | case2 a b =>
    have ha : a < 256 := h a (by simp)
    have hb : b < 256 := h b (by simp)
    have hp : decodeFrom 3 (b % 16 * 4 % 4) 0 ['='] = some [] := rfl
    rw [encode, decodeFrom_first _ _ _ (by omega), decodeFrom_second _ _ _ (by omega),
      decodeFrom_third _ _ _ (by omega), hp]
    simp only [Option.map_some, Option.some_inj, List.cons.injEq, and_true]
    omega
  | case3 a =>
    have ha : a < 256 := h a (by simp)
    have hp : decodeFrom 2 (a % 4 * 16 % 16) 0 ['=', '='] = some [] := rfl
    rw [encode, decodeFrom_first _ _ _ (by omega), decodeFrom_second _ _ _ (by omega), hp]
    simp only [Option.map_some, Option.some_inj, List.cons.injEq, and_true]
    omega
  | case4 => rfl

def isPad (c : Char) : Bool := c == '='

def bare (bs : List ℕ) : List Char := (encode bs).rdropWhile isPad

/-- Padding to a whole number of groups. -/
def repad (s : List Char) : List Char := s ++ List.replicate ((4 - s.length % 4) % 4) '='

theorem rdropWhile_pad {s : List Char} {c : Char} (hc : c ≠ '=') (n : ℕ) :
    (s ++ c :: List.replicate n '=').rdropWhile isPad = s ++ [c] := by
  rw [← List.singleton_append, ← List.append_assoc]
  induction n with
  | zero => simp [isPad, hc]
  | succ n ih =>
    rw [List.replicate_succ', ← List.append_assoc, List.rdropWhile_concat_pos _ _ _ rfl]
    exact ih

theorem bare_pair (a b : ℕ) : bare [a, b] = [char (a / 4), char (a % 4 * 16 + b / 16), char (b % 16 * 4)] :=
  rdropWhile_pad (s := [char (a / 4), char (a % 4 * 16 + b / 16)]) (char_ne_pad _) 1

theorem bare_singleton (a : ℕ) : bare [a] = [char (a / 4), char (a % 4 * 16)] :=
  rdropWhile_pad (s := [char (a / 4)]) (char_ne_pad _) 2

theorem bare_cons (a b c : ℕ) (rest : List ℕ) :
    bare (a :: b :: c :: rest) =
      char (a / 4) :: char (a % 4 * 16 + b / 16) :: char (b % 16 * 4 + c / 64) :: char (c % 64) :: bare rest := by
  have hr : ∀ (x y z w : Char) (s : List Char), w ≠ '=' →
      (x :: y :: z :: w :: s).rdropWhile isPad = x :: y :: z :: w :: s.rdropWhile isPad := by
    intro x y z w s hw
    induction s using List.reverseRecOn with
    | nil => exact rdropWhile_pad (s := [x, y, z]) hw 0
    | append_singleton s c ih =>
      have he : x :: y :: z :: w :: (s ++ [c]) = (x :: y :: z :: w :: s) ++ [c] := rfl
      by_cases hc : c = '='
      · have hc : isPad c = true := by simpa [isPad] using hc
        rw [he, List.rdropWhile_concat_pos _ _ _ hc, List.rdropWhile_concat_pos _ _ _ hc, ih]
      · have hc : ¬isPad c = true := by simpa [isPad] using hc
        rw [he, List.rdropWhile_concat_neg _ _ _ hc, List.rdropWhile_concat_neg _ _ _ hc]
        rfl
  exact hr _ _ _ _ _ (char_ne_pad _)

theorem repad_bare (bs : List ℕ) : repad (bare bs) = encode bs := by
  induction bs using encode.induct with
  | case1 a b c rest ih =>
    have hm : ∀ n, (n + 1 + 1 + 1 + 1) % 4 = n % 4 := fun n ↦ by omega
    rw [bare_cons, repad, encode, ← ih, repad]
    simp only [List.length_cons, hm, List.cons_append]
  | case2 a b =>
    rw [bare_pair]
    rfl
  | case3 a =>
    rw [bare_singleton]
    rfl
  | case4 => rfl

theorem decode_repad_bare {bs : List ℕ} (h : ∀ b ∈ bs, b < 256) : decode (repad (bare bs)) = some bs := by
  rw [repad_bare, decode_encode h]

theorem length_bare (bs : List ℕ) : (bare bs).length = (4 * bs.length + 2) / 3 := by
  induction bs using encode.induct with
  | case1 a b c rest ih =>
    simp only [bare_cons, List.length_cons, ih]
    omega
  | case2 a b => simp [bare_pair]
  | case3 a => simp [bare_singleton]
  | case4 => rfl

end Briefr.Library.Base64
