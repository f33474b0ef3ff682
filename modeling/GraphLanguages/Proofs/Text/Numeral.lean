import Mathlib.Data.List.Lex
import Mathlib.Data.Nat.Digits.Lemmas
import GraphLanguages.Text.Numeral

/-! Decimal numerals of numbers: they are read back, and they compare as texts.

As a text, a numeral is compared with the beginning of a longer one (`leading`), and only
where the two differ does their order hold whatever follows
(`toDigits_append_not_gt_iff`). -/
namespace GraphLanguages.Text

/-! ### Reading numerals -/

theorem digit?_of_isDigit {c : Char} (h : c.isDigit) : digit? c = some (c.toNat - 48) :=
  if_pos h

theorem digitsFrom_eq {cs : List Char} (h : ∀ c ∈ cs, c.isDigit) (value : Nat) :
    digitsFrom value cs = some (Nat.ofDigitChars 10 cs value) := by
  induction cs generalizing value with
  | nil => rfl
  | cons c cs ih =>
    rw [digitsFrom, digit?_of_isDigit (h c (.head _)), Option.bind_some,
      ih fun d hd => h d (.tail _ hd)]
    rfl

theorem isDigit_of_mem_numeral {n : Nat} {c : Char} (h : c ∈ Nat.toDigits 10 n) : c.isDigit :=
  Nat.isDigit_of_mem_toDigits (by decide) (by decide) h

/-- Digits of this value, of which the first ones may be zeros. -/
structure IsNumeral (n : Nat) (digits : List Char) : Prop where
  ne_nil : digits ≠ []
  isDigit : ∀ c ∈ digits, c.isDigit
  value : Nat.ofDigitChars 10 digits 0 = n

theorem isNumeral_toDigits (n : Nat) : IsNumeral n (Nat.toDigits 10 n) where
  ne_nil := Nat.toDigits_ne_nil
  isDigit _ hc := isDigit_of_mem_numeral hc
  value := Nat.ofDigitChars_ten_toDigits

theorem IsNumeral.digits?_eq {n : Nat} {digits : List Char} (h : IsNumeral n digits) :
    digits? digits = some n := by
  cases digits with
  | nil => exact absurd rfl h.ne_nil
  | cons c cs => rw [digits?, digitsFrom_eq h.isDigit, h.value]; exact nofun

/-- A numeral has no sign. -/
theorem IsNumeral.unsigned?_eq {limit n : Nat} {digits : List Char} (h : IsNumeral n digits)
    (hn : n ≤ limit) : unsigned? limit digits = some n := by
  unfold unsigned?
  split
  next => exact absurd (h.isDigit '+' (.head _)) (by decide)
  next => rw [h.digits?_eq]; simp [hn]

/-! ### Numerals of one length -/

theorem ofDigitChars_cons (c : Char) (cs : List Char) :
    Nat.ofDigitChars 10 (c :: cs) 0 =
      10 ^ cs.length * (c.toNat - 48) + Nat.ofDigitChars 10 cs 0 := by
  rw [Nat.ofDigitChars_cons, Nat.ofDigitChars_eq_ofDigitChars_zero]
  simp

theorem toNat_of_isDigit {c : Char} (h : c.isDigit) : 48 ≤ c.toNat ∧ c.toNat ≤ 57 := by
  simpa [Char.isDigit, UInt32.le_iff_toNat_le] using h

theorem ofDigitChars_lt {cs : List Char} (h : ∀ c ∈ cs, c.isDigit) :
    Nat.ofDigitChars 10 cs 0 < 10 ^ cs.length := by
  induction cs with
  | nil => decide
  | cons c cs ih =>
    have hc := toNat_of_isDigit (h c (.head _))
    have hcs := ih fun d hd => h d (.tail _ hd)
    rw [ofDigitChars_cons, List.length_cons, Nat.pow_succ]
    have := Nat.mul_le_mul_left (10 ^ cs.length) (show c.toNat - 48 ≤ 9 by omega)
    omega

/-- Digits compare as their values do, the first difference being the largest. -/
theorem lt_of_ofDigitChars_lt {as bs : List Char} (ha : ∀ c ∈ as, c.isDigit)
    (hb : ∀ c ∈ bs, c.isDigit) (hlength : as.length = bs.length)
    (h : Nat.ofDigitChars 10 as 0 < Nat.ofDigitChars 10 bs 0) (xs ys : List Char) :
    as ++ xs < bs ++ ys := by
  induction as generalizing bs with
  | nil =>
    obtain rfl := List.length_eq_zero_iff.mp hlength.symm
    exact absurd h (Nat.lt_irrefl _)
  | cons a as ih =>
    obtain _ | ⟨b, bs⟩ := bs
    · cases hlength
    have hab := toNat_of_isDigit (ha a (.head _))
    have hbb := toNat_of_isDigit (hb b (.head _))
    have hlength : as.length = bs.length := Nat.succ.inj hlength
    have ha := fun c hc => ha c (.tail _ hc)
    have hb := fun c hc => hb c (.tail _ hc)
    rw [List.cons_append, List.cons_append, List.cons_lt_cons_iff]
    rw [ofDigitChars_cons, ofDigitChars_cons, hlength] at h
    rcases Nat.lt_trichotomy a.toNat b.toNat with hlt | heq | hgt
    · exact .inl hlt
    · rw [heq] at h
      exact .inr ⟨Char.toNat_inj.mp heq, ih ha hb hlength (by omega)⟩
    · have hbound := ofDigitChars_lt hb
      have := Nat.mul_le_mul_left (10 ^ bs.length)
        (show b.toNat - 48 + 1 ≤ a.toNat - 48 by omega)
      rw [Nat.mul_succ] at this
      omega

/-! ### Numerals of any length -/

def numeralLength (n : Nat) : Nat :=
  (Nat.toDigits 10 n).length

/-- The number that the first `width` digits of a number make. -/
def leading (width n : Nat) : Nat :=
  n / 10 ^ (numeralLength n - width)

theorem numeralLength_pos (n : Nat) : 0 < numeralLength n :=
  Nat.length_toDigits_pos

theorem numeralLength_le_iff {n k : Nat} (h : 0 < k) : numeralLength n ≤ k ↔ n < 10 ^ k :=
  Nat.length_toDigits_le_iff (by decide) h

theorem numeralLength_mono {m n : Nat} (h : m ≤ n) : numeralLength m ≤ numeralLength n :=
  (numeralLength_le_iff (numeralLength_pos n)).mpr
    (Nat.lt_of_le_of_lt h ((numeralLength_le_iff (numeralLength_pos n)).mp (Nat.le_refl _)))

/-- Dividing by ten takes the last digit away. -/
theorem toDigits_div (k n : Nat) (h : k < numeralLength n) :
    ∃ rest, rest.length = k ∧ Nat.toDigits 10 n = Nat.toDigits 10 (n / 10 ^ k) ++ rest := by
  induction k with
  | zero => exact ⟨[], rfl, by simp⟩
  | succ k ih =>
    obtain ⟨rest, hrest, hn⟩ := ih (by omega)
    have hten : 10 ≤ n / 10 ^ k := by
      refine Nat.le_of_not_lt fun hlt => ?_
      have hone : numeralLength (n / 10 ^ k) ≤ 1 := (numeralLength_le_iff (by decide)).mpr hlt
      have hlength := congrArg List.length hn
      rw [List.length_append] at hlength
      change numeralLength n = numeralLength _ + _ at hlength
      omega
    refine ⟨(n / 10 ^ k % 10).digitChar :: rest, by rw [List.length_cons, hrest], ?_⟩
    rw [hn, Nat.toDigits_of_base_le (by decide) hten, Nat.div_div_eq_div_mul, ← Nat.pow_succ,
      List.append_assoc]
    rfl

theorem toDigits_eq_leading_append {width n : Nat} (hpos : 0 < width)
    (hle : width ≤ numeralLength n) :
    numeralLength (leading width n) = width ∧
      ∃ rest, Nat.toDigits 10 n = Nat.toDigits 10 (leading width n) ++ rest := by
  obtain ⟨rest, hrest, hn⟩ := toDigits_div (numeralLength n - width) n (by omega)
  have hlength := congrArg List.length hn
  rw [List.length_append] at hlength
  change numeralLength n = numeralLength (leading width n) + _ at hlength
  exact ⟨by omega, rest, hn⟩

theorem toDigits_append_lt_of_length_eq {m n : Nat} (hlength : numeralLength m = numeralLength n)
    (h : m < n) (xs ys : List Char) : Nat.toDigits 10 m ++ xs < Nat.toDigits 10 n ++ ys :=
  lt_of_ofDigitChars_lt (fun _ => isDigit_of_mem_numeral) (fun _ => isDigit_of_mem_numeral)
    hlength (by rwa [Nat.ofDigitChars_ten_toDigits, Nat.ofDigitChars_ten_toDigits]) xs ys

variable {m n : Nat}

/-- A numeral that is less than the beginning of a longer one sorts before it, whatever
follows them. -/
theorem toDigits_append_lt (hle : m ≤ n) (h : m < leading (numeralLength m) n)
    (xs ys : List Char) : Nat.toDigits 10 m ++ xs < Nat.toDigits 10 n ++ ys := by
  obtain ⟨hlength, rest, hn⟩ :=
    toDigits_eq_leading_append (numeralLength_pos m) (numeralLength_mono hle)
  rw [hn, List.append_assoc]
  exact toDigits_append_lt_of_length_eq hlength.symm h xs (rest ++ ys)

/-- No other numeral does: a greater one sorts behind, and behind the same digits it depends
on what follows. -/
theorem toDigits_append_not_gt_iff (hle : m ≤ n) :
    (∀ xs ys : List Char, ¬Nat.toDigits 10 n ++ ys < Nat.toDigits 10 m ++ xs) ↔
      m < leading (numeralLength m) n := by
  refine ⟨fun hall => Nat.lt_of_not_le fun hge => ?_,
    fun h xs ys => List.lt_asymm (toDigits_append_lt hle h xs ys)⟩
  obtain ⟨hlength, rest, hn⟩ :=
    toDigits_eq_leading_append (numeralLength_pos m) (numeralLength_mono hle)
  rw [hn] at hall
  rcases Nat.lt_or_eq_of_le hge with hlt | heq
  · refine hall [] [] ?_
    rw [List.append_assoc]
    exact toDigits_append_lt_of_length_eq hlength hlt (rest ++ []) []
  · -- the same digits go on with all that follows in the other numeral, and one more
    have hlonger : (Nat.toDigits 10 m ++ rest) ++ [] < (Nat.toDigits 10 m ++ rest) ++ ['0'] :=
      List.append_left_lt (List.nil_lt_cons _ _)
    rw [heq] at hall
    exact hall (rest ++ ['0']) [] (by rwa [List.append_assoc _ rest ['0']] at hlonger)

end GraphLanguages.Text
