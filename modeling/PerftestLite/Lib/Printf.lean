import Mathlib

/-!
# Printed numbers

The conversions `%u`, `%d` and `%.pf`, and reading them back.

* `readDecimal_decimal`, `readSigned_signed`: an integer comes back;
* `readFixed_fixed`, `abs_roundTo_sub_le`: a rational comes back rounded to the printed digits;
* `Plain`: the characters a printed number is made of.
-/

set_option autoImplicit false

namespace Printf

/-- `%llu`. -/
def decimal (n : ℕ) : List Char := Nat.toDigits 10 n

/-- Digits, at least one. -/
def readDecimal (cs : List Char) : Option ℕ :=
  if cs ≠ [] ∧ ∀ c ∈ cs, c.isDigit = true then some (Nat.ofDigitChars 10 cs 0) else none

theorem decimal_digits {n : ℕ} {c : Char} (h : c ∈ decimal n) : c.isDigit = true :=
  Nat.isDigit_of_mem_toDigits (by decide) (by decide) h

theorem readDecimal_decimal (n : ℕ) : readDecimal (decimal n) = some n := by
  rw [readDecimal, if_pos ⟨Nat.toDigits_ne_nil, fun _ => decimal_digits⟩, decimal,
    Nat.ofDigitChars_toDigits (by decide) (by decide)]

/-- A number above zero does not begin with a zero. -/
theorem decimal_head {n : ℕ} (hn : 0 < n) : ∃ c t, decimal n = c :: t ∧ c ≠ '0' := by
  induction n using Nat.strongRecOn with
  | ind n ih =>
    unfold decimal at ih ⊢
    rw [Nat.toDigits_eq_if (by decide)]
    split_ifs with hlt
    · refine ⟨_, [], rfl, ?_⟩
      interval_cases n <;> decide
    · obtain ⟨c, t, ht, hc⟩ := ih (n / 10) (by omega) (by omega)
      exact ⟨c, t ++ [_], by rw [ht]; rfl, hc⟩

/-! ## Signs -/

/-- A minus sign before a number below zero. -/
def sign (negative : Bool) : List Char := if negative then ['-'] else []

/-- An optional minus sign. -/
def readSign : List Char → Bool × List Char
  | '-' :: t => (true, t)
  | t => (false, t)

theorem readSign_sign {negative : Bool} {cs : List Char} (h : ∀ c ∈ cs, c ≠ '-') :
    readSign (sign negative ++ cs) = (negative, cs) := by
  cases negative with
  | true => rfl
  | false =>
    cases cs with
    | nil => rfl
    | cons c t =>
      have hc : c ≠ '-' := h c List.mem_cons_self
      simp only [sign, Bool.false_eq_true, if_false, List.nil_append]
      unfold readSign
      split
      case h_1 heq => exact absurd (List.cons.inj heq).1 hc
      case h_2 => rfl

/-- `%d`. -/
def signed (x : ℤ) : List Char := sign (decide (x < 0)) ++ decimal x.natAbs

def readSigned (cs : List Char) : Option ℤ :=
  (readDecimal (readSign cs).2).map fun n : ℕ => if (readSign cs).1 then -(n : ℤ) else (n : ℤ)

theorem ne_minus_of_isDigit {c : Char} (h : c.isDigit = true) : c ≠ '-' := by
  rintro rfl
  cases h

theorem readSigned_signed (x : ℤ) : readSigned (signed x) = some x := by
  rw [readSigned, signed, readSign_sign fun c hc => ne_minus_of_isDigit (decimal_digits hc),
    readDecimal_decimal, Option.map_some]
  rcases lt_or_ge x 0 with h | h
  · rw [if_pos (decide_eq_true h)]
    exact congrArg some (by omega)
  · rw [if_neg (by simpa using h)]
    exact congrArg some (by omega)

/-! ## Rounding to a number of digits -/

/-- The nearest integer, the even one of two. -/
def roundEven (x : ℚ) : ℤ :=
  let r := x - ⌊x⌋
  if r < 1 / 2 then ⌊x⌋ else if 1 / 2 < r then ⌊x⌋ + 1 else if ⌊x⌋ % 2 = 0 then ⌊x⌋ else ⌊x⌋ + 1

theorem abs_roundEven_sub_le (x : ℚ) : |(roundEven x : ℚ) - x| ≤ 1 / 2 := by
  have h0 := Int.floor_le x
  have h1 := Int.lt_floor_add_one x
  unfold roundEven
  dsimp only
  rw [abs_le]
  split_ifs
  · constructor <;> linarith
  · push_cast
    constructor <;> linarith
  · constructor <;> linarith
  · push_cast
    constructor <;> linarith

theorem roundEven_nonneg {x : ℚ} (h : 0 ≤ x) : 0 ≤ roundEven x := by
  have h0 : 0 ≤ ⌊x⌋ := Int.floor_nonneg.mpr h
  unfold roundEven
  dsimp only
  split_ifs <;> omega

/-- The digits of `|x|` up to the `p`-th behind the point, as one number. -/
def scaled (p : ℕ) (x : ℚ) : ℕ := (roundEven (|x| * 10 ^ p)).toNat

/-- A number of digits with its sign and its point. -/
def unscaled (p : ℕ) (negative : Bool) (n : ℕ) : ℚ := (if negative then -1 else 1) * (n / 10 ^ p)

/-- `x` rounded to `p` digits behind the point. -/
def roundTo (p : ℕ) (x : ℚ) : ℚ := unscaled p (decide (x < 0)) (scaled p x)

/-- **Rounding moves a number by half a unit of the last digit at most.** -/
theorem abs_roundTo_sub_le (p : ℕ) (x : ℚ) : |roundTo p x - x| ≤ 1 / (2 * 10 ^ p) := by
  have hp : (0 : ℚ) < 10 ^ p := by positivity
  have hn : ((scaled p x : ℕ) : ℚ) = (roundEven (|x| * 10 ^ p) : ℚ) := by
    have h0 : 0 ≤ roundEven (|x| * 10 ^ p) := roundEven_nonneg (by positivity)
    have hz : ((scaled p x : ℕ) : ℤ) = roundEven (|x| * 10 ^ p) := Int.toNat_of_nonneg h0
    exact_mod_cast congrArg (Int.cast : ℤ → ℚ) hz
  -- the error of the magnitude
  have hmag : abs ((scaled p x : ℚ) / 10 ^ p - abs x) ≤ 1 / (2 * 10 ^ p) := by
    have hsub : (scaled p x : ℚ) / 10 ^ p - abs x = ((scaled p x : ℚ) - abs x * 10 ^ p) / 10 ^ p := by
      field_simp
    rw [hsub, abs_div, abs_of_pos hp, div_le_div_iff₀ hp (by positivity), hn]
    have := abs_roundEven_sub_le (|x| * 10 ^ p)
    nlinarith
  unfold roundTo unscaled
  rcases lt_or_ge x 0 with h | h
  · rw [if_pos (decide_eq_true h)]
    rw [abs_of_neg h] at hmag
    rw [show -1 * ((scaled p x : ℚ) / 10 ^ p) - x = -((scaled p x : ℚ) / 10 ^ p - -x) by ring, abs_neg]
    exact hmag
  · rw [if_neg (by simpa using h), one_mul]
    rw [abs_of_nonneg h] at hmag
    exact hmag

/-! ## `%.pf` -/

/-- The digits behind the point. -/
def fraction (p n : ℕ) : List Char := List.replicate (p - (decimal n).length) '0' ++ decimal n

/-- `%.pf`, for `p` above zero. -/
def fixed (p : ℕ) (x : ℚ) : List Char :=
  sign (decide (x < 0)) ++ (decimal (scaled p x / 10 ^ p) ++ '.' :: fraction p (scaled p x % 10 ^ p))

/-- A sign, digits, a point and `p` digits. -/
def readFixed (p : ℕ) (cs : List Char) : Option ℚ :=
  match (readSign cs).2.splitOn '.' with
  | [whole, frac] =>
    if frac.length = p then
      (readDecimal whole).bind fun n => (readDecimal frac).map fun m =>
        unscaled p (readSign cs).1 (n * 10 ^ p + m)
    else none
  | _ => none

theorem fraction_digits {p n : ℕ} {c : Char} (h : c ∈ fraction p n) : c.isDigit = true := by
  rcases List.mem_append.mp h with h | h
  · rw [List.eq_of_mem_replicate h]
    rfl
  · exact decimal_digits h

theorem length_fraction {p n : ℕ} (hp : 0 < p) (hn : n < 10 ^ p) : (fraction p n).length = p := by
  have hle : (decimal n).length ≤ p := (Nat.length_toDigits_le_iff (by decide) hp).mpr hn
  simp only [fraction, List.length_append, List.length_replicate]
  omega

theorem readDecimal_fraction (p n : ℕ) : readDecimal (fraction p n) = some n := by
  have hne : fraction p n ≠ [] := List.append_ne_nil_of_right_ne_nil _ Nat.toDigits_ne_nil
  rw [readDecimal, if_pos ⟨hne, fun _ => fraction_digits⟩, fraction, Nat.ofDigitChars_append,
    Nat.ofDigitChars_replicate_zero, Nat.mul_zero, decimal, Nat.ofDigitChars_toDigits (by decide) (by decide)]

theorem ne_point_of_isDigit {c : Char} (h : c.isDigit = true) : c ≠ '.' := by
  rintro rfl
  cases h

/-- **A rational comes back rounded.** -/
theorem readFixed_fixed {p : ℕ} (hp : 0 < p) (x : ℚ) : readFixed p (fixed p x) = some (roundTo p x) := by
  have hminus : ∀ c ∈ decimal (scaled p x / 10 ^ p) ++ '.' :: fraction p (scaled p x % 10 ^ p), c ≠ '-' := by
    intro c hc
    rcases List.mem_append.mp hc with hc | hc
    · exact ne_minus_of_isDigit (decimal_digits hc)
    · rcases List.mem_cons.mp hc with rfl | hc
      · decide
      · exact ne_minus_of_isDigit (fraction_digits hc)
  have hwhole : '.' ∉ decimal (scaled p x / 10 ^ p) := fun h => ne_point_of_isDigit (decimal_digits h) rfl
  have hfrac : '.' ∉ fraction p (scaled p x % 10 ^ p) := fun h => ne_point_of_isDigit (fraction_digits h) rfl
  have hlen : (fraction p (scaled p x % 10 ^ p)).length = p :=
    length_fraction hp (Nat.mod_lt _ (by positivity))
  rw [readFixed, fixed, readSign_sign hminus, List.splitOn_append_cons_self_of_not_mem hwhole,
    List.splitOn_eq_singleton hfrac]
  dsimp only
  rw [if_pos hlen, readDecimal_decimal, readDecimal_fraction, Option.bind_some, Option.map_some,
    Nat.div_add_mod']
  rfl

/-! ## The characters of a number -/

/-- Digits, a sign and a point. -/
def Plain (cs : List Char) : Prop := ∀ c ∈ cs, c.isDigit = true ∨ c = '-' ∨ c = '.'

theorem Plain.not_mem {cs : List Char} (h : Plain cs) {d : Char} (h₁ : d.isDigit = false) (h₂ : d ≠ '-')
    (h₃ : d ≠ '.') : d ∉ cs := by
  intro hd
  rcases h d hd with hc | hc | hc
  · rw [h₁] at hc
    cases hc
  · exact h₂ hc
  · exact h₃ hc

theorem plain_decimal (n : ℕ) : Plain (decimal n) := fun _ hc => .inl (decimal_digits hc)

theorem plain_sign (negative : Bool) : Plain (sign negative) := by
  cases negative <;> simp [Plain, sign]

theorem plain_signed (x : ℤ) : Plain (signed x) := by
  intro c hc
  rcases List.mem_append.mp hc with hc | hc
  · exact plain_sign _ c hc
  · exact plain_decimal _ c hc

theorem plain_fixed (p : ℕ) (x : ℚ) : Plain (fixed p x) := by
  intro c hc
  rcases List.mem_append.mp hc with hc | hc
  · exact plain_sign _ c hc
  · rcases List.mem_append.mp hc with hc | hc
    · exact plain_decimal _ c hc
    · rcases List.mem_cons.mp hc with hc | hc
      · exact .inr (.inr hc)
      · exact .inl (fraction_digits hc)

theorem decimal_ne_nil (n : ℕ) : decimal n ≠ [] := Nat.toDigits_ne_nil

theorem signed_ne_nil (x : ℤ) : signed x ≠ [] := List.append_ne_nil_of_right_ne_nil _ Nat.toDigits_ne_nil

theorem fixed_ne_nil (p : ℕ) (x : ℚ) : fixed p x ≠ [] :=
  List.append_ne_nil_of_right_ne_nil _ (List.append_ne_nil_of_left_ne_nil Nat.toDigits_ne_nil _)

end Printf
