import Mathlib

/-!
# Spaced times and rates

Times at least `g` apart, and how many of them fit into a window. A rate of `r` in `m` units of time is
kept by a gap of `m / r` as long as what the division drops does not add up to `m`.

* `Spaced`, `Spaced.snoc`, `Spaced.span_le`: the last time is that far from the first;
* `inWindow`, `Spaced.inWindow_le`: a window has room for one more than the gaps that fit;
* `Tiles`, `Tiles.snoc`, `Tiles.span_le`: windows one after the other;
* `every`, `inWindow_every`: times exactly `g` apart fill it;
* `le_ceilDiv_of_gaps`, `ceilDiv_lt_of_gaps`: the rate kept, and the rate exceeded.
-/

set_option autoImplicit false

namespace Rate

/-- Each time is at least `g` after the ones before it. -/
def Spaced (g : ℕ) (l : List ℕ) : Prop := l.Pairwise fun x y => x + g ≤ y

variable {g c t d : ℕ} {l : List ℕ}

theorem Spaced.snoc (h : Spaced g l) (hc : ∀ x ∈ l, x + g ≤ c) : Spaced g (l ++ [c]) := by
  refine List.pairwise_append.mpr ⟨h, List.pairwise_singleton _ c, fun x hx y hy => ?_⟩
  rw [List.mem_singleton.mp hy]
  exact hc x hx

/-- From a time before the first to a time a gap after the last there is a gap for each. -/
theorem Spaced.span_le (h : Spaced g l) (htc : t ≤ c) (ht : ∀ x ∈ l, t ≤ x)
    (hc : ∀ x ∈ l, x + g ≤ c) : t + l.length * g ≤ c := by
  induction l generalizing t with
  | nil => simpa using htc
  | cons x l ih =>
    obtain ⟨hx, hl⟩ := List.pairwise_cons.mp h
    have htx := ht x List.mem_cons_self
    have hxc := hc x List.mem_cons_self
    have hrest := ih hl hxc hx fun y hy => hc y (List.mem_cons_of_mem x hy)
    rw [List.length_cons, Nat.succ_mul]
    omega

/-- How many of the times are in the window from `t` to `t + d`. -/
def inWindow (t d : ℕ) (l : List ℕ) : ℕ := l.countP fun x => decide (t ≤ x ∧ x ≤ t + d)

theorem inWindow_le_length (t d : ℕ) (l : List ℕ) : inWindow t d l ≤ l.length := List.countP_le_length

/-- **A window has room for one more than the gaps that fit into it.** -/
theorem Spaced.inWindow_le (h : Spaced g l) (t d : ℕ) : (inWindow t d l - 1) * g ≤ d := by
  have hsub : Spaced g (l.filter fun x => decide (t ≤ x ∧ x ≤ t + d)) := h.filter _
  have hmem : ∀ x ∈ l.filter fun x => decide (t ≤ x ∧ x ≤ t + d), t ≤ x ∧ x ≤ t + d :=
    fun x hx => of_decide_eq_true (List.mem_filter.mp hx).2
  have hspan := hsub.span_le (t := t) (c := t + d + g) (by omega) (fun x hx => (hmem x hx).1)
    fun x hx => by have := (hmem x hx).2; omega
  rw [← List.countP_eq_length_filter] at hspan
  change t + inWindow t d l * g ≤ t + d + g at hspan
  rw [Nat.sub_mul, Nat.one_mul]
  omega

/-! ## Windows one after the other -/

section Tiling

variable {ω : Type*} {start stop : ω → ℕ} {ws : List ω} {u : ℕ} {w : ω}

/-- Each window starts where the one before it stops, the first one at `t`, and the last one stops at `u`. -/
def Tiles (start stop : ω → ℕ) : ℕ → List ω → ℕ → Prop
  | t, [], u => t = u
  | t, w :: ws, u => start w = t ∧ Tiles start stop (stop w) ws u

theorem Tiles.snoc (h : Tiles start stop t ws u) (hw : start w = u) :
    Tiles start stop t (ws ++ [w]) (stop w) := by
  induction ws generalizing t with
  | nil => exact ⟨hw.trans h.symm, rfl⟩
  | cons v ws ih => exact ⟨h.1, ih h.2⟩

/-- Windows of at least `g` each. -/
theorem Tiles.span_le (h : Tiles start stop t ws u) (hg : ∀ w ∈ ws, start w + g ≤ stop w) :
    t + ws.length * g ≤ u := by
  induction ws generalizing t with
  | nil =>
    rw [← show t = u from h]
    simp
  | cons v ws ih =>
    obtain ⟨hstart, hrest⟩ := h
    have hv := hg v List.mem_cons_self
    have hle := ih hrest fun w hw => hg w (List.mem_cons_of_mem v hw)
    rw [List.length_cons, Nat.succ_mul]
    omega

end Tiling

/-! ## Times exactly a gap apart -/

/-- `n` times from `t` on. -/
def every (g t : ℕ) : ℕ → List ℕ
  | 0 => []
  | n + 1 => every g t n ++ [t + n * g]

theorem mem_every {n x : ℕ} (hx : x ∈ every g t n) : ∃ i < n, x = t + i * g := by
  induction n with
  | zero => cases hx
  | succ n ih =>
    rcases List.mem_append.mp hx with hx | hx
    · obtain ⟨i, hi, rfl⟩ := ih hx
      exact ⟨i, by omega, rfl⟩
    · exact ⟨n, by omega, List.mem_singleton.mp hx⟩

theorem length_every (g t n : ℕ) : (every g t n).length = n := by
  induction n with
  | zero => rfl
  | succ n ih => rw [every, List.length_append, ih, List.length_singleton]

/-- **They fill the window.** -/
theorem inWindow_every (g t k : ℕ) : inWindow t (k * g) (every g t (k + 1)) = k + 1 := by
  have hall : inWindow t (k * g) (every g t (k + 1)) = (every g t (k + 1)).length := by
    apply List.countP_eq_length.mpr
    intro x hx
    obtain ⟨i, hi, rfl⟩ := mem_every hx
    have hle : i * g ≤ k * g := Nat.mul_le_mul_right g (by omega)
    exact decide_eq_true ⟨by omega, by omega⟩
  rw [hall, length_every]

/-! ## Rates -/

variable {m r k : ℕ}

/-- **The rate is kept** by `k` gaps whose dropped parts are less than `m` together. -/
theorem le_ceilDiv_of_gaps (hm : 0 < m) (hd : k * (m / r) ≤ d) (hk : k * (m % r) < m) :
    k ≤ (d * r) ⌈/⌉ m := by
  have hsplit : k * m = k * (m / r) * r + k * (m % r) := by
    calc k * m = k * (r * (m / r) + m % r) := by rw [Nat.div_add_mod]
      _ = k * (m / r) * r + k * (m % r) := by ring
  have hdr : k * (m / r) * r ≤ d * r := Nat.mul_le_mul_right r hd
  rcases Nat.eq_zero_or_pos k with rfl | hpos
  · exact Nat.zero_le _
  · have hkm : m ≤ k * m := Nat.le_mul_of_pos_left m hpos
    have hceil : k - 1 < (d * r) ⌈/⌉ m := by
      apply lt_of_not_ge
      intro hle
      have hdm : d * r ≤ m * (k - 1) := (ceilDiv_le_iff_le_mul hm).mp hle
      rw [Nat.mul_sub, Nat.mul_one, Nat.mul_comm m k] at hdm
      omega
    omega

/-- **The rate is exceeded** by `k` gaps whose dropped parts are `m` together. -/
theorem ceilDiv_lt_of_gaps (hm : 0 < m) (hk : m ≤ k * (m % r)) : (k * (m / r) * r) ⌈/⌉ m < k := by
  have hsplit : k * m = k * (m / r) * r + k * (m % r) := by
    calc k * m = k * (r * (m / r) + m % r) := by rw [Nat.div_add_mod]
      _ = k * (m / r) * r + k * (m % r) := by ring
  have hpos : 0 < k := by
    apply Nat.pos_of_ne_zero
    rintro rfl
    omega
  have hle : (k * (m / r) * r) ⌈/⌉ m ≤ k - 1 := by
    rw [ceilDiv_le_iff_le_mul hm, Nat.mul_sub, Nat.mul_one, Nat.mul_comm m k]
    omega
  omega

/-- The least number of gaps whose dropped parts are `m` together. -/
theorem gaps_fit_iff {e q : ℕ} (hq : 0 < q) :
    (∀ k, k * g < e → k * q < m) ↔ e ≤ m ⌈/⌉ q * g := by
  constructor
  · intro h
    by_contra hlt
    have hsmall := h (m ⌈/⌉ q) (by omega)
    have hle : m ≤ q * (m ⌈/⌉ q) := (ceilDiv_le_iff_le_mul hq).mp le_rfl
    rw [Nat.mul_comm] at hle
    omega
  · intro h k hk
    by_contra hge
    have hceil : m ⌈/⌉ q ≤ k := (ceilDiv_le_iff_le_mul hq).mpr (by rw [Nat.mul_comm]; omega)
    have := Nat.mul_le_mul_right g hceil
    omega

end Rate
