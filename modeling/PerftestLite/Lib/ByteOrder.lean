import Mathlib.Data.Nat.Notation
import Mathlib.Tactic.Common
import Mathlib.Tactic.IntervalCases

/-!
# Four octets and the word they are read as

Network order puts the most significant octet first in memory. Reading four octets as one word gives
their number on a big-endian host, and the number with its octets reversed on a little-endian one.

* `Octets`, `load`, `number`: four octets in memory, what a host reads, what they stand for;
* `swap`, `swap_load`: reversing the octets of a word undoes the wrong reading;
* `load_inj`, `load_eq_iff`: a host reads different octets as different words.
-/

set_option autoImplicit false

namespace ByteOrder

/-- Four octets in the order of memory. -/
structure Octets where
  b₀ : BitVec 8
  b₁ : BitVec 8
  b₂ : BitVec 8
  b₃ : BitVec 8
  deriving DecidableEq, Repr

inductive Host
  | little
  | big
  deriving DecidableEq, Repr

/-- The word with these octets, the most significant first. -/
def word (a b c d : BitVec 8) : BitVec 32 := a ++ b ++ c ++ d

/-- Four octets read as one word. -/
def load : Host → Octets → BitVec 32
  | .big, o => word o.b₀ o.b₁ o.b₂ o.b₃
  | .little, o => word o.b₃ o.b₂ o.b₁ o.b₀

/-- The number four octets in network order stand for. -/
def number (o : Octets) : BitVec 32 := word o.b₀ o.b₁ o.b₂ o.b₃

/-- The octets of a word reversed. -/
def swap (x : BitVec 32) : BitVec 32 :=
  ((x &&& 0x000000FF#32) <<< 24) ||| ((x &&& 0x0000FF00#32) <<< 8) |||
    ((x &&& 0x00FF0000#32) >>> 8) ||| ((x &&& 0xFF000000#32) >>> 24)

theorem getLsbD_word (a b c d : BitVec 8) (i : ℕ) :
    (word a b c d).getLsbD i =
      if i < 8 then d.getLsbD i else if i - 8 < 8 then c.getLsbD (i - 8)
      else if i - 8 - 8 < 8 then b.getLsbD (i - 8 - 8) else a.getLsbD (i - 8 - 8 - 8) := by
  change (a ++ b ++ c ++ d).getLsbD i = _
  simp only [BitVec.getLsbD_append]

theorem swap_word (a b c d : BitVec 8) : swap (word a b c d) = word d c b a := by
  apply BitVec.eq_of_getLsbD_eq
  intro i hi
  simp only [swap, BitVec.getLsbD_or, BitVec.getLsbD_and, BitVec.getLsbD_shiftLeft,
    BitVec.getLsbD_ushiftRight, getLsbD_word]
  -- bit by bit, the masks are known
  interval_cases i <;> simp

/-- **Reversing the octets gives the number on a little-endian host.** -/
theorem swap_load (o : Octets) : swap (load .little o) = number o := swap_word o.b₃ o.b₂ o.b₁ o.b₀

/-- Two halves of a word can be told apart. -/
theorem append_inj {m n : ℕ} {x x' : BitVec m} {y y' : BitVec n} (h : x ++ y = x' ++ y') :
    x = x' ∧ y = y' := by
  have hy := congrArg (BitVec.extractLsb' 0 n) h
  rw [BitVec.extractLsb'_append_eq_right, BitVec.extractLsb'_append_eq_right] at hy
  rw [hy] at h
  exact ⟨(BitVec.append_left_inj y').mp h, hy⟩

theorem word_inj {a b c d a' b' c' d' : BitVec 8} (h : word a b c d = word a' b' c' d') :
    a = a' ∧ b = b' ∧ c = c' ∧ d = d' := by
  obtain ⟨habc, hd⟩ := append_inj h
  obtain ⟨hab, hc⟩ := append_inj habc
  obtain ⟨ha, hb⟩ := append_inj hab
  exact ⟨ha, hb, hc, hd⟩

/-- **Different octets are read as different words.** -/
theorem load_inj {h : Host} {o o' : Octets} (he : load h o = load h o') : o = o' := by
  obtain ⟨a, b, c, d⟩ := o
  obtain ⟨a', b', c', d'⟩ := o'
  cases h with
  | big =>
    obtain ⟨rfl, rfl, rfl, rfl⟩ := word_inj he
    rfl
  | little =>
    obtain ⟨rfl, rfl, rfl, rfl⟩ := word_inj he
    rfl

theorem load_eq_iff {h : Host} {o z : Octets} {x : BitVec 32} (hz : load h z = x) :
    load h o = x ↔ o = z := by
  rw [← hz]
  exact ⟨load_inj, congrArg (load h)⟩

end ByteOrder
