import Mathlib.Data.Nat.Dist
import Mathlib.Tactic.Ring
import ReactiveTemplate.Number.Binary64

/-!
# Rounding to 53 bits

A natural with more than 53 bits is a significand of 53 bits, in units of a power of two, and a rest
below one unit. It is rounded on its rest alone, to the nearest of all numbers with at most 53
significant bits, and a tie to the one with an even significand. Zero bits behind a number are no
part of its significand, and what stands in their place matters to the rounding only where the bits
in front of them are a tie.
-/

namespace ReactiveTemplate

theorem hiddenBit_eq : hiddenBit = 2 ^ 52 :=
  rfl

theorem hiddenBit_pos : 0 < hiddenBit :=
  Nat.two_pow_pos 52

theorem roundRatio_one (n : Nat) : roundRatio n 1 = n := by
  simp [roundRatio, Nat.mod_one]

/-! ## Significands -/

/-- A number of more than 53 bits: its first 53 bits, how many bits there are behind them, and the
number that these make up. -/
structure Leading (n significand exponent rest : Nat) : Prop where
  eq : n = significand * 2 ^ exponent + rest
  rest_lt : rest < 2 ^ exponent
  le : hiddenBit ≤ significand
  lt : significand < 2 * hiddenBit
  pos : 0 < exponent

namespace Leading

variable {n significand exponent rest : Nat}

theorem log2_eq (h : Leading n significand exponent rest) : n.log2 = exponent + 52 := by
  have hpos := Nat.two_pow_pos exponent
  have hlow : 2 ^ (exponent + 52) ≤ n := by
    rw [h.eq, Nat.pow_add, Nat.mul_comm, ← hiddenBit_eq]
    exact Nat.le_add_right_of_le (Nat.mul_le_mul_right _ h.le)
  have hhigh : n < 2 ^ (exponent + 52 + 1) := by
    have hlt := Nat.mul_le_mul_right (2 ^ exponent) (Nat.succ_le_of_lt h.lt)
    rw [Nat.succ_mul] at hlt
    have hrest := h.rest_lt
    rw [h.eq, Nat.pow_succ, Nat.pow_add, ← hiddenBit_eq, Nat.mul_comm (2 ^ exponent)]
    have hdouble : hiddenBit * 2 ^ exponent * 2 = 2 * hiddenBit * 2 ^ exponent := by ring
    omega
  have hn : n ≠ 0 := Nat.ne_zero_of_lt (Nat.lt_of_lt_of_le (Nat.two_pow_pos _) hlow)
  exact (Nat.log2_eq_iff hn).mpr ⟨hlow, hhigh⟩

theorem long (h : Leading n significand exponent rest) : 2 * hiddenBit ≤ n := by
  have hpow : 2 ^ 1 ≤ 2 ^ exponent := Nat.pow_le_pow_right (by decide) h.pos
  have hmul := Nat.mul_le_mul h.le hpow
  rw [h.eq]
  omega

theorem roundNat_eq (h : Leading n significand exponent rest) :
    roundNat n = roundRatio n (2 ^ exponent) * 2 ^ exponent := by
  rw [roundNat, if_neg (Nat.not_lt.mpr h.long)]
  dsimp only
  rw [h.log2_eq, Nat.add_sub_cancel, Nat.one_shiftLeft]

theorem div_mod (h : Leading n significand exponent rest) :
    n / 2 ^ exponent = significand ∧ n % 2 ^ exponent = rest := by
  refine (Nat.div_mod_unique (Nat.two_pow_pos exponent)).mpr ⟨?_, h.rest_lt⟩
  rw [h.eq, Nat.mul_comm, Nat.add_comm]

/-- Rounding looks at the rest alone: below one half it rounds down, above it up, and at one half to
the even neighbour. -/
theorem roundRatio_eq (h : Leading n significand exponent rest) :
    roundRatio n (2 ^ exponent) =
      if 2 * rest < 2 ^ exponent then significand
      else if 2 ^ exponent < 2 * rest then significand + 1 else significand + significand % 2 := by
  rw [roundRatio, h.div_mod.1, h.div_mod.2]

theorem roundRatio_eq_of_exact (h : Leading n significand exponent 0) :
    roundRatio n (2 ^ exponent) = significand := by
  rw [h.roundRatio_eq, Nat.mul_zero, if_pos (Nat.two_pow_pos exponent)]

theorem unique {significand' exponent' rest' : Nat} (h : Leading n significand exponent rest)
    (h' : Leading n significand' exponent' rest') :
    significand = significand' ∧ exponent = exponent' ∧ rest = rest' := by
  -- How many bits there are behind the significand is read off the size of the number.
  have hlog := h.log2_eq.symm.trans h'.log2_eq
  obtain rfl : exponent = exponent' := Nat.add_right_cancel hlog
  exact ⟨h.div_mod.1.symm.trans h'.div_mod.1, rfl, h.div_mod.2.symm.trans h'.div_mod.2⟩

/-- A long number is rounded to its significand or to the next one, whichever is not farther. -/
theorem roundRatio_cases (h : Leading n significand exponent rest) :
    roundRatio n (2 ^ exponent) = significand ∧ 2 * rest ≤ 2 ^ exponent ∨
      roundRatio n (2 ^ exponent) = significand + 1 ∧ 2 ^ exponent ≤ 2 * rest := by
  rw [h.roundRatio_eq]
  split
  · exact .inl ⟨rfl, by omega⟩
  · split
    · exact .inr ⟨rfl, by omega⟩
    · rcases Nat.mod_two_eq_zero_or_one significand with heven | hodd
      · exact .inl ⟨by rw [heven, Nat.add_zero], by omega⟩
      · exact .inr ⟨by rw [hodd], by omega⟩

theorem roundRatio_bounds (h : Leading n significand exponent rest) :
    hiddenBit ≤ roundRatio n (2 ^ exponent) ∧ roundRatio n (2 ^ exponent) ≤ 2 * hiddenBit := by
  have hle := h.le
  have hlt := h.lt
  rcases h.roundRatio_cases with ⟨hround, -⟩ | ⟨hround, -⟩ <;> omega

/-- The number without its rest. -/
theorem exact (h : Leading n significand exponent rest) :
    Leading (significand * 2 ^ exponent) significand exponent 0 :=
  ⟨rfl, Nat.two_pow_pos exponent, h.le, h.lt, h.pos⟩

theorem le_roundNat (h : Leading n significand exponent rest) :
    significand * 2 ^ exponent ≤ roundNat n := by
  rw [h.roundNat_eq]
  refine Nat.mul_le_mul_right _ ?_
  rcases h.roundRatio_cases with ⟨hround, -⟩ | ⟨hround, -⟩ <;> omega

/-- More bits behind a number belong to its rest. -/
theorem extend (h : Leading n significand exponent rest) {count more : Nat}
    (hmore : more < 2 ^ count) :
    Leading (n * 2 ^ count + more) significand (exponent + count) (rest * 2 ^ count + more) where
  eq := by
    rw [h.eq]
    ring
  rest_lt := by
    have hmul := Nat.mul_le_mul_right (2 ^ count) (Nat.succ_le_of_lt h.rest_lt)
    rw [Nat.succ_mul] at hmul
    rw [Nat.pow_add]
    omega
  le := h.le
  lt := h.lt
  pos := Nat.add_pos_left h.pos _

end Leading

/-- Every number of more than 53 bits has leading ones, since its length says how many bits stand
behind them. -/
theorem exists_leading {n : Nat} (hn : 2 * hiddenBit ≤ n) :
    ∃ significand exponent rest, Leading n significand exponent rest := by
  have hpositive := hiddenBit_pos
  have hne : n ≠ 0 := by omega
  obtain ⟨hlow, hhigh⟩ := (Nat.log2_eq_iff hne).mp rfl
  have hlog : 53 ≤ n.log2 := (Nat.le_log2 hne).mpr hn
  obtain ⟨exponent, hexponent⟩ : ∃ exponent, n.log2 = exponent + 52 := ⟨n.log2 - 52, by omega⟩
  rw [hexponent] at hlow hhigh
  have hpos := Nat.two_pow_pos exponent
  refine ⟨n / 2 ^ exponent, exponent, n % 2 ^ exponent, ?_, Nat.mod_lt _ hpos, ?_, ?_, by omega⟩
  · rw [Nat.mul_comm]
    exact (Nat.div_add_mod _ _).symm
  · rw [Nat.le_div_iff_mul_le hpos, hiddenBit_eq, ← Nat.pow_add, Nat.add_comm]
    exact hlow
  · rw [Nat.div_lt_iff_lt_mul hpos, show 2 * hiddenBit = 2 ^ 53 from rfl, ← Nat.pow_add,
      Nat.add_comm]
    exact hhigh

/-! ## Numbers with 53 significant bits -/

/-- A number with at most 53 significant bits. -/
def IsShort (n : Nat) : Prop :=
  ∃ significand exponent, significand < 2 * hiddenBit ∧ n = significand * 2 ^ exponent

theorem roundNat_of_lt {n : Nat} (hn : n < 2 * hiddenBit) : roundNat n = n := by
  rw [roundNat, if_pos hn]

theorem isShort_of_lt {n : Nat} (hn : n < 2 * hiddenBit) : IsShort n :=
  ⟨n, 0, hn, (Nat.mul_one n).symm⟩

theorem IsShort.mul_two_pow {n : Nat} (h : IsShort n) (count : Nat) : IsShort (n * 2 ^ count) := by
  obtain ⟨significand, exponent, hlt, rfl⟩ := h
  exact ⟨significand, exponent + count, hlt, by rw [Nat.pow_add, Nat.mul_assoc]⟩

/-- Between a long number cut short and the next such number there is none with 53 significant
bits. -/
theorem IsShort.apart {m n significand exponent rest : Nat} (h : IsShort m)
    (hlead : Leading n significand exponent rest) :
    m ≤ significand * 2 ^ exponent ∨ (significand + 1) * 2 ^ exponent ≤ m := by
  obtain ⟨significand', exponent', hlt, rfl⟩ := h
  by_cases hle : exponent ≤ exponent'
  · -- It is a multiple of the unit.
    obtain ⟨more, rfl⟩ := Nat.exists_eq_add_of_le hle
    rw [show significand' * 2 ^ (exponent + more) = significand' * 2 ^ more * 2 ^ exponent by ring]
    rcases Nat.lt_or_ge significand (significand' * 2 ^ more) with hless | hmore
    · exact .inr (Nat.mul_le_mul_right _ hless)
    · exact .inl (Nat.mul_le_mul_right _ hmore)
  · refine .inl ?_
    have hpow : 2 ^ (exponent' + 1) ≤ 2 ^ exponent := Nat.pow_le_pow_right (by decide) (by omega)
    calc
      significand' * 2 ^ exponent' ≤ 2 * hiddenBit * 2 ^ exponent' :=
        Nat.mul_le_mul_right _ (Nat.le_of_lt hlt)
      _ = hiddenBit * 2 ^ (exponent' + 1) := by ring
      _ ≤ significand * 2 ^ exponent := Nat.mul_le_mul hlead.le hpow

/-- A number with 53 significant bits has nothing behind them. -/
theorem IsShort.rest_eq_zero {n significand exponent rest : Nat} (h : IsShort n)
    (hlead : Leading n significand exponent rest) : rest = 0 := by
  have heq := hlead.eq
  have hrest := hlead.rest_lt
  have hapart := h.apart hlead
  rw [Nat.succ_mul] at hapart
  omega

/-- A number with at most 53 significant bits is its own rounding, however long it is. -/
theorem roundNat_of_isShort {n : Nat} (h : IsShort n) : roundNat n = n := by
  by_cases hn : n < 2 * hiddenBit
  · exact roundNat_of_lt hn
  · obtain ⟨significand, exponent, rest, hlead⟩ := exists_leading (Nat.not_lt.mp hn)
    obtain rfl := h.rest_eq_zero hlead
    rw [hlead.roundNat_eq, hlead.roundRatio_eq_of_exact, hlead.eq, Nat.add_zero]

/-- A significand that is rounded up to a power of two has no bits but the first one. -/
theorem exists_normal {significand : Nat} (hle : hiddenBit ≤ significand)
    (hlast : significand ≤ 2 * hiddenBit) (exponent : Nat) :
    ∃ significand' exponent', hiddenBit ≤ significand' ∧ significand' < 2 * hiddenBit ∧
      (significand % 2 = 0 → significand' % 2 = 0) ∧
      significand * 2 ^ exponent = significand' * 2 ^ exponent' := by
  by_cases hlt : significand < 2 * hiddenBit
  · exact ⟨significand, exponent, hle, hlt, id, rfl⟩
  · obtain rfl : significand = 2 * hiddenBit := by omega
    refine ⟨hiddenBit, exponent + 1, Nat.le_refl _, by decide, fun _ => rfl, ?_⟩
    rw [Nat.pow_succ]
    ring

/-- What rounding gives has at most 53 significant bits, also where it carries over into one bit
more. -/
theorem isShort_roundNat (n : Nat) : IsShort (roundNat n) := by
  by_cases hn : n < 2 * hiddenBit
  · rw [roundNat_of_lt hn]
    exact isShort_of_lt hn
  · obtain ⟨significand, exponent, rest, hlead⟩ := exists_leading (Nat.not_lt.mp hn)
    obtain ⟨hle, hlast⟩ := hlead.roundRatio_bounds
    obtain ⟨significand', exponent', -, hlt, -, heq⟩ := exists_normal hle hlast exponent
    rw [hlead.roundNat_eq]
    exact ⟨significand', exponent', hlt, heq⟩

/-- No number with 53 significant bits is nearer to a number than what this is rounded to. -/
theorem roundNat_nearest (n : Nat) {m : Nat} (hm : IsShort m) :
    Nat.dist n (roundNat n) ≤ Nat.dist n m := by
  by_cases hn : n < 2 * hiddenBit
  · rw [roundNat_of_lt hn, Nat.dist_self]
    exact Nat.zero_le _
  · obtain ⟨significand, exponent, rest, hlead⟩ := exists_leading (Nat.not_lt.mp hn)
    -- There is no candidate between the number without its rest and the next one.
    have heq := hlead.eq
    have hrest := hlead.rest_lt
    have hapart := hm.apart hlead
    rw [hlead.roundNat_eq]
    unfold Nat.dist
    rw [Nat.succ_mul] at hapart
    rcases hlead.roundRatio_cases with ⟨hround, hhalf⟩ | ⟨hround, hhalf⟩
    · rw [hround]
      omega
    · rw [hround, Nat.succ_mul]
      omega

/-- Where another number with 53 significant bits is as near, the significand is even. -/
theorem roundNat_tie {n m : Nat} (hm : IsShort m) (hne : m ≠ roundNat n)
    (hdist : Nat.dist n m = Nat.dist n (roundNat n)) :
    ∃ significand exponent, hiddenBit ≤ significand ∧ significand < 2 * hiddenBit ∧
      significand % 2 = 0 ∧ roundNat n = significand * 2 ^ exponent := by
  by_cases hn : n < 2 * hiddenBit
  · rw [roundNat_of_lt hn] at hne hdist
    rw [Nat.dist_self] at hdist
    exact absurd (Nat.eq_of_dist_eq_zero hdist).symm hne
  · obtain ⟨significand, exponent, rest, hlead⟩ := exists_leading (Nat.not_lt.mp hn)
    -- Two candidates are as near only where the rest is half a unit.
    have hhalf : 2 * rest = 2 ^ exponent := by
      have heq := hlead.eq
      have hrest := hlead.rest_lt
      have hapart := hm.apart hlead
      rw [hlead.roundNat_eq] at hne hdist
      unfold Nat.dist at hdist
      rw [Nat.succ_mul] at hapart
      rcases hlead.roundRatio_cases with ⟨hround, hhalf⟩ | ⟨hround, hhalf⟩
      · rw [hround] at hne hdist
        omega
      · rw [hround, Nat.succ_mul] at hne hdist
        omega
    have heven : roundRatio n (2 ^ exponent) % 2 = 0 := by
      rw [hlead.roundRatio_eq, if_neg (by omega), if_neg (by omega)]
      omega
    obtain ⟨hle, hlast⟩ := hlead.roundRatio_bounds
    obtain ⟨significand', exponent', hle', hlt, heven', heq⟩ := exists_normal hle hlast exponent
    exact ⟨significand', exponent', hle', hlt, heven' heven, hlead.roundNat_eq.trans heq⟩

/-! ## Bits behind a number -/

/-- Rounding commutes with shifting, because only the significant bits count. -/
theorem roundNat_mul_two_pow (n count : Nat) :
    roundNat (n * 2 ^ count) = roundNat n * 2 ^ count := by
  by_cases hn : n < 2 * hiddenBit
  · rw [roundNat_of_lt hn]
    exact roundNat_of_isShort ⟨n, count, hn, rfl⟩
  · obtain ⟨significand, exponent, rest, hlead⟩ := exists_leading (Nat.not_lt.mp hn)
    have hextended := hlead.extend (Nat.two_pow_pos count)
    rw [Nat.add_zero, Nat.add_zero] at hextended
    have hpos := Nat.two_pow_pos count
    rw [hextended.roundNat_eq, hlead.roundNat_eq, hextended.roundRatio_eq, hlead.roundRatio_eq]
    have hless : 2 * (rest * 2 ^ count) < 2 ^ (exponent + count) ↔ 2 * rest < 2 ^ exponent := by
      rw [Nat.pow_add, ← Nat.mul_assoc, Nat.mul_lt_mul_right hpos]
    have hmore : 2 ^ (exponent + count) < 2 * (rest * 2 ^ count) ↔ 2 ^ exponent < 2 * rest := by
      rw [Nat.pow_add, ← Nat.mul_assoc, Nat.mul_lt_mul_right hpos]
    simp only [hless, hmore]
    rw [Nat.pow_add, Nat.mul_assoc]

/-- A number half-way between two with 53 significant bits, the lower one of which is even. -/
def TiesDown (n : Nat) : Prop :=
  ∃ significand exponent, hiddenBit ≤ significand ∧ significand < 2 * hiddenBit ∧
    significand % 2 = 0 ∧ n = (2 * significand + 1) * 2 ^ exponent

theorem Leading.tiesDown_iff {n significand exponent rest : Nat}
    (h : Leading n significand exponent rest) :
    TiesDown n ↔ 2 * rest = 2 ^ exponent ∧ significand % 2 = 0 := by
  constructor
  · rintro ⟨significand', exponent', hle, hlt, heven, heq⟩
    have hlead : Leading n significand' (exponent' + 1) (2 ^ exponent') :=
      { eq := by rw [heq, Nat.pow_succ]; ring
        rest_lt := Nat.pow_lt_pow_right (by decide) (Nat.lt_succ_self _)
        le := hle
        lt := hlt
        pos := Nat.succ_pos _ }
    obtain ⟨rfl, rfl, rfl⟩ := hlead.unique h
    exact ⟨by rw [Nat.pow_succ, Nat.mul_comm], heven⟩
  · rintro ⟨hhalf, heven⟩
    obtain ⟨exponent', rfl⟩ := Nat.exists_eq_add_one.mpr h.pos
    obtain rfl : rest = 2 ^ exponent' := by
      rw [Nat.pow_succ] at hhalf
      omega
    refine ⟨significand, exponent', h.le, h.lt, heven, ?_⟩
    rw [h.eq, Nat.pow_succ]
    ring

/-- Bits behind a number of more than 53 bits matter only if this is a tie and would be rounded
down. -/
theorem roundNat_extend_iff {n count more : Nat} (hn : 2 * hiddenBit ≤ n)
    (hmore : more < 2 ^ count) :
    roundNat (n * 2 ^ count + more) = roundNat (n * 2 ^ count) ↔ ¬(TiesDown n ∧ more ≠ 0) := by
  obtain ⟨significand, exponent, rest, hlead⟩ := exists_leading hn
  have hexact := hlead.extend (Nat.two_pow_pos count)
  have hextended := hlead.extend hmore
  rw [Nat.add_zero, Nat.add_zero] at hexact
  rw [hexact.roundNat_eq, hextended.roundNat_eq, Nat.mul_left_inj (Nat.two_pow_pos _).ne',
    hexact.roundRatio_eq, hextended.roundRatio_eq, hlead.tiesDown_iff]
  obtain ⟨exponent, rfl⟩ := Nat.exists_eq_add_one.mpr hlead.pos
  -- The rest is compared with half a unit, both followed by as many bits.
  have hhalf : 2 ^ (exponent + 1 + count) = 2 * (2 ^ exponent * 2 ^ count) := by ring
  rw [hhalf, Nat.pow_succ, Nat.mul_comm _ 2]
  generalize 2 ^ exponent = half
  generalize 2 ^ count = scale at *
  rcases Nat.lt_trichotomy rest half with hless | rfl | hgreater
  · have hmul := Nat.mul_le_mul_right scale (Nat.succ_le_of_lt hless)
    rw [Nat.succ_mul] at hmul
    rw [if_pos (by omega), if_pos (by omega)]
    simp only [true_iff]
    omega
  · have hirrefl : ¬2 * (rest * scale) < 2 * (rest * scale) := Nat.lt_irrefl _
    rw [if_neg (by omega), if_neg hirrefl, if_neg hirrefl]
    split <;> omega
  · have hmul := Nat.mul_le_mul_right scale (Nat.succ_le_of_lt hgreater)
    rw [Nat.succ_mul] at hmul
    rw [if_neg (by omega), if_pos (by omega), if_neg (by omega), if_pos (by omega)]
    simp only [true_iff]
    omega

/-- A tie whose lower neighbour is even is rounded down. -/
theorem TiesDown.roundNat_le {n : Nat} (h : TiesDown n) (hn : 2 * hiddenBit ≤ n) :
    roundNat n ≤ n := by
  obtain ⟨significand, exponent, rest, hlead⟩ := exists_leading hn
  obtain ⟨hhalf, heven⟩ := hlead.tiesDown_iff.mp h
  rw [hlead.roundNat_eq, hlead.roundRatio_eq, if_neg (by omega), if_neg (by omega), heven,
    Nat.add_zero]
  rw [hlead.eq]
  exact Nat.le_add_right ..

/-- Bits behind 53 significant ones that have others behind them do not matter. -/
theorem IsShort.roundNat_extend {n count more : Nat} (h : IsShort n) (hn : 2 * hiddenBit ≤ n)
    (hmore : more < 2 ^ count) : roundNat (n * 2 ^ count + more) = n * 2 ^ count := by
  have hties : ¬TiesDown n := by
    obtain ⟨significand, exponent, rest, hlead⟩ := exists_leading hn
    obtain rfl := h.rest_eq_zero hlead
    have hpos := Nat.two_pow_pos exponent
    rw [hlead.tiesDown_iff]
    omega
  have hextend := (roundNat_extend_iff hn hmore).mpr fun hboth => hties hboth.1
  rw [hextend, roundNat_mul_two_pow, roundNat_of_isShort h]

end ReactiveTemplate
