import ReactiveTemplate.Proofs.Number.Rounding
import ReactiveTemplate.Token.Literal

/-!
# Doubles of natural numbers

The double of a natural number stands for the number rounded to 53 bits, or for infinity where this
is out of range. So two naturals have the same double if they are rounded to the same number, and
otherwise only if both are too large.
-/

namespace ReactiveTemplate

theorem lt_shiftLeft_iff {n : Nat} (hn : n ≠ 0) (count : Nat) :
    n < 1 <<< count ↔ n.log2 < count := by
  rw [Nat.one_shiftLeft, Nat.log2_lt hn]

theorem Leading.ne_zero {n significand exponent rest : Nat}
    (h : Leading n significand exponent rest) : n ≠ 0 := by
  have hpositive := hiddenBit_pos
  have hlong := h.long
  omega

/-- A long number is in range if it has 1024 bits at most. -/
theorem Leading.lt_numberBound_iff {n significand exponent rest : Nat}
    (h : Leading n significand exponent rest) : n < numberBound ↔ exponent + 53 ≤ 1024 := by
  rw [numberBound, lt_shiftLeft_iff h.ne_zero, h.log2_eq]
  omega

/-- Bits behind a long number do not take it out of the range. -/
theorem extend_lt_numberBound_iff {n count more : Nat} (hn : 2 * hiddenBit ≤ n)
    (hmore : more < 2 ^ count) :
    n * 2 ^ count + more < numberBound ↔ n * 2 ^ count < numberBound := by
  obtain ⟨significand, exponent, rest, hlead⟩ := exists_leading hn
  have hexact := hlead.extend (Nat.two_pow_pos count)
  rw [Nat.add_zero] at hexact
  rw [(hlead.extend hmore).lt_numberBound_iff, hexact.lt_numberBound_iff]

/-- A number beyond the bound has more than 53 bits, and so it has leading ones and others behind
them. -/
theorem exists_leading_of_numberBound_le {n : Nat} (hn : numberBound ≤ n) :
    ∃ significand exponent rest, Leading n significand exponent rest := by
  have hlong : 2 * hiddenBit ≤ numberBound := by decide
  exact exists_leading (hlong.trans hn)

/-- A number that is out of range is not rounded back into it. -/
theorem numberBound_le_roundNat {n : Nat} (hn : numberBound ≤ n) : numberBound ≤ roundNat n := by
  obtain ⟨significand, exponent, rest, hlead⟩ := exists_leading_of_numberBound_le hn
  refine le_trans ?_ hlead.le_roundNat
  rw [← Nat.not_lt, hlead.exact.lt_numberBound_iff, ← hlead.lt_numberBound_iff, Nat.not_lt]
  exact hn

namespace Binary64

/-! ## Bits -/

/-- The double with the given bits, or infinity from its bits on. -/
def capped (bits : Nat) : Binary64 :=
  if bits < infinityBits then ⟨bits.toUInt64⟩ else infinity

theorem log2Ratio_one {n : Nat} (hn : n ≠ 0) : log2Ratio n 1 = n.log2 := by
  have hone : Nat.log2 1 = 0 := rfl
  have hlow : 1 <<< n.log2 ≤ n := by
    rw [Nat.one_shiftLeft]
    exact Nat.log2_self_le hn
  rw [log2Ratio, hone]
  simpa using hlow

/-- The double for a natural number, without the branches for numbers below one: an exponent by its
length and a rounded significand. -/
theorem ofNat_eq {n : Nat} (hn : n ≠ 0) :
    ofNat n = capped ((n.log2 + 1022) * hiddenBit +
      roundRatio (n * 2 ^ (52 - n.log2)) (2 ^ (n.log2 - 52))) := by
  have hexponent : max ((n.log2 : Int) - 52) (-1074) = (n.log2 : Int) - 52 := by omega
  have hfield : ((n.log2 : Int) - 52 + 1074).toNat = n.log2 + 1022 := by omega
  have hdown : (-((n.log2 : Int) - 52)).toNat = 52 - n.log2 := by omega
  have hup : ((n.log2 : Int) - 52).toNat = n.log2 - 52 := by omega
  rw [ofNat, ofRatio, if_neg hn, log2Ratio_one hn, hexponent]
  dsimp only
  rw [hfield, hdown, hup, Nat.shiftLeft_eq, Nat.one_shiftLeft]
  rfl

theorem ofNat_of_leading {n significand exponent rest : Nat}
    (h : Leading n significand exponent rest) :
    ofNat n = capped ((exponent + 1074) * hiddenBit + roundRatio n (2 ^ exponent)) := by
  rw [ofNat_eq h.ne_zero, h.log2_eq, Nat.add_sub_cancel, Nat.add_assoc,
    Nat.sub_eq_zero_of_le (by omega), Nat.pow_zero, Nat.mul_one]

/-- The double of a number is that of the number rounded. -/
theorem ofNat_roundNat (n : Nat) : ofNat (roundNat n) = ofNat n := by
  by_cases hn : n < 2 * hiddenBit
  · rw [roundNat_of_lt hn]
  · obtain ⟨significand, exponent, rest, hlead⟩ := exists_leading (Nat.not_lt.mp hn)
    obtain ⟨hle, hlast⟩ := hlead.roundRatio_bounds
    rw [ofNat_of_leading hlead, hlead.roundNat_eq]
    generalize roundRatio n (2 ^ exponent) = rounded at *
    by_cases hlt : rounded < 2 * hiddenBit
    · have hlead' : Leading (rounded * 2 ^ exponent) rounded exponent 0 :=
        ⟨rfl, Nat.two_pow_pos exponent, hle, hlt, hlead.pos⟩
      rw [ofNat_of_leading hlead', hlead'.roundRatio_eq_of_exact]
    · -- The significand is carried into the exponent.
      obtain rfl : rounded = 2 * hiddenBit := by omega
      have hlead' : Leading (2 * hiddenBit * 2 ^ exponent) hiddenBit (exponent + 1) 0 :=
        { eq := by rw [Nat.pow_succ, Nat.add_zero]; ring
          rest_lt := Nat.two_pow_pos _
          le := Nat.le_refl _
          lt := by decide
          pos := Nat.succ_pos _ }
      rw [ofNat_of_leading hlead', hlead'.roundRatio_eq_of_exact]
      refine congrArg capped ?_
      ring

/-! ## Values -/

/-- Whether something stands for a natural number. -/
def Meaning.Is (n : Nat) : Meaning → Prop
  | finite negative significand exponent =>
      negative = false ∧ significand * 2 ^ exponent.toNat = n * 2 ^ (-exponent).toNat
  | infinite _ | notANumber => False

/-- A double stands for at most one natural number, so that equal doubles stand for equal
numbers. -/
theorem Meaning.Is.unique {m : Meaning} {n n' : Nat} (h : m.Is n) (h' : m.Is n') : n = n' := by
  cases m with
  | finite negative significand exponent =>
      exact Nat.eq_of_mul_eq_mul_right (Nat.two_pow_pos _) (h.2.symm.trans h'.2)
  | infinite | notANumber => contradiction

theorem meaning_capped {exponent significand : Nat} (hle : hiddenBit ≤ significand)
    (hlt : significand < 2 * hiddenBit)
    (hbound : exponent * hiddenBit + significand < infinityBits) :
    (capped (exponent * hiddenBit + significand)).meaning =
      .finite false significand ((exponent : Int) - 1074) := by
  obtain ⟨fraction, rfl⟩ := Nat.exists_eq_add_of_le hle
  have hfraction : fraction < hiddenBit := by omega
  -- The leading bit, which is not stored, counts as one in the field of the exponent.
  have hbits : exponent * hiddenBit + (hiddenBit + fraction) =
      (exponent + 1) * hiddenBit + fraction := by ring
  have hexponent : exponent + 1 < 0x7FF := by
    by_contra hgt
    have hmul := Nat.mul_le_mul_right hiddenBit (Nat.not_lt.mp hgt)
    rw [infinityBits] at hbound
    omega
  have hsize : (exponent + 1) * hiddenBit + fraction < 2 ^ 64 := by
    rw [← hbits]
    exact hbound.trans (by decide)
  obtain ⟨hdiv, hmod⟩ := (Nat.div_mod_unique hiddenBit_pos).mpr
    ⟨show fraction + hiddenBit * (exponent + 1) = (exponent + 1) * hiddenBit + fraction by ring,
      hfraction⟩
  have hsign : ¬0x800 * hiddenBit ≤ (exponent + 1) * hiddenBit + fraction := by
    rw [Nat.not_le, ← hbits]
    exact hbound.trans (by decide)
  rw [capped, if_pos hbound, hbits, meaning]
  dsimp only
  rw [Nat.toUInt64_eq, UInt64.toNat_ofNat_of_lt' hsize, hdiv, hmod,
    Nat.mod_eq_of_lt (by omega), if_neg (by omega), if_neg (by omega), decide_eq_false hsign]
  congr 1
  omega

/-- The bits of a long number are those of a finite number exactly if it is in range. -/
theorem bits_lt_iff {n significand exponent : Nat} (h : Leading n significand exponent 0) :
    (exponent + 1074) * hiddenBit + significand < infinityBits ↔ n < numberBound := by
  have hle := h.le
  have hlt := h.lt
  rw [h.lt_numberBound_iff, infinityBits]
  constructor
  · intro hbits
    by_contra hgt
    have hmul := Nat.mul_le_mul_right hiddenBit (show 0x7FF ≤ exponent + 1075 by omega)
    rw [show (exponent + 1075) * hiddenBit = (exponent + 1074) * hiddenBit + hiddenBit by ring]
      at hmul
    omega
  · intro hexponent
    have hmul := Nat.mul_le_mul_right hiddenBit (show exponent + 1076 ≤ 0x7FF by omega)
    rw [show (exponent + 1076) * hiddenBit = (exponent + 1074) * hiddenBit + 2 * hiddenBit by ring]
      at hmul
    omega

/-- A number with zeros only behind its leading bits is represented exactly, as long as it is in
range. -/
theorem meaning_ofNat_of_leading {n significand exponent : Nat}
    (h : Leading n significand exponent 0) (hn : n < numberBound) : (ofNat n).meaning.Is n := by
  rw [ofNat_of_leading h, h.roundRatio_eq_of_exact,
    meaning_capped h.le h.lt ((bits_lt_iff h).mpr hn)]
  have hup : (((exponent + 1074 : Nat) : Int) - 1074).toNat = exponent := by omega
  have hdown : (-(((exponent + 1074 : Nat) : Int) - 1074)).toNat = 0 := by omega
  refine ⟨rfl, ?_⟩
  rw [hup, hdown, h.eq, Nat.add_zero, Nat.pow_zero, Nat.mul_one]

/-- The bits of a short number are moved up to the place of a significand. -/
theorem meaning_ofNat_of_lt {n : Nat} (hzero : n ≠ 0) (hn : n < 2 * hiddenBit) :
    (ofNat n).meaning.Is n := by
  obtain ⟨hlow, hhigh⟩ := (Nat.log2_eq_iff hzero).mp rfl
  have hlog : n.log2 ≤ 52 := Nat.le_of_lt_succ ((Nat.log2_lt hzero).mpr hn)
  obtain ⟨more, hmore⟩ := Nat.exists_eq_add_of_le hlog
  have hle : hiddenBit ≤ n * 2 ^ more := by
    rw [hiddenBit_eq, hmore, Nat.pow_add]
    exact Nat.mul_le_mul_right _ hlow
  have hlt : n * 2 ^ more < 2 * hiddenBit := by
    have hmul := Nat.mul_lt_mul_of_pos_right hhigh (Nat.two_pow_pos more)
    rwa [← Nat.pow_add, Nat.add_right_comm, ← hmore] at hmul
  have hbits : (n.log2 + 1022) * hiddenBit + n * 2 ^ more < infinityBits := by
    have hmul := Nat.mul_le_mul_right hiddenBit (show n.log2 + 1022 ≤ 1074 by omega)
    rw [infinityBits]
    omega
  have hround : roundRatio (n * 2 ^ (52 - n.log2)) (2 ^ (n.log2 - 52)) = n * 2 ^ more := by
    rw [Nat.sub_eq_zero_of_le hlog, Nat.pow_zero, roundRatio_one, show 52 - n.log2 = more by omega]
  have hup : (((n.log2 + 1022 : Nat) : Int) - 1074).toNat = 0 := by omega
  have hdown : (-(((n.log2 + 1022 : Nat) : Int) - 1074)).toNat = more := by omega
  rw [ofNat_eq hzero, hround, meaning_capped hle hlt hbits]
  refine ⟨rfl, ?_⟩
  rw [hup, hdown, Nat.pow_zero, Nat.mul_one]

/-- The double of a number that is not rounded out of the range stands for the number rounded. -/
theorem meaning_ofNat {n : Nat} (hn : roundNat n < numberBound) :
    (ofNat n).meaning.Is (roundNat n) := by
  rw [← ofNat_roundNat]
  have hshort := isShort_roundNat n
  generalize roundNat n = m at *
  by_cases hm : m < 2 * hiddenBit
  · by_cases hzero : m = 0
    · subst hzero
      refine ⟨rfl, ?_⟩
      rw [Nat.zero_mul]
      exact Nat.zero_mul _
    · exact meaning_ofNat_of_lt hzero hm
  · obtain ⟨significand, exponent, rest, hlead⟩ := exists_leading (Nat.not_lt.mp hm)
    obtain rfl := hshort.rest_eq_zero hlead
    exact meaning_ofNat_of_leading hlead hn

/-- What rounds to the bound or beyond has infinity for its double, just like numbers that are far
too large. -/
theorem ofNat_eq_infinity {n : Nat} (hn : numberBound ≤ roundNat n) : ofNat n = infinity := by
  rw [← ofNat_roundNat]
  have hshort := isShort_roundNat n
  generalize roundNat n = m at *
  obtain ⟨significand, exponent, rest, hlead⟩ := exists_leading_of_numberBound_le hn
  obtain rfl := hshort.rest_eq_zero hlead
  rw [ofNat_of_leading hlead, hlead.roundRatio_eq_of_exact, capped, if_neg]
  rw [bits_lt_iff hlead]
  exact Nat.not_lt.mpr hn

/-- Two naturals have the same double if they are rounded to the same number, or to two that are out
of range. -/
theorem ofNat_eq_iff {n n' : Nat} :
    ofNat n = ofNat n' ↔
      roundNat n = roundNat n' ∨ numberBound ≤ roundNat n ∧ numberBound ≤ roundNat n' := by
  -- Infinity stands for no number, so it tells what is in range from what is not.
  have hinfinite (m : Nat) : ¬infinity.meaning.Is m := id
  constructor
  · intro heq
    by_cases hn : roundNat n < numberBound
    · have hmeaning := meaning_ofNat hn
      by_cases hn' : roundNat n' < numberBound
      · rw [heq] at hmeaning
        exact .inl (hmeaning.unique (meaning_ofNat hn'))
      · rw [heq, ofNat_eq_infinity (Nat.not_lt.mp hn')] at hmeaning
        exact absurd hmeaning (hinfinite _)
    · by_cases hn' : roundNat n' < numberBound
      · have hmeaning := meaning_ofNat hn'
        rw [← heq, ofNat_eq_infinity (Nat.not_lt.mp hn)] at hmeaning
        exact absurd hmeaning (hinfinite _)
      · exact .inr ⟨Nat.not_lt.mp hn, Nat.not_lt.mp hn'⟩
  · rintro (heq | ⟨hn, hn'⟩)
    · rw [← ofNat_roundNat, heq, ofNat_roundNat]
    · rw [ofNat_eq_infinity hn, ofNat_eq_infinity hn']

end Binary64

end ReactiveTemplate
