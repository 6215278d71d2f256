import Mathlib
/-!
# Float64 — what 64-bit floats keep

A float is worked on unpacked and packed again.  Packing makes no number one that is not, so that a sum and a quotient are numbers
where the standard says so.  The numbers are in the order of their ranks, the two zeros being one.  Adding one to one over and over
gets to 2^53 and stays there: what is counted is never infinite.
-/
namespace Float64

open Float.Model Float.Model.UnpackedFloat

/-! ## What is a number -/

variable {spec : Format}

theorem isNaN_unpack (b : BitVec spec.numBits) :
    (UnpackedFloat.unpack spec b).isNaN = (decide (unpackExponent b = -1#_) && !decide (unpackMantissa b = 0#_)) := by
  unfold UnpackedFloat.unpack
  dsimp only
  by_cases hexp : unpackExponent b = -1#_
  · rw [if_pos hexp, decide_eq_true hexp, Bool.true_and]
    by_cases hmant : unpackMantissa b = 0#_
    · rw [if_pos hmant, decide_eq_true hmant]
      rfl
    · rw [if_neg hmant, decide_eq_false hmant]
      rfl
  · rw [if_neg hexp, decide_eq_false hexp, Bool.false_and]
    by_cases hzero : unpackExponent b = 0#_
    · rw [if_pos hzero]
      split <;> rfl
    · rw [if_neg hzero]
      rfl

theorem isNaN_pack (u : UnpackedFloat) : (Float.Model.pack u).isNaN = u.isNaN := by
  change (UnpackedFloat.unpack Format.binary64 (UnpackedFloat.pack Format.binary64 u)).isNaN = u.isNaN
  rw [isNaN_unpack]
  fun_cases UnpackedFloat.pack Format.binary64 u with
  | case1 => decide
  | case2 s => cases s <;> decide
  | case3 s => cases s <;> decide
  | case4 s m e hm biasedExponent h => simp [packedInfinity, UnpackedFloat.isNaN]
  | case5 s m e hm actualMantissaBits biasedExponent h₁ h₂ =>
    have hexp : BitVec.ofNat Format.binary64.exponentBits biasedExponent ≠ -1#_ := by
      intro heq
      have := congrArg BitVec.toNat heq
      simp at this h₁
      omega
    rw [unpackExponent_packComponents, decide_eq_false hexp]
    rfl
  | case6 s m e hm actualMantissaBits biasedExponent h₁ h₂ =>
    rw [unpackExponent_packComponents]
    rfl

theorem isNaN_roundWithAccuracy (spec : Format) (s : Sign) (m : Nat) (e : Int) (acc : Accuracy) :
    (roundWithAccuracy spec s m e acc).isNaN = false := by
  unfold roundWithAccuracy
  dsimp only
  split <;> rfl

theorem isNaN_normalize (spec : Format) (m e : Int) (s : Sign) : (normalize spec m e s).isNaN = false := by
  unfold UnpackedFloat.normalize
  split
  · exact isNaN_roundWithAccuracy _ _ _ _ _
  · rfl
  · exact isNaN_roundWithAccuracy _ _ _ _ _

variable {a b : Float}

theorem isNaN_add (ha : a.isNaN = false) (hb : b.isFinite = true) : (a + b).isNaN = false := by
  change (Float.Model.pack (UnpackedFloat.add Format.binary64 a.toModel.unpack b.toModel.unpack)).isNaN = false
  rw [isNaN_pack]
  change a.toModel.unpack.isNaN = false at ha
  change b.toModel.unpack.isFinite = true at hb
  cases hx : a.toModel.unpack with
  | notANumber =>
    rw [hx] at ha
    nomatch ha
  | infinity s =>
    cases hy : b.toModel.unpack with
    | notANumber | infinity =>
      rw [hy] at hb
      nomatch hb
    | zero | finite => rfl
  | zero s =>
    cases hy : b.toModel.unpack with
    | notANumber | infinity =>
      rw [hy] at hb
      nomatch hb
    | zero s' => cases s <;> cases s' <;> rfl
    | finite => rfl
  | finite s m e hm =>
    cases hy : b.toModel.unpack with
    | notANumber | infinity =>
      rw [hy] at hb
      nomatch hb
    | zero => rfl
    | finite => exact isNaN_normalize _ _ _ _

theorem isFinite_iff (a : Float) : a.isFinite = true ↔ a.isNaN = false ∧ a.isInf = false := by
  change a.toModel.unpack.isFinite = true ↔ a.toModel.unpack.isNaN = false ∧ a.toModel.unpack.isInf = false
  cases a.toModel.unpack <;> simp [UnpackedFloat.isFinite, UnpackedFloat.isNaN, UnpackedFloat.isInf]

variable {m : Nat} {e : Int}

theorem isNaN_div {s : Sign} {hm : 0 < m} (ha : a.isNaN = false)
    (hb : b.toModel.unpack = .finite s m e hm) : (a / b).isNaN = false := by
  change (Float.Model.pack (UnpackedFloat.div Format.binary64 a.toModel.unpack b.toModel.unpack)).isNaN = false
  rw [isNaN_pack, hb]
  change a.toModel.unpack.isNaN = false at ha
  cases hx : a.toModel.unpack with
  | notANumber =>
    rw [hx] at ha
    nomatch ha
  | infinity => rfl
  | zero => rfl
  | finite => exact isNaN_roundWithAccuracy _ _ _ _ _

/-! ## The order of the numbers -/

/-- By the sign, and then by the exponent and the mantissa. -/
def rank : UnpackedFloat → Int ×ₗ Int ×ₗ Int
  | .infinity .negative => toLex (-2, toLex (0, 0))
  | .finite .negative m e _ => toLex (-1, toLex (-e, -m))
  | .zero _ => toLex (0, toLex (0, 0))
  | .finite .positive m e _ => toLex (1, toLex (e, m))
  | .infinity .positive => toLex (2, toLex (0, 0))
  | .notANumber => toLex (3, toLex (0, 0))

theorem compare_toLex {α β : Type} [LinearOrder α] [LinearOrder β] (a a' : α) (b b' : β) :
    compare (toLex (a, b)) (toLex (a', b')) = (compare a a').then (compare b b') := by
  rw [Prod.Lex.compare_def]
  rfl

theorem compare_natCast (m m' : Nat) : compare (m : Int) (m' : Int) = compare m m' := by
  rcases lt_trichotomy m m' with h | h | h
  · rw [compare_lt_iff_lt.2 h, compare_lt_iff_lt.2 (Int.ofNat_lt.2 h)]
  · rw [h, compare_eq_iff_eq.2 rfl, compare_eq_iff_eq.2 rfl]
  · rw [compare_gt_iff_gt.2 h, compare_gt_iff_gt.2 (Int.ofNat_lt.2 h)]

theorem compare_neg (m m' : Int) : compare (-m) (-m') = (compare m m').swap := by
  rcases lt_trichotomy m m' with h | h | h
  · rw [compare_lt_iff_lt.2 h, compare_gt_iff_gt.2 (Int.neg_lt_neg h)]
    rfl
  · rw [h, compare_eq_iff_eq.2 rfl, compare_eq_iff_eq.2 rfl]
    rfl
  · rw [compare_gt_iff_gt.2 h, compare_lt_iff_lt.2 (Int.neg_lt_neg h)]
    rfl

theorem compare_eq_rank : ∀ {x y : UnpackedFloat}, x.isNaN = false → y.isNaN = false →
    x.compare y = some (compare (rank x) (rank y))
  | .notANumber, _, hx, _ => nomatch hx
  | _, .notANumber, _, hy => nomatch hy
  | .infinity s, .infinity s', _, _ => by cases s <;> cases s' <;> rfl
  | .infinity s, .zero _, _, _ => by cases s <;> rfl
  | .infinity s, .finite s' .., _, _ => by cases s <;> cases s' <;> rfl
  | .zero _, .infinity s, _, _ => by cases s <;> rfl
  | .zero _, .zero _, _, _ => rfl
  | .zero _, .finite s .., _, _ => by cases s <;> rfl
  | .finite s .., .infinity s', _, _ => by cases s <;> cases s' <;> rfl
  | .finite s .., .zero _, _, _ => by cases s <;> rfl
  | .finite .negative .., .finite .positive .., _, _ => rfl
  | .finite .positive .., .finite .negative .., _, _ => rfl
  | .finite .positive m e _, .finite .positive m' e' _, _, _ => by
    rw [rank, rank, compare_toLex, compare_toLex, compare_natCast, compare_eq_iff_eq.2 rfl]
    rfl
  | .finite .negative m e _, .finite .negative m' e' _, _, _ => by
    rw [rank, rank, compare_toLex, compare_toLex, compare_neg e, compare_neg m, compare_natCast, compare_eq_iff_eq.2 rfl, ← Ordering.swap_then]
    rfl

theorem lt_iff (ha : a.isNaN = false) (hb : b.isNaN = false) : a < b ↔ rank a.toModel.unpack < rank b.toModel.unpack := by
  change decide ((a.toModel.unpack.compare b.toModel.unpack == some .lt) = true) = true ↔ _
  rw [decide_eq_true_eq, compare_eq_rank ha hb, beq_iff_eq, Option.some_inj, compare_lt_iff_lt]

theorem le_iff (ha : a.isNaN = false) (hb : b.isNaN = false) : a ≤ b ↔ rank a.toModel.unpack ≤ rank b.toModel.unpack := by
  change decide ((a.toModel.unpack.compare b.toModel.unpack).any (·.isLE) = true) = true ↔ _
  rw [decide_eq_true_eq, compare_eq_rank ha hb, Option.any_some, Ordering.isLE_iff_ne_gt, compare_gt_iff_gt, not_lt]

theorem beq_iff (ha : a.isNaN = false) (hb : b.isNaN = false) : a == b ↔ rank a.toModel.unpack = rank b.toModel.unpack := by
  change (a.toModel.unpack.compare b.toModel.unpack == some .eq) = true ↔ _
  rw [compare_eq_rank ha hb, beq_iff_eq, Option.some_inj, compare_eq_iff_eq]

theorem numbers_of_compare {x y : UnpackedFloat} (h : x.compare y ≠ none) : x.isNaN = false ∧ y.isNaN = false := by
  cases x with
  | notANumber => exact absurd rfl h
  | infinity s =>
    cases y with
    | notANumber => exact absurd rfl h
    | infinity | zero | finite => exact ⟨rfl, rfl⟩
  | zero s =>
    cases y with
    | notANumber => exact absurd rfl h
    | infinity | zero | finite => exact ⟨rfl, rfl⟩
  | finite s m e hm =>
    cases y with
    | notANumber => exact absurd rfl h
    | infinity | zero | finite => exact ⟨rfl, rfl⟩

def key (a : Float) : Int ×ₗ Int ×ₗ Int := rank a.toModel.unpack

theorem lt_iff_key : a < b ↔ (a.isNaN = false ∧ b.isNaN = false) ∧ key a < key b := by
  refine ⟨fun h => ?_, fun h => (lt_iff h.1.1 h.1.2).2 h.2⟩
  have hnum : a.isNaN = false ∧ b.isNaN = false := by
    change decide ((a.toModel.unpack.compare b.toModel.unpack == some .lt) = true) = true at h
    refine numbers_of_compare fun hnone => ?_
    rw [hnone] at h
    exact absurd h (by decide)
  exact ⟨hnum, (lt_iff hnum.1 hnum.2).1 h⟩

theorem le_iff_key : a ≤ b ↔ (a.isNaN = false ∧ b.isNaN = false) ∧ key a ≤ key b := by
  refine ⟨fun h => ?_, fun h => (le_iff h.1.1 h.1.2).2 h.2⟩
  have hnum : a.isNaN = false ∧ b.isNaN = false := by
    change decide ((a.toModel.unpack.compare b.toModel.unpack).any (·.isLE) = true) = true at h
    refine numbers_of_compare fun hnone => ?_
    rw [hnone] at h
    exact absurd h (by decide)
  exact ⟨hnum, (le_iff hnum.1 hnum.2).1 h⟩

theorem beq_iff_key : (a == b) = true ↔ (a.isNaN = false ∧ b.isNaN = false) ∧ key a = key b := by
  refine ⟨fun h => ?_, fun h => (beq_iff h.1.1 h.1.2).2 h.2⟩
  have hnum : a.isNaN = false ∧ b.isNaN = false := by
    change (a.toModel.unpack.compare b.toModel.unpack == some .eq) = true at h
    refine numbers_of_compare fun hnone => ?_
    rw [hnone] at h
    exact absurd h (by decide)
  exact ⟨hnum, (beq_iff hnum.1 hnum.2).1 h⟩

/-! ## Rounding -/

theorem mantissa_shiftRight (em : ExtendedMantissa) (k : Nat) : (em >>> k).mantissa = em.mantissa / 2 ^ k := by
  change (k.repeat ExtendedMantissa.shiftRightOne em).mantissa = _
  induction k with
  | zero => exact (Nat.div_one _).symm
  | succ k ih =>
    change (k.repeat ExtendedMantissa.shiftRightOne em).mantissa / 2 = _
    rw [ih, Nat.div_div_eq_div_mul, Nat.pow_succ]

theorem roundedMantissa_le (em : ExtendedMantissa) : em.mantissa ≤ em.roundedMantissa ∧ em.roundedMantissa ≤ em.mantissa + 1 := by
  obtain ⟨m, r, s⟩ := em
  cases r <;> cases s <;> simp [ExtendedMantissa.roundedMantissa, ExtendedMantissa.accuracy, Accuracy.roundToNearestEven]
  omega

theorem targetExponent_eq (m : Nat) (e : Int) : Format.binary64.targetExponent (totalExponent m e) = max (m.log2 + e - 52) (-1074) := by
  simp only [Format.targetExponent, totalExponent, Format.mantissaBits, Format.minExponent]
  omega

theorem shift_first {k : Nat} (hlog : m.log2 = 52 + k) (he : -1074 ≤ e + k) :
    ∃ em, shiftToTargetExponent Format.binary64 m e .exact = (em, e + k) ∧ em.mantissa = m / 2 ^ k := by
  have hamount : (Format.binary64.targetExponent (totalExponent m e) - e).toNat = k := by
    rw [targetExponent_eq]
    omega
  unfold shiftToTargetExponent shiftToExponent
  dsimp only
  rw [hamount]
  exact ⟨_, rfl, mantissa_shiftRight _ _⟩

theorem shift_second {r : Nat} (he : -1074 ≤ e) (hlo : 2 ^ 52 ≤ r) (hhi : r ≤ 2 ^ 53) :
    ∃ em e', shiftToTargetExponent Format.binary64 r e .exact = (em, e') ∧
      (em.mantissa = r ∧ e' = e ∧ r < 2 ^ 53 ∨ em.mantissa = 2 ^ 52 ∧ e' = e + 1 ∧ r = 2 ^ 53) := by
  have hlog : r.log2 = 52 ∧ r < 2 ^ 53 ∨ r = 2 ^ 53 := by
    rcases Nat.lt_or_ge r (2 ^ 53) with hlt | hge
    · have hge52 := (Nat.le_log2 (by omega)).2 hlo
      have hlt53 := (Nat.log2_lt (by omega)).2 hlt
      exact Or.inl ⟨by omega, hlt⟩
    · exact Or.inr (Nat.le_antisymm hhi hge)
  unfold shiftToTargetExponent shiftToExponent
  dsimp only
  refine ⟨_, _, rfl, ?_⟩
  rw [mantissa_shiftRight, targetExponent_eq]
  rcases hlog with ⟨hlog, hlt⟩ | rfl
  · have hamount : (max ((r.log2 : Int) + e - 52) (-1074) - e).toNat = 0 := by
      rw [hlog]
      omega
    rw [hamount]
    exact Or.inl ⟨Nat.div_one _, by omega, hlt⟩
  · have hlog : (2 ^ 53).log2 = 53 := by decide
    have hamount : (max (((2 ^ 53).log2 : Int) + e - 52) (-1074) - e).toNat = 1 := by
      rw [hlog]
      omega
    rw [hamount]
    exact Or.inr ⟨by decide, by omega, rfl⟩

/-- A mantissa of more than 52 bits is rounded down or up to 53, and the exponent taken with it. -/
theorem round_normal {k : Nat} (s : Sign) (hlog : m.log2 = 52 + k) (he : -1074 ≤ e + k) :
    2 ^ 52 ≤ m / 2 ^ k ∧ ∃ r m' e' hm', roundWithAccuracy Format.binary64 s m e .exact = .finite s m' e' hm' ∧
      m / 2 ^ k ≤ r ∧ r ≤ m / 2 ^ k + 1 ∧ (m' = r ∧ e' = e + k ∧ r < 2 ^ 53 ∨ m' = 2 ^ 52 ∧ e' = e + k + 1 ∧ r = 2 ^ 53) := by
  have hm : m ≠ 0 := by
    rintro rfl
    rw [Nat.log2_zero] at hlog
    omega
  have hpow : 2 ^ m.log2 ≤ m := Nat.log2_self_le hm
  have hpow' : m < 2 ^ (m.log2 + 1) := Nat.lt_log2_self
  have hfloor : 2 ^ 52 ≤ m / 2 ^ k := by
    rw [Nat.le_div_iff_mul_le (Nat.two_pow_pos k), ← Nat.pow_add, ← hlog]
    exact hpow
  have hfloor' : m / 2 ^ k < 2 ^ 53 := by
    rw [Nat.div_lt_iff_lt_mul (Nat.two_pow_pos k), ← Nat.pow_add]
    have heq : 53 + k = m.log2 + 1 := by omega
    rw [heq]
    exact hpow'
  obtain ⟨em, hfirst, hem⟩ := shift_first hlog he
  obtain ⟨hround, hround'⟩ := roundedMantissa_le em
  rw [hem] at hround hround'
  obtain ⟨em', e', hsecond, hem'⟩ := shift_second he (hfloor.trans hround) (by omega)
  have hne : em'.mantissa ≠ 0 := by omega
  refine ⟨hfloor, em.roundedMantissa, em'.mantissa, e', Nat.pos_of_ne_zero hne, ?_, hround, hround', hem'⟩
  unfold roundWithAccuracy
  rw [hfirst]
  dsimp only
  rw [hsecond]
  dsimp only
  rw [dif_neg hne]

theorem unpackSign_packComponents (s : Sign) (exponent : BitVec spec.exponentBits)
    (mantissa : BitVec spec.mantissaBitsWithoutImplicit) : unpackSign (packComponents spec s exponent mantissa) = s.toBitVec := by
  ext i hi
  have hzero : i = 0 := Nat.lt_one_iff.1 hi
  simp [unpackSign, packComponents, BitVec.getLsbD_append, BitVec.getElem_append, hzero]

theorem finite_congr {s : Sign} {m' : Nat} {e' : Int} {hm : 0 < m} {hm' : 0 < m'} (hmant : m = m') (hexp : e = e') :
    UnpackedFloat.finite s m e hm = .finite s m' e' hm' := by
  subst hmant hexp
  rfl

theorem unpack_packComponents (s : Sign) {exponent : BitVec spec.exponentBits}
    (mantissa : BitVec spec.mantissaBitsWithoutImplicit) (hones : exponent ≠ -1#_) (hzero : exponent ≠ 0#_) :
    UnpackedFloat.unpack spec (packComponents spec s exponent mantissa) =
      .finite s (1#1 ++ mantissa).toNat (exponent.toNat - (spec.exponentBias + spec.mantissaBitsWithoutImplicit)) (by simp) := by
  have hsign : Sign.ofBitVec s.toBitVec = s := by cases s <;> rfl
  unfold UnpackedFloat.unpack
  dsimp only
  rw [if_neg (by rwa [unpackExponent_packComponents]), if_neg (by rwa [unpackExponent_packComponents]), unpackSign_packComponents,
    hsign]
  apply finite_congr
  · rw [unpackMantissa_packComponents]
  · rw [unpackExponent_packComponents]

theorem toNat_implicit (hlo : 2 ^ 52 ≤ m) (hhi : m < 2 ^ 53) : (1#1 ++ BitVec.ofNat 52 m).toNat = m := by
  rw [BitVec.toNat_append, BitVec.toNat_ofNat, BitVec.toNat_ofNat, ← Nat.shiftLeft_add_eq_or_of_lt (Nat.mod_lt _ (by decide))]
  omega

theorem log2_of_normal (hlo : 2 ^ 52 ≤ m) (hhi : m < 2 ^ 53) : m.log2 = 52 := by
  have hlog52 := (Nat.le_log2 (by omega)).2 hlo
  have hlog53 := (Nat.log2_lt (by omega)).2 hhi
  omega

theorem unpack_pack_normal (s : Sign) (hm : 0 < m) (hlo : 2 ^ 52 ≤ m) (hhi : m < 2 ^ 53) (he : -1074 ≤ e)
    (he' : e ≤ 971) : (Float.Model.pack (.finite s m e hm)).unpack = .finite s m e hm := by
  obtain ⟨b, hb⟩ : ∃ b : Nat, e + 1075 = b := ⟨(e + 1075).toNat, by omega⟩
  have hlt : b < 2047 := by omega
  have hbias : (Format.binary64.exponentBias : Int) + Format.binary64.mantissaBitsWithoutImplicit = 1075 := rfl
  have hexp : (BitVec.ofNat Format.binary64.exponentBits b).toNat = b := by
    rw [BitVec.toNat_ofNat]
    exact Nat.mod_eq_of_lt (hlt.trans (by decide))
  have hones : BitVec.ofNat Format.binary64.exponentBits b ≠ -1#_ := by
    intro h
    have hnat : b = 2047 := hexp.symm.trans (congrArg BitVec.toNat h)
    omega
  have hzero : BitVec.ofNat Format.binary64.exponentBits b ≠ 0#_ := by
    intro h
    have hnat : b = 0 := hexp.symm.trans (congrArg BitVec.toNat h)
    omega
  have hpack : UnpackedFloat.pack Format.binary64 (.finite s m e hm) =
      packComponents Format.binary64 s (BitVec.ofNat _ b) (BitVec.ofNat 52 m) := by
    have hbiased : (e + Format.binary64.exponentBias + Format.binary64.mantissaBitsWithoutImplicit).toNat = b := by omega
    have hroom : ¬2 ^ Format.binary64.exponentBits ≤ b + 1 := by
      change ¬2048 ≤ b + 1
      omega
    unfold UnpackedFloat.pack
    dsimp only
    rw [hbiased, if_neg hroom]
    exact if_pos (congrArg (· + 1) (log2_of_normal hlo hhi))
  change UnpackedFloat.unpack Format.binary64 (UnpackedFloat.pack Format.binary64 (.finite s m e hm)) = _
  rw [hpack, unpack_packComponents s (BitVec.ofNat 52 m) hones hzero]
  apply finite_congr (toNat_implicit hlo hhi)
  rw [hexp, hbias]
  omega

/-! ## Counting -/

/-- A number from 1 to 2^53: normal, and of an exponent at which one more is not lost but at the end. -/
def Counting (u : UnpackedFloat) : Prop :=
  ∃ m e hm, u = .finite .positive m e hm ∧ -52 ≤ e ∧ 2 ^ 52 ≤ m ∧ m < 2 ^ 53 ∧ (e ≤ 0 ∨ e = 1 ∧ m = 2 ^ 52)

theorem unpack_pack_counting {u : UnpackedFloat} (h : Counting u) : (Float.Model.pack u).unpack = u := by
  obtain ⟨m, e, hm, rfl, he, hlo, hhi, hle⟩ := h
  exact unpack_pack_normal .positive hm hlo hhi (by omega) (by omega)

theorem counting_round (hlo : 2 ^ 52 ≤ m) (hhi : m < 2 ^ 105) : Counting (round Format.binary64 .positive m (-52)) := by
  have hlog52 := (Nat.le_log2 (by omega)).2 hlo
  have hlog105 := (Nat.log2_lt (by omega)).2 hhi
  obtain ⟨k, hk⟩ := Nat.exists_eq_add_of_le hlog52
  have hsame : decreaseExponent m (-52) (Format.binary64.targetExponent (totalExponent m (-52))) = (m, -52) := by
    have hamount : ((-52 : Int) - Format.binary64.targetExponent (totalExponent m (-52))).toNat = 0 := by
      rw [targetExponent_eq]
      omega
    unfold decreaseExponent
    dsimp only
    rw [hamount]
    rfl
  obtain ⟨hfloor, r, m', e', hm', hround, hr, hr', hcarry⟩ := round_normal .positive hk (e := -52) (by omega)
  unfold UnpackedFloat.round
  dsimp only
  rw [hsame]
  exact ⟨m', e', hm', hround, by omega, by omega, by omega, by omega⟩

theorem normalize_natCast (hm : 0 < m) (e : Int) (s : Sign) :
    normalize spec m e s = round spec .positive m e := by
  have hgt : compare (m : Int) 0 = .gt := compare_gt_iff_gt.2 (Int.natCast_pos.2 hm)
  unfold UnpackedFloat.normalize
  rw [hgt]
  rfl

theorem counting_one : Counting (0 + 1 : Float).toModel.unpack :=
  ⟨2 ^ 52, -52, by decide, rfl, by decide, by decide, by decide, by decide⟩

theorem counting_last : Counting (normalize Format.binary64 (2 ^ 105 + 2 ^ 52) (-52) .positive) :=
  ⟨2 ^ 52, 1, by decide, by rfl, by decide, by decide, by decide, by decide⟩

theorem counting_carry : Counting (normalize Format.binary64 (2 ^ 105) (-52) .positive) :=
  ⟨2 ^ 52, 1, by decide, by rfl, by decide, by decide, by decide, by decide⟩

theorem counting_add_one {x : Float} (h : Counting x.toModel.unpack) : Counting (x + 1).toModel.unpack := by
  obtain ⟨m, e, hm, hx, he, hlo, hhi, hle⟩ := h
  have hone : (1 : Float).toModel.unpack = .finite .positive (2 ^ 52) (-52) (by decide) := rfl
  have hmin : min e (-52) = -52 := min_eq_right he
  obtain ⟨k, hk⟩ : ∃ k : Nat, e + 52 = k := ⟨(e + 52).toNat, by omega⟩
  have hsum : UnpackedFloat.add Format.binary64 x.toModel.unpack (1 : Float).toModel.unpack =
      normalize Format.binary64 ((m * 2 ^ k + 2 ^ 52 : Nat) : Int) (-52) .positive := by
    have hamount : (e - min e (-52)).toNat = k := by omega
    have hamount' : ((-52 : Int) - min e (-52)).toNat = 0 := by omega
    rw [hx, hone]
    change normalize Format.binary64 (((m <<< (e - min e (-52)).toNat : Nat) : Int) +
      ((2 ^ 52 <<< ((-52 : Int) - min e (-52)).toNat : Nat) : Int)) (min e (-52)) .positive = _
    rw [hamount, hamount', hmin, Nat.shiftLeft_eq, Nat.shiftLeft_zero, Int.natCast_add]
  have hcounting : Counting (UnpackedFloat.add Format.binary64 x.toModel.unpack (1 : Float).toModel.unpack) := by
    rw [hsum]
    rcases hle with hle | ⟨rfl, rfl⟩
    · have hk52 : k ≤ 52 := by omega
      rcases Nat.lt_or_ge (m * 2 ^ k + 2 ^ 52) (2 ^ 105) with hlt | hge
      · rw [normalize_natCast (by omega)]
        exact counting_round (by omega) hlt
      · have hle105 : m * 2 ^ k ≤ (2 ^ 53 - 1) * 2 ^ 52 := Nat.mul_le_mul (by omega) (Nat.pow_le_pow_right (by decide) hk52)
        have heq : m * 2 ^ k + 2 ^ 52 = 2 ^ 105 := by omega
        rw [heq]
        exact counting_carry
    · have hk53 : k = 53 := by omega
      rw [hk53]
      exact counting_last
  change Counting (Float.Model.pack (UnpackedFloat.add Format.binary64 x.toModel.unpack (1 : Float).toModel.unpack)).unpack
  rw [unpack_pack_counting hcounting]
  exact hcounting

end Float64
