import DsApm.Lib.Float64
import Mathlib.Data.Rat.Floor
/-!
# FloatValue — the rational number that a finite float is

A conversion to an integer drops what is behind the point.  A product of two positive normal floats is within one unit of its last
place of the product of the numbers.
-/
namespace Float64

open Float.Model Float.Model.UnpackedFloat

def value : UnpackedFloat → ℚ
  | .finite s m e _ => s.apply m * 2 ^ e
  | _ => 0

theorem toInt_finite (m : Nat) (e : Int) (hm : 0 < m) (neg pos : Int) :
    UnpackedFloat.toInt neg pos (.finite .positive m e hm) = ⌊(m : ℚ) * 2 ^ e⌋ := by
  change roundToInt .positive m e = _
  unfold roundToInt decreaseExponent shiftToExponent
  dsimp only
  rw [mantissa_shiftRight]
  rcases Int.le_total 0 e with he | he
  · obtain ⟨k, rfl⟩ := Int.eq_ofNat_of_zero_le he
    have hamount : ((k : Int) - 0).toNat = k := by omega
    have hamount' : (0 - ((k : Int) - k)).toNat = 0 := by omega
    rw [hamount, hamount', Nat.shiftLeft_eq, zpow_natCast]
    change (((m * 2 ^ k / 2 ^ 0 : Nat) : Int)) = _
    rw [Nat.pow_zero, Nat.div_one]
    exact (Int.floor_natCast (m * 2 ^ k) (R := ℚ)).symm.trans (by push_cast; rfl)
  · obtain ⟨k, hk⟩ := Int.eq_ofNat_of_zero_le (Int.neg_nonneg.2 he)
    have hamount : (e - 0).toNat = 0 := by omega
    have hamount' : (0 - (e - (0 : Nat))).toNat = k := by omega
    have hneg : e = -(k : Int) := by omega
    rw [hamount, hamount', hneg, zpow_neg, zpow_natCast, ← div_eq_mul_inv]
    have hfloor := Rat.floor_natCast_div_natCast m (2 ^ k)
    push_cast at hfloor
    rw [hfloor]
    rfl

theorem abs_rounded {m k r : Nat} (hlo : m / 2 ^ k ≤ r) (hhi : r ≤ m / 2 ^ k + 1) : |(r : ℚ) * 2 ^ k - m| ≤ 2 ^ k := by
  have hdiv := Nat.div_add_mod m (2 ^ k)
  have hmod := Nat.mod_lt m (Nat.two_pow_pos k)
  have hr : (m / 2 ^ k) * 2 ^ k ≤ r * 2 ^ k := Nat.mul_le_mul_right _ hlo
  have hr' : r * 2 ^ k ≤ (m / 2 ^ k + 1) * 2 ^ k := Nat.mul_le_mul_right _ hhi
  rw [Nat.mul_comm] at hdiv
  rw [Nat.add_mul, Nat.one_mul] at hr'
  have hle : m ≤ r * 2 ^ k + 2 ^ k := by omega
  have hle' : r * 2 ^ k ≤ m + 2 ^ k := by omega
  have hleq : (m : ℚ) ≤ r * 2 ^ k + 2 ^ k := by exact_mod_cast hle
  have hleq' : (r : ℚ) * 2 ^ k ≤ m + 2 ^ k := by exact_mod_cast hle'
  rw [abs_le]
  constructor <;> linarith

section
variable {a b : Float} {m₁ m₂ : Nat} {e₁ e₂ : Int} {h₁ : 0 < m₁} {h₂ : 0 < m₂}

theorem unpack_mul (ha : a.toModel.unpack = .finite .positive m₁ e₁ h₁) (hb : b.toModel.unpack = .finite .positive m₂ e₂ h₂)
    (hlo₁ : 2 ^ 52 ≤ m₁) (hhi₁ : m₁ < 2 ^ 53) (hlo₂ : 2 ^ 52 ≤ m₂) (hhi₂ : m₂ < 2 ^ 53) (he : -1126 ≤ e₁ + e₂) (he' : e₁ + e₂ ≤ 918) :
    ∃ m e hm, (a * b).toModel.unpack = .finite .positive m e hm ∧ |(m : ℚ) * 2 ^ e - m₁ * 2 ^ e₁ * (m₂ * 2 ^ e₂)| ≤ 2 ^ (e₁ + e₂ + 53) := by
  have hlo : 2 ^ 104 ≤ m₁ * m₂ := (Nat.mul_le_mul hlo₁ hlo₂).trans' (by decide)
  have hhi : m₁ * m₂ < 2 ^ 106 := (Nat.mul_lt_mul'' hhi₁ hhi₂).trans_le (by decide)
  have hlog104 := (Nat.le_log2 (by omega)).2 hlo
  have hlog106 := (Nat.log2_lt (by omega)).2 hhi
  obtain ⟨k, hk⟩ := Nat.exists_eq_add_of_le (hlog104.trans' (by decide : 52 ≤ 104))
  obtain ⟨hfloor, r, m, e, hm, hround, hr, hr', hcarry⟩ := round_normal .positive hk (e := e₁ + e₂) (by omega)
  -- The last place is where it can be only without a carry.
  have hexp : e ≤ e₁ + e₂ + 53 := by
    rcases Nat.lt_or_ge k 53 with hk53 | hk53
    · omega
    · have hk53 : k = 53 := by omega
      rw [hk53] at hr'
      have hdiv : m₁ * m₂ / 2 ^ 53 < m₂ := by
        rw [Nat.div_lt_iff_lt_mul (by decide), Nat.mul_comm]
        exact Nat.mul_lt_mul_of_pos_left hhi₁ h₂
      omega
  have hvalue : (m : ℚ) * 2 ^ e = r * 2 ^ k * 2 ^ (e₁ + e₂) := by
    rcases hcarry with ⟨rfl, rfl, _⟩ | ⟨rfl, rfl, rfl⟩
    · rw [zpow_add₀ two_ne_zero, zpow_natCast]
      ring
    · rw [zpow_add₀ two_ne_zero, zpow_add₀ two_ne_zero, zpow_natCast]
      push_cast
      ring
  have hmul : (a * b).toModel.unpack = (Float.Model.pack (.finite .positive m e hm)).unpack := by
    change (Float.Model.pack (UnpackedFloat.mul Format.binary64 a.toModel.unpack b.toModel.unpack)).unpack = _
    rw [ha, hb]
    exact congrArg (fun u => (Float.Model.pack u).unpack) hround
  refine ⟨m, e, hm, hmul.trans (unpack_pack_normal .positive hm (by omega) (by omega) (by omega) (by omega)), ?_⟩
  have herror := abs_rounded hr hr'
  have hpow : (0 : ℚ) < 2 ^ (e₁ + e₂) := zpow_pos two_pos _
  have hexact : (m₁ : ℚ) * 2 ^ e₁ * (m₂ * 2 ^ e₂) = (m₁ * m₂ : Nat) * 2 ^ (e₁ + e₂) := by
    rw [zpow_add₀ two_ne_zero]
    push_cast
    ring
  calc |(m : ℚ) * 2 ^ e - m₁ * 2 ^ e₁ * (m₂ * 2 ^ e₂)|
      = |(r : ℚ) * 2 ^ k - (m₁ * m₂ : Nat)| * 2 ^ (e₁ + e₂) := by
        rw [hvalue, hexact, ← sub_mul, abs_mul, abs_of_pos hpow]
    _ ≤ 2 ^ k * 2 ^ (e₁ + e₂) := mul_le_mul_of_nonneg_right herror hpow.le
    _ ≤ 2 ^ 53 * 2 ^ (e₁ + e₂) := by
        refine mul_le_mul_of_nonneg_right ?_ hpow.le
        exact pow_le_pow_right₀ one_le_two (by omega)
    _ = 2 ^ (e₁ + e₂ + 53) := by
        rw [zpow_add₀ two_ne_zero (e₁ + e₂) 53]
        ring

end

theorem implicit_bounds (v : BitVec 52) : 2 ^ 52 ≤ (1#1 ++ v).toNat ∧ (1#1 ++ v).toNat < 2 ^ 53 := by
  have hlt := v.isLt
  rw [BitVec.toNat_append, BitVec.toNat_ofNat, ← Nat.shiftLeft_add_eq_or_of_lt hlt]
  omega

theorem normal_of_unpack {a : Float} {s : Sign} {m : Nat} {e : Int} {hm : 0 < m} (h : a.toModel.unpack = .finite s m e hm)
    (he : e ≠ -1074) : 2 ^ 52 ≤ m ∧ m < 2 ^ 53 ∧ e ≤ 971 := by
  change UnpackedFloat.unpack Format.binary64 a.toModel.toBits.toBitVec = _ at h
  have hbias : (Format.binary64.exponentBias : Int) + Format.binary64.mantissaBitsWithoutImplicit = 1075 := rfl
  unfold UnpackedFloat.unpack at h
  dsimp only at h
  split at h
  · split at h <;> nomatch h
  · rename_i hones
    split at h
    · rename_i hzero
      split at h
      · nomatch h
      · injection h with _ _ hexp
        rw [hzero, hbias] at hexp
        exact absurd hexp.symm he
    · injection h with _ hmant hexp
      obtain ⟨hlo, hhi⟩ := implicit_bounds (@unpackMantissa Format.binary64 a.toModel.toBits.toBitVec)
      have hlt := (@unpackExponent Format.binary64 a.toModel.toBits.toBitVec).isLt
      have hne : (@unpackExponent Format.binary64 a.toModel.toBits.toBitVec).toNat ≠ 2047 := fun heq => hones (BitVec.eq_of_toNat_eq heq)
      change (@unpackExponent Format.binary64 a.toModel.toBits.toBitVec).toNat < 2048 at hlt
      rw [hbias] at hexp
      exact ⟨hmant ▸ hlo, hmant ▸ hhi, by omega⟩

/-! ## Shares -/

theorem five_le {p : Float} (hfinite : p.isFinite = true) (h : 5 ≤ p) : ∃ m e hm, p.toModel.unpack = .finite .positive m e hm ∧
    2 ^ 52 ≤ m ∧ m < 2 ^ 53 ∧ -50 ≤ e ∧ e ≤ 971 ∧ 5 ≤ (m : ℚ) * 2 ^ e := by
  have hnan := ((isFinite_iff p).1 hfinite).1
  have hrank := (le_iff (by rfl) hnan).1 h
  change toLex (1, toLex (-50, (5629499534213120 : Int))) ≤ rank p.toModel.unpack at hrank
  change p.toModel.unpack.isFinite = true at hfinite
  cases hp : p.toModel.unpack with
  | notANumber | infinity =>
    rw [hp] at hfinite
    nomatch hfinite
  | zero s =>
    rw [hp, rank] at hrank
    exact absurd hrank (by decide)
  | finite s m e hm =>
    rw [hp] at hrank
    cases s with
    | negative =>
      rw [rank, Prod.Lex.toLex_le_toLex] at hrank
      simp at hrank
    | positive =>
      rw [rank, Prod.Lex.toLex_le_toLex, Prod.Lex.toLex_le_toLex] at hrank
      have hle : -50 < e ∨ -50 = e ∧ (5629499534213120 : Int) ≤ m := by simpa using hrank
      obtain ⟨hlo, hhi, he⟩ := normal_of_unpack hp (by omega)
      refine ⟨m, e, hm, rfl, hlo, hhi, by omega, he, ?_⟩
      rcases hle with hlt | ⟨rfl, hm5⟩
      · have hloq : (2 : ℚ) ^ 52 ≤ m := by exact_mod_cast hlo
        have hpow : (2 : ℚ) ^ (-49 : Int) ≤ 2 ^ e := zpow_le_zpow_right₀ one_le_two hlt
        calc (5 : ℚ) ≤ 2 ^ 52 * 2 ^ (-49 : Int) := by norm_num
          _ ≤ m * 2 ^ e := mul_le_mul hloq hpow (by norm_num) (Nat.cast_nonneg m)
      · have hm5q : (5629499534213120 : ℚ) ≤ m := by exact_mod_cast hm5
        calc (5 : ℚ) ≤ 5629499534213120 * 2 ^ (-50 : Int) := by norm_num
          _ ≤ m * 2 ^ (-50 : Int) := mul_le_mul_of_nonneg_right hm5q (by norm_num)

end Float64
