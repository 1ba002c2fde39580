import TinyLisp.Number.Parts

/-!
# The stored form of a float

An operation on floats unpacks its arguments, computes, and packs what it has
got again. What is known of a result is therefore known through packing and
unpacking, and these change nothing as long as the parts are in the stored form:
a mantissa of full length, or a shorter one under the least exponent. Whatever
is unpacked is in this form. The other way into it is rounding, and a mantissa
that was in it before some zeros came behind it is in it again.

Lengths are said by the binary logarithm, so the two kinds of stored numbers are
one structure here, and no proof about it has to tell them apart twice.
-/

namespace TinyLisp.Number

open Float.Model (Format UnpackedFloat totalExponent)
open Float.Model.UnpackedFloat (ExtendedMantissa Sign pack packComponents
  roundWithAccuracy shiftToExponent shiftToTargetExponent unpack unpackExponent
  unpackExponent_packComponents unpackMantissa unpackMantissa_packComponents
  unpackSign)

/-- The mantissa and the exponent of a stored number other than zero. -/
structure Canonical (m : Nat) (e : Int) : Prop where
  pos : 0 < m
  length : m.log2 ≤ 52
  least : -1074 ≤ e
  greatest : e ≤ 971
  full : m.log2 = 52 ∨ e = -1074

theorem log2_shiftLeft {m : Nat} (hm : 0 < m) (j : Nat) :
    (m <<< j).log2 = m.log2 + j := by
  induction j with
  | zero => rfl
  | succ j ih =>
      have hpos : m <<< j ≠ 0 := Nat.ne_of_gt (Nat.shiftLeft_pos_iff.mpr hm)
      rw [Nat.shiftLeft_succ, Nat.log2_two_mul hpos, ih, Nat.add_assoc]

/-! ## Packing and unpacking -/

/-- The leading bit of a full mantissa is not stored. -/
theorem toNat_hidden (v : BitVec 52) :
    (1#1 ++ v).toNat = 0x10000000000000 + v.toNat := by
  rw [BitVec.toNat_append, ← Nat.shiftLeft_add_eq_or_of_lt v.isLt]
  rfl

theorem unpackSign_packComponents {spec : Format} (s : Sign)
    (e : BitVec spec.exponentBits)
    (m : BitVec spec.mantissaBitsWithoutImplicit) :
    unpackSign (packComponents spec s e m) = s.toBitVec := by
  ext i hi
  obtain rfl : i = 0 := by omega
  unfold unpackSign packComponents
  simp [BitVec.getLsbD_append, BitVec.getElem_append]

theorem ofBitVec_toBitVec (s : Sign) : Sign.ofBitVec s.toBitVec = s := by
  cases s <;> rfl

theorem canonical_of_unpack {b : BitVec 64} {s : Sign} {m : Nat} {e : Int}
    {hm : 0 < m} (h : unpack .binary64 b = .finite s m e hm) :
    Canonical m e := by
  have hlow : (@unpackMantissa .binary64 b).toNat < 0x10000000000000 :=
    BitVec.isLt _
  have hexp : (@unpackExponent .binary64 b).toNat < 2048 := BitVec.isLt _
  unfold unpack at h
  dsimp only at h
  by_cases hones : @unpackExponent .binary64 b = -1#11
  · rw [if_pos hones] at h
    by_cases hnone : @unpackMantissa .binary64 b = 0#52
    · rw [if_pos hnone] at h
      cases h
    · rw [if_neg hnone] at h
      cases h
  · rw [if_neg hones] at h
    have hfinite : (@unpackExponent .binary64 b).toNat ≠ 2047 :=
      fun heq => hones (BitVec.eq_of_toNat_eq heq)
    by_cases hzeros : @unpackExponent .binary64 b = 0#11
    · rw [if_pos hzeros] at h
      by_cases hnone : @unpackMantissa .binary64 b = 0#52
      · rw [dif_pos hnone] at h
        cases h
      · rw [dif_neg hnone] at h
        cases h
        have hlog := (Nat.log2_lt (k := 52) (Nat.ne_of_gt hm)).mpr hlow
        rw [hzeros]
        exact ⟨hm, Nat.le_of_lt hlog, by decide, by decide, .inr rfl⟩
    · rw [if_neg hzeros] at h
      cases h
      have hpos : (@unpackExponent .binary64 b).toNat ≠ 0 :=
        fun heq => hzeros (BitVec.eq_of_toNat_eq heq)
      have hlog : (1#1 ++ @unpackMantissa .binary64 b).toNat.log2 = 52 := by
        rw [Nat.log2_eq_iff (Nat.ne_of_gt hm), toNat_hidden]
        exact ⟨Nat.le_add_right _ _, Nat.add_lt_add_left hlow 0x10000000000000⟩
      have hbias : (Format.binary64.exponentBias : Int) = 1023 := rfl
      refine ⟨hm, Nat.le_of_eq hlog, ?_, ?_, .inl hlog⟩
      · rw [hbias]
        omega
      · rw [hbias]
        omega

theorem finite_congr {s : Sign} {m n : Nat} {e f : Int} {hm : 0 < m}
    {hn : 0 < n} (h : m = n) (he : e = f) :
    UnpackedFloat.finite s m e hm = .finite s n f hn := by
  subst h
  subst he
  rfl

section Fields

variable {spec : Format} {s : Sign} {e : BitVec spec.exponentBits}
  {m : BitVec spec.mantissaBitsWithoutImplicit}

/-- Between the exponent of zeros and the exponent of ones, the leading
bit is added. -/
theorem unpack_normal (hones : e ≠ -1#_) (hzeros : e ≠ 0#_)
    (hm : 0 < (1#1 ++ m).toNat) :
    unpack spec (packComponents spec s e m) = .finite s (1#1 ++ m).toNat
      (e.toNat - (spec.exponentBias + spec.mantissaBitsWithoutImplicit)) hm := by
  unfold unpack
  dsimp only
  rw [if_neg (by rwa [unpackExponent_packComponents]),
    if_neg (by rwa [unpackExponent_packComponents]), unpackSign_packComponents,
    ofBitVec_toBitVec]
  refine finite_congr ?_ ?_
  · rw [unpackMantissa_packComponents]
  · rw [unpackExponent_packComponents]

/-- The exponent of zeros stands for the least one. -/
theorem unpack_subnormal (hzeros : m ≠ 0#_) (hm : 0 < m.toNat) :
    unpack spec (packComponents spec s 0#_ m) = .finite s m.toNat
      (1 - (spec.exponentBias + spec.mantissaBitsWithoutImplicit)) hm := by
  have hbits := spec.he
  have hones : unpackExponent (packComponents spec s 0#_ m) ≠ -1#_ := by
    rw [unpackExponent_packComponents]
    simp
    omega
  unfold unpack
  dsimp only
  rw [if_neg hones, if_pos unpackExponent_packComponents,
    dif_neg (by rwa [unpackMantissa_packComponents]), unpackSign_packComponents,
    ofBitVec_toBitVec]
  refine finite_congr ?_ ?_
  · rw [unpackMantissa_packComponents]
  · rw [unpackExponent_packComponents, BitVec.toNat_zero]
    omega

end Fields

/-- A mantissa of full length is packed without its leading bit. -/
theorem unpack_pack_full {s : Sign} {m : Nat} {e : Int} (hm : 0 < m)
    (hlog : m.log2 = 52) (hleast : -1074 ≤ e) (hgreatest : e ≤ 971) :
    unpack .binary64 (pack .binary64 (.finite s m e hm)) = .finite s m e hm := by
  obtain ⟨hlow, hhigh⟩ := (Nat.log2_eq_iff (Nat.ne_of_gt hm)).mp hlog
  let biased := (e + 1023 + 52).toNat
  have hpack : pack .binary64 (.finite s m e hm) =
      packComponents .binary64 s (.ofNat 11 biased) (.ofNat 52 m) := by
    unfold pack
    exact (if_neg (by show ¬2048 ≤ biased + 1; omega)).trans
      (if_pos (congrArg (· + 1) hlog))
  have hexp : (BitVec.ofNat 11 biased).toNat = biased :=
    Nat.mod_eq_of_lt (by show biased < 2048; omega)
  have hones : BitVec.ofNat 11 biased ≠ -1#11 := fun heq => by
    have hbiased : biased = 2047 := by rw [← hexp, heq]; rfl
    omega
  have hzeros : BitVec.ofNat 11 biased ≠ 0#11 := fun heq => by
    have hbiased : biased = 0 := by rw [← hexp, heq]; rfl
    omega
  have hmantissa : (1#1 ++ BitVec.ofNat 52 m).toNat = m := by
    rw [toNat_hidden, BitVec.toNat_ofNat]
    omega
  have hpos : 0 < (1#1 ++ BitVec.ofNat 52 m).toNat := by rwa [hmantissa]
  rw [hpack, @unpack_normal .binary64 s (.ofNat 11 biased) (.ofNat 52 m) hones
    hzeros hpos]
  refine finite_congr hmantissa ?_
  show ((BitVec.ofNat 11 biased).toNat : Int) - (1023 + 52) = e
  rw [hexp]
  omega

/-- A shorter mantissa is packed as it is, under the exponent of zeros. -/
theorem unpack_pack_short {s : Sign} {m : Nat} (hm : 0 < m)
    (hlog : m.log2 < 52) :
    unpack .binary64 (pack .binary64 (.finite s m (-1074) hm)) =
      .finite s m (-1074) hm := by
  have hlow := (Nat.log2_lt (Nat.ne_of_gt hm)).mp hlog
  have hpack : pack .binary64 (.finite s m (-1074) hm) =
      packComponents .binary64 s 0#11 (.ofNat 52 m) := by
    unfold pack
    exact (if_neg (by decide)).trans
      (if_neg fun heq => Nat.ne_of_lt hlog (Nat.succ.inj heq))
  have hmantissa : (BitVec.ofNat 52 m).toNat = m := Nat.mod_eq_of_lt hlow
  have hzeros : BitVec.ofNat 52 m ≠ 0#52 := fun heq => by
    have hm0 : m = 0 := by rw [← hmantissa, heq]; rfl
    omega
  have hpos : 0 < (BitVec.ofNat 52 m).toNat := by rwa [hmantissa]
  rw [hpack, @unpack_subnormal .binary64 s (.ofNat 52 m) hzeros hpos]
  exact finite_congr hmantissa rfl

theorem unpack_pack {s : Sign} {m : Nat} {e : Int} (h : Canonical m e) :
    unpack .binary64 (pack .binary64 (.finite s m e h.pos)) =
      .finite s m e h.pos := by
  rcases Nat.lt_or_eq_of_le h.length with hshort | hfull
  · obtain rfl : e = -1074 := h.full.resolve_left (Nat.ne_of_lt hshort)
    exact unpack_pack_short h.pos hshort
  · exact unpack_pack_full h.pos hfull h.least h.greatest

/-! ## Rounding what is exact -/

theorem target_of_canonical {m : Nat} {e : Int} (h : Canonical m e) :
    Format.binary64.targetExponent (totalExponent m e) = e := by
  obtain ⟨_, hlength, hleast, -, hfull⟩ := h
  show max ((m.log2 + 1 + e : Int) - 53) (-1074) = e
  omega

/-- Zeros behind a mantissa are shifted out without a trace. -/
theorem shiftRight_exact (m j : Nat) :
    ExtendedMantissa.mk (m <<< j) false false >>> j = .mk m false false := by
  induction j generalizing m with
  | zero => rfl
  | succ j ih =>
      have hshift : m <<< (j + 1) = (m <<< 1) <<< j := by
        rw [← Nat.shiftLeft_add, Nat.add_comm 1 j]
      show (ExtendedMantissa.mk (m <<< (j + 1)) false false >>>
        j).shiftRightOne = _
      rw [hshift, ih]
      simp [ExtendedMantissa.shiftRightOne, Nat.shiftLeft_eq]

theorem shiftToTargetExponent_exact {m : Nat} {e : Int} (h : Canonical m e)
    (j : Nat) :
    shiftToTargetExponent .binary64 (m <<< j) (e - j) .exact =
      (.mk m false false, e) := by
  have htotal : totalExponent (m <<< j) (e - j) = totalExponent m e := by
    rw [totalExponent, totalExponent, log2_shiftLeft h.pos]
    omega
  have hamount : (e - (e - j)).toNat = j := by omega
  rw [shiftToTargetExponent, htotal, target_of_canonical h,
    shiftToExponent, hamount]
  exact Prod.ext (shiftRight_exact m j) (Int.sub_add_cancel e j)

theorem roundWithAccuracy_exact {s : Sign} {m : Nat} {e : Int}
    (h : Canonical m e) (j : Nat) :
    roundWithAccuracy .binary64 s (m <<< j) (e - j) .exact =
      .finite s m e h.pos := by
  have hagain := shiftToTargetExponent_exact h 0
  rw [Nat.shiftLeft_zero, Int.natCast_zero, Int.sub_zero] at hagain
  rw [roundWithAccuracy, shiftToTargetExponent_exact h j]
  dsimp only
  rw [show (ExtendedMantissa.mk m false false).roundedMantissa = m
    from rfl, hagain]
  exact dif_neg (Nat.ne_of_gt h.pos)

end TinyLisp.Number
