import TinyLisp.Number.Text
import TinyLisp.Proofs.Number.Canonical
import TinyLisp.Proofs.Number.Equality

/-!
# Whole numbers read back

A whole number of at most 53 bits is a float, and only one float is that number:
its mantissa is the number with zeros behind it up to the full length. Reading
the digits of such a number makes a float by way of a rounded integer and a
product with one. Neither step rounds anything away, since what it rounds is the
mantissa in question with zeros behind it, and so the float that is read has the
parts of any float that is this number.

The text of a short whole number is its digits. So it reads back, and nothing
has to be assumed about the plain texts that other numbers have.
-/

namespace TinyLisp.Number

open Float.Model (Format UnpackedFloat totalExponent)
open Float.Model.UnpackedFloat (Sign decreaseExponent pack unpack)

/-! ## The parts of a whole number -/

theorem log2_of_lt_exactBound {k : Nat} (hk : 0 < k) (hlt : k < exactBound) :
    k.log2 ≤ 52 :=
  Nat.le_of_lt_succ ((Nat.log2_lt (Nat.ne_of_gt hk)).mpr hlt)

theorem canonical_whole {k : Nat} (hk : 0 < k) (hlt : k < exactBound) :
    Canonical (k <<< (52 - k.log2)) (k.log2 - 52) := by
  have hle := log2_of_lt_exactBound hk hlt
  have hlog : (k <<< (52 - k.log2)).log2 = 52 := by
    rw [log2_shiftLeft hk]
    omega
  exact ⟨Nat.shiftLeft_pos_iff.mpr hk, Nat.le_of_eq hlog, by omega, by omega,
    .inl hlog⟩

/-- The whole number of this sign and size, as a float has it. -/
def IsWhole (u : UnpackedFloat) (s : Sign) (k : Nat) : Prop :=
  ∃ h, u = .finite s (k <<< (52 - k.log2)) (k.log2 - 52) h

theorem alike_of_isWhole {u v : UnpackedFloat} {s : Sign} {k : Nat}
    (hu : IsWhole u s k) (hv : IsWhole v s k) : Alike u v := by
  obtain ⟨h, rfl⟩ := hu
  obtain ⟨h', rfl⟩ := hv
  exact .finite s _ _ h h'

theorem natAbs_apply (s : Sign) (k : Nat) : (s.apply k).natAbs = k := by
  cases s with
  | positive => rfl
  | negative => exact Int.natAbs_neg k

/-- A stored mantissa that comes to a whole number of at most 53 bits is this
number with zeros behind it. The number is `q` with as many zeros as a positive
exponent says, and the mantissa is `q` with as many as a negative one says. -/
theorem canonical_eq_whole {m q k : Nat} {e : Int} (h : Canonical m e)
    (hm : m = q <<< (-e).toNat) (hk : k = q <<< e.toNat)
    (hlt : k < exactBound) :
    0 < k ∧ m = k <<< (52 - k.log2) ∧ e = k.log2 - 52 := by
  obtain ⟨hmpos, hlength, hleast, -, hfull⟩ := h
  have hq : 0 < q := Nat.shiftLeft_pos_iff.mp (hm ▸ hmpos)
  have hkpos : 0 < k := hk ▸ Nat.shiftLeft_pos_iff.mpr hq
  have hlogm : m.log2 = q.log2 + (-e).toNat := by rw [hm, log2_shiftLeft hq]
  have hlogk : k.log2 = q.log2 + e.toNat := by rw [hk, log2_shiftLeft hq]
  have hlength := log2_of_lt_exactBound hkpos hlt
  -- The number is not longer than the mantissa, so no zeros came to `q`.
  have he : e = k.log2 - 52 := by omega
  have hkq : k = q := by
    rw [hk, show e.toNat = 0 by omega, Nat.shiftLeft_zero]
  refine ⟨hkpos, ?_, he⟩
  rw [hm, ← hkq, show (-e).toNat = 52 - k.log2 by omega]

/-- A float that is a whole number is zero, or has the one mantissa that this
number can have. -/
theorem whole_of_toInt? {x : Float} {n : Int} (h : toInt? x = some n)
    (hlt : n.natAbs < exactBound) :
    (n = 0 ∧ ∃ s, parts x = .zero s) ∨
      ∃ s, 0 < n.natAbs ∧ n = s.apply n.natAbs ∧
        IsWhole (parts x) s n.natAbs := by
  unfold toInt? at h
  split at h
  · next s hx => exact .inl ⟨(Option.some.inj h).symm, s, hx⟩
  · next s m e hm hx =>
      dsimp only at h
      split at h
      · next hmod =>
          generalize hq : m / 1 <<< (-e).toNat = q at h
          have hmantissa : m = q <<< (-e).toNat := by
            rw [Nat.shiftLeft_eq, ← Nat.one_shiftLeft, ← hq]
            exact (Nat.div_mul_cancel (Nat.dvd_of_mod_eq_zero hmod)).symm
          have hn : n = s.apply (q <<< e.toNat : Nat) :=
            (Option.some.inj h).symm
          have habs : n.natAbs = q <<< e.toNat := by rw [hn, natAbs_apply]
          obtain ⟨hpos, hwhole, hexponent⟩ :=
            canonical_eq_whole (canonical_of_unpack hx) hmantissa habs hlt
          refine .inr ⟨s, hpos, by rw [habs, hn], ?_⟩
          subst hwhole
          subst hexponent
          exact ⟨hm, hx⟩
      · cases h
  · cases h
  · cases h

/-! ## Reading digits -/

theorem round_whole {s : Sign} {k : Nat} (hk : 0 < k) (hlt : k < exactBound) :
    UnpackedFloat.round .binary64 s k 0 =
      .finite s (k <<< (52 - k.log2)) (k.log2 - 52)
        (canonical_whole hk hlt).pos := by
  have hle := log2_of_lt_exactBound hk hlt
  have htarget : Format.binary64.targetExponent (totalExponent k 0) =
      k.log2 - 52 := by
    show max ((k.log2 + 1 + 0 : Int) - 53) (-1074) = _
    omega
  have hamount : (0 - (k.log2 - 52 : Int)).toNat = 52 - k.log2 := by omega
  have hexponent : (0 - (52 - k.log2 : Nat) : Int) =
      k.log2 - 52 - (0 : Nat) := by omega
  rw [UnpackedFloat.round, htarget, decreaseExponent, hamount]
  dsimp only
  rw [hexponent]
  exact roundWithAccuracy_exact (canonical_whole hk hlt) 0

theorem normalize_whole {k : Nat} (hk : 0 < k) (hlt : k < exactBound) :
    UnpackedFloat.normalize .binary64 k 0 .positive =
      .finite .positive (k <<< (52 - k.log2)) (k.log2 - 52)
        (canonical_whole hk hlt).pos := by
  have hpos : compare (k : Int) 0 = .gt := by
    rw [Int.compare_eq_gt]
    omega
  rw [UnpackedFloat.normalize, hpos]
  exact round_whole hk hlt

theorem isWhole_toFloat {k : Nat} (hk : 0 < k) (hlt : k < exactBound) :
    IsWhole (parts k.toUInt64.toFloat) .positive k := by
  have hnat : k.toUInt64.toNat = k :=
    UInt64.toNat_ofNat'.trans (Nat.mod_eq_of_lt (Nat.lt_trans hlt (by decide)))
  refine ⟨(canonical_whole hk hlt).pos, ?_⟩
  show unpack .binary64 (pack .binary64
    (.normalize .binary64 k.toUInt64.toNat 0 .positive)) = _
  rw [hnat, normalize_whole hk hlt]
  exact unpack_pack (canonical_whole hk hlt)

theorem parts_one : parts Float.exactlyRepresentablePowersOfTen[0] =
    .finite .positive leastFull (-52) (by decide) := rfl

/-- A product with one is rounded, and nothing is lost. -/
theorem mul_one_exact {m : Nat} {e : Int} (h : Canonical m e) :
    UnpackedFloat.mul .binary64 (.finite .positive m e h.pos)
      (.finite .positive leastFull (-52) (by decide)) =
        .finite .positive m e h.pos := by
  have hround := roundWithAccuracy_exact (s := .positive) h 52
  rw [Nat.shiftLeft_eq] at hround
  exact hround

theorem isWhole_ofDecimal {k : Nat} (hk : 0 < k) (hlt : k < exactBound) :
    IsWhole (parts (ofDecimal k 0)) .positive k := by
  have hcanonical := canonical_whole hk hlt
  obtain ⟨_, hinteger⟩ := isWhole_toFloat hk hlt
  have hfast : ofDecimal k 0 =
      k.toUInt64.toFloat * Float.exactlyRepresentablePowersOfTen[0] :=
    dif_pos ⟨hlt, by decide⟩
  refine ⟨hcanonical.pos, ?_⟩
  rw [hfast]
  show unpack .binary64 (pack .binary64 (.mul .binary64 (parts _) (parts _))) = _
  rw [hinteger, parts_one, mul_one_exact hcanonical]
  exact unpack_pack hcanonical

theorem isWhole_neg {x : Float} {s : Sign} {k : Nat} (hk : 0 < k)
    (hlt : k < exactBound) (h : IsWhole (parts x) s k) :
    IsWhole (parts (-x)) (-s) k := by
  obtain ⟨hpos, hx⟩ := h
  refine ⟨hpos, ?_⟩
  show unpack .binary64 (pack .binary64 (parts x).neg) = _
  rw [hx]
  exact unpack_pack (canonical_whole hk hlt)

/-! ## Reading the digits of a whole number -/

theorem ofDigits_toDigits (n : Nat) : ofDigits (Nat.toDigits 10 n) = n := by
  have hfold : ofDigits (Nat.toDigits 10 n) =
      Nat.ofDigitChars 10 (Nat.toDigits 10 n) 0 := by
    rw [ofDigits, Nat.ofDigitChars_eq_foldl]
    simp only [Nat.mul_comm]
  rw [hfold, Nat.ofDigitChars_ten_toDigits]

theorem readUnsigned_of_digits {cs : List Char} (hne : cs ≠ [])
    (hall : ∀ c ∈ cs, c.isDigit = true) :
    readUnsigned cs = some (ofDecimal (ofDigits cs) 0) := by
  have htake : (cs ++ []).takeWhile Char.isDigit = cs ++ [] :=
    List.takeWhile_append_of_pos hall
  have hdrop : (cs ++ []).dropWhile Char.isDigit = [] :=
    List.dropWhile_append_of_pos hall
  rw [List.append_nil] at htake hdrop
  unfold readUnsigned
  rw [htake, hdrop]
  have hempty : cs.isEmpty = false := by
    simpa using hne
  simp only [splitFraction, hempty, List.append_nil]
  rfl

theorem readUnsigned_repr (n : Nat) :
    readUnsigned n.repr.toList = some (ofDecimal n 0) := by
  rw [Nat.toList_repr, readUnsigned_of_digits Nat.toDigits_ne_nil
    (fun c hc => Nat.isDigit_of_mem_toDigits (by decide) (by decide) hc),
    ofDigits_toDigits]

theorem splitSign_of_isDigit {c : Char} {cs : List Char}
    (h : c.isDigit = true) : splitSign (c :: cs) = (false, c :: cs) := by
  unfold splitSign
  split
  · next heq =>
      cases heq
      cases h
  · next heq =>
      cases heq
      cases h
  · rfl

theorem splitSign_repr (n : Nat) :
    splitSign n.repr.toList = (false, n.repr.toList) := by
  rw [Nat.toList_repr]
  have hdigits : ∀ c ∈ Nat.toDigits 10 n, c.isDigit = true :=
    fun c hc => Nat.isDigit_of_mem_toDigits (by decide) (by decide) hc
  have hne : Nat.toDigits 10 n ≠ [] := Nat.toDigits_ne_nil
  generalize Nat.toDigits 10 n = cs at hdigits hne
  cases cs with
  | nil => exact absurd rfl hne
  | cons c cs => exact splitSign_of_isDigit (hdigits c List.mem_cons_self)

/-- An integer other than zero is written as its size, behind a sign if
it is negative. -/
theorem repr_apply (s : Sign) {k : Nat} (hk : 0 < k) :
    (s.apply k).repr = signText s ++ k.repr := by
  cases s with
  | positive => exact (String.empty_append).symm
  | negative => cases k with
    | zero => cases hk
    | succ k => rfl

theorem readDecimal_integer {s : Sign} {k : Nat} (hk : 0 < k)
    (hlt : k < exactBound) :
    ∃ y, readDecimal (s.apply k).repr.toList = some y ∧
      IsWhole (parts y) s k := by
  have hwhole := isWhole_ofDecimal hk hlt
  rw [repr_apply s hk, String.toList_append]
  cases s with
  | positive =>
      refine ⟨ofDecimal k 0, ?_, hwhole⟩
      show readDecimal k.repr.toList = _
      rw [readDecimal, splitSign_repr]
      show (readUnsigned k.repr.toList).map _ = _
      rw [readUnsigned_repr]
      rfl
  | negative =>
      refine ⟨-ofDecimal k 0, ?_, isWhole_neg hk hlt hwhole⟩
      show (readUnsigned k.repr.toList).map _ = _
      rw [readUnsigned_repr]
      rfl

/-! ## The text of a number reads back -/

theorem text_of_isFinite {x : Float} (hx : x.isFinite = true) :
    text x = match integer? x with
      | some n => n.repr
      | none => display x := by
  have hparts : (parts x).isFinite = true := hx
  unfold text
  generalize parts x = u at hparts
  cases u with
  | notANumber => cases hparts
  | infinity s => cases hparts
  | zero s => rfl
  | finite s m e hm => rfl

/-- A number that is written as an integer reads back. -/
theorem exists_readDecimal_of_integer? {x : Float} {n : Int}
    (h : integer? x = some n) :
    ∃ y, readDecimal n.repr.toList = some y ∧ (y == x) = true := by
  obtain ⟨hn, hshort⟩ := Option.filter_eq_some_iff.mp h
  have hlt : n.natAbs < exactBound :=
    Nat.lt_trans (of_decide_eq_true hshort) (by decide)
  rcases whole_of_toInt? hn hlt with ⟨rfl, s, hx⟩ | ⟨s, hpos, happly, hx⟩
  · refine ⟨ofDecimal 0 0, rfl, beq_iff_alike.mpr ?_⟩
    rw [hx]
    exact .zero _ s
  · obtain ⟨y, hy, hwhole⟩ := readDecimal_integer (s := s) hpos hlt
    rw [← happly] at hy
    exact ⟨y, hy, beq_iff_alike.mpr (alike_of_isWhole hwhole hx)⟩

end TinyLisp.Number
