import TinyLisp.HashTrie.Basic

/-!
# Slots and digits

The way to an entry is spelled by the digits of its hash, and a branch finds the
child for a digit by counting the used slots below it. This file says what the
counting amounts to: the used slots in ascending order are a list, a slot cuts
that list into what stands below it and what stands above it, and `rank` is the
length of the lower part. Setting or clearing a bit changes the list at the cut
and nowhere else.

The second half is about digits. Seven digits in base 32 determine a 32-bit
hash, which is why two different hashes part on some level, and comparing
hashes digit by digit is comparing the lists of their digits.
-/

namespace TinyLisp.HashTrie

theorem slot_lt (hash : UInt32) (level : Nat) : slot hash level < 32 :=
  Nat.mod_lt _ (by decide)

/-! ## The used slots of a bitmap -/

/-- The slots in use, in ascending order. -/
def usedSlots (bitmap : BitVec 32) : List Nat :=
  (List.range 32).filter bitmap.getLsbD

/-- The used slots below `s`. -/
def slotsBelow (bitmap : BitVec 32) (s : Nat) : List Nat :=
  (List.range s).filter bitmap.getLsbD

/-- The used slots above `s`. -/
def slotsAbove (bitmap : BitVec 32) (s : Nat) : List Nat :=
  (List.range' (s + 1) (31 - s)).filter bitmap.getLsbD

theorem length_slotsBelow (bitmap : BitVec 32) (s : Nat) :
    (slotsBelow bitmap s).length = rank bitmap s := by
  induction s with
  | zero => rfl
  | succ n ih =>
      rw [slotsBelow, List.range_succ, List.filter_append, List.length_append,
        rank, ← ih]
      cases h : bitmap.getLsbD n with
      | false => rw [List.filter_cons_of_neg (by rw [h]; decide)]; rfl
      | true => rw [List.filter_cons_of_pos h]; rfl

theorem lt_of_mem_slotsBelow {bitmap : BitVec 32} {s t : Nat}
    (h : t ∈ slotsBelow bitmap s) : t < s :=
  List.mem_range.mp (List.mem_filter.mp h).1

theorem lt_of_mem_slotsAbove {bitmap : BitVec 32} {s t : Nat}
    (h : t ∈ slotsAbove bitmap s) : s < t := by
  have hr := (List.mem_filter.mp h).1
  rw [List.mem_range'] at hr
  obtain ⟨i, _, rfl⟩ := hr
  omega

/-- A slot cuts the used slots into those below it, itself if it is in use,
and those above. -/
theorem usedSlots_cut (bitmap : BitVec 32) {s : Nat} (hs : s < 32) :
    usedSlots bitmap =
      slotsBelow bitmap s ++
        ((if bitmap.getLsbD s then [s] else []) ++ slotsAbove bitmap s) := by
  have hr : List.range 32 =
      List.range s ++ ([s] ++ List.range' (s + 1) (31 - s)) := by
    rw [List.range_eq_range', List.range_eq_range', List.singleton_append,
      ← List.range'_succ, show 31 - s + 1 = 32 - s by omega]
    have h := @List.range'_append_1 0 s (32 - s)
    rw [show 0 + s = s by omega, show s + (32 - s) = 32 by omega] at h
    exact h.symm
  rw [usedSlots, hr, List.filter_append, List.filter_append, slotsBelow,
    slotsAbove]
  cases h : bitmap.getLsbD s with
  | false => rw [List.filter_cons_of_neg (by rw [h]; decide)]; rfl
  | true => rw [List.filter_cons_of_pos h]; rfl

/-- Two bitmaps that agree away from `s` have the same used slots below it
and above it. -/
theorem slotsBelow_congr {b b' : BitVec 32} {s : Nat}
    (h : ∀ t, t ≠ s → b'.getLsbD t = b.getLsbD t) :
    slotsBelow b' s = slotsBelow b s := by
  refine List.filter_congr fun t ht => h t ?_
  have := List.mem_range.mp ht
  omega

theorem slotsAbove_congr {b b' : BitVec 32} {s : Nat}
    (h : ∀ t, t ≠ s → b'.getLsbD t = b.getLsbD t) :
    slotsAbove b' s = slotsAbove b s := by
  refine List.filter_congr fun t ht => h t ?_
  rw [List.mem_range'] at ht
  obtain ⟨i, _, rfl⟩ := ht
  omega

theorem usedSlots_of_used {bitmap : BitVec 32} {s : Nat} (hs : s < 32)
    (h : bitmap.getLsbD s = true) :
    usedSlots bitmap = slotsBelow bitmap s ++ s :: slotsAbove bitmap s := by
  rw [usedSlots_cut bitmap hs, if_pos h, List.singleton_append]

theorem usedSlots_of_unused {bitmap : BitVec 32} {s : Nat} (hs : s < 32)
    (h : bitmap.getLsbD s = false) :
    usedSlots bitmap = slotsBelow bitmap s ++ slotsAbove bitmap s := by
  rw [usedSlots_cut bitmap hs, if_neg (by rw [h]; decide), List.nil_append]

theorem usedSlots_set (bitmap : BitVec 32) {s : Nat} (hs : s < 32) :
    usedSlots (bitmap ||| .twoPow 32 s) =
      slotsBelow bitmap s ++ s :: slotsAbove bitmap s := by
  have hne : ∀ t, t ≠ s →
      (bitmap ||| .twoPow 32 s).getLsbD t = bitmap.getLsbD t := by
    intro t ht
    rw [BitVec.getLsbD_or, BitVec.getLsbD_twoPow, decide_eq_false (Ne.symm ht),
      Bool.and_false, Bool.or_false]
  have hs' : (bitmap ||| .twoPow 32 s).getLsbD s = true := by
    rw [BitVec.getLsbD_or, BitVec.getLsbD_twoPow, decide_eq_true hs,
      decide_eq_true rfl, Bool.and_true, Bool.or_true]
  rw [usedSlots_of_used hs hs', slotsBelow_congr hne, slotsAbove_congr hne]

theorem usedSlots_clear (bitmap : BitVec 32) {s : Nat} (hs : s < 32) :
    usedSlots (bitmap &&& ~~~ .twoPow 32 s) =
      slotsBelow bitmap s ++ slotsAbove bitmap s := by
  have hbit : ∀ t, (bitmap &&& ~~~ .twoPow 32 s).getLsbD t =
      (bitmap.getLsbD t && (decide (t < 32) && !decide (s = t))) := by
    intro t
    rw [BitVec.getLsbD_and, BitVec.getLsbD_not, BitVec.getLsbD_twoPow,
      decide_eq_true hs, Bool.true_and]
  have hne : ∀ t, t ≠ s →
      (bitmap &&& ~~~ .twoPow 32 s).getLsbD t = bitmap.getLsbD t := by
    intro t ht
    rw [hbit, decide_eq_false (Ne.symm ht), Bool.not_false, Bool.and_true]
    rcases Nat.lt_or_ge t 32 with h | h
    · rw [decide_eq_true h, Bool.and_true]
    · rw [BitVec.getLsbD_of_ge _ _ h, Bool.false_and]
  have hs' : (bitmap &&& ~~~ .twoPow 32 s).getLsbD s = false := by
    rw [hbit, decide_eq_true (rfl : s = s), Bool.not_true, Bool.and_false,
      Bool.and_false]
  rw [usedSlots_of_unused hs hs', slotsBelow_congr hne, slotsAbove_congr hne]

theorem usedSlots_zero : usedSlots 0 = [] := by decide

theorem usedSlots_twoPow {s : Nat} (hs : s < 32) :
    usedSlots (.twoPow 32 s) = [s] := by
  have h := usedSlots_set 0 hs
  have hcut := @usedSlots_of_unused 0 s hs BitVec.getLsbD_zero
  rw [usedSlots_zero] at hcut
  obtain ⟨hb, ha⟩ := List.append_eq_nil_iff.mp hcut.symm
  rw [hb, ha, List.nil_append,
    show (0 : BitVec 32) ||| .twoPow 32 s = .twoPow 32 s from BitVec.zero_or]
    at h
  exact h

theorem usedSlots_pair {s t : Nat} (hs : s < 32) (ht : t < 32) (hne : s ≠ t) :
    usedSlots (.twoPow 32 s ||| .twoPow 32 t) = if s < t then [s, t]
    else [t, s] := by
  have hbit : (BitVec.twoPow 32 s).getLsbD t = false := by
    rw [BitVec.getLsbD_twoPow, decide_eq_false hne, Bool.and_false]
  have hcut := usedSlots_of_unused ht hbit
  rw [usedSlots_twoPow hs] at hcut
  rw [usedSlots_set _ ht]
  -- The one used slot stands on one side of the cut, and the other side is
  -- empty.
  rcases List.append_eq_singleton_iff.mp hcut.symm with ⟨hb, ha⟩ | ⟨hb, ha⟩
  · have : t < s := lt_of_mem_slotsAbove (ha ▸ List.mem_singleton_self s)
    rw [hb, ha, if_neg (by omega)]
    rfl
  · have : s < t := lt_of_mem_slotsBelow (hb ▸ List.mem_singleton_self s)
    rw [hb, ha, if_pos this]
    rfl

/-! ## Digits -/

/-- The lowest `n` digits of a hash, the lowest first. -/
def digits (hash : UInt32) (n : Nat) : List Nat :=
  (List.range n).map (slot hash)

/-- The way is spelled by the lowest digits of the hash. -/
def Follows (hash : UInt32) (way : List Nat) : Prop :=
  digits hash way.length = way

theorem follows_nil (hash : UInt32) : Follows hash [] := rfl

theorem digits_succ (hash : UInt32) (n : Nat) :
    digits hash (n + 1) = digits hash n ++ [slot hash n] := by
  rw [digits, List.range_succ, List.map_append]
  rfl

theorem follows_snoc {hash : UInt32} {way : List Nat} {s : Nat} :
    Follows hash (way ++ [s]) ↔
      Follows hash way ∧ slot hash way.length = s := by
  rw [Follows, List.length_append, List.length_singleton, digits_succ]
  constructor
  · intro h
    obtain ⟨h₁, h₂⟩ := List.append_inj' h rfl
    exact ⟨h₁, List.singleton_inj.mp h₂⟩
  · rintro ⟨h₁, h₂⟩
    rw [h₁, h₂]

theorem slot_eq_of_digits_eq {h h' : UInt32} {n i : Nat}
    (heq : digits h n = digits h' n) (hi : i < n) : slot h i = slot h' i := by
  have := congrArg (·[i]?) heq
  simpa [digits, hi] using this

theorem digits_eq_of_le {h h' : UInt32} {m n : Nat}
    (heq : digits h n = digits h' n) (hle : m ≤ n) : digits h m = digits h' m :=
  List.map_congr_left fun _ hi =>
    slot_eq_of_digits_eq heq (Nat.lt_of_lt_of_le (List.mem_range.mp hi) hle)

theorem shiftRight_level (x level : Nat) :
    x >>> (5 * level) =
      x >>> (5 * (level + 1)) * 32 + x >>> (5 * level) % 32 := by
  have h : x >>> (5 * (level + 1)) = x >>> (5 * level) / 32 := by
    rw [show 5 * (level + 1) = 5 * level + 5 by omega, Nat.shiftRight_add]
    exact Nat.shiftRight_eq_div_pow _ 5
  rw [h]
  omega

/-- A hash is determined by its seven digits. -/
theorem eq_of_digits_eq {h h' : UInt32}
    (heq : digits h Node.levels = digits h' Node.levels) : h = h' := by
  -- Above the last level nothing is left of either hash; downward, each level
  -- adds a digit.
  have hall : ∀ n, n ≤ 7 →
      h.toNat >>> (5 * (7 - n)) = h'.toNat >>> (5 * (7 - n)) := by
    intro n
    induction n with
    | zero =>
        intro _
        have hlt := h.toNat_lt
        have hlt' := h'.toNat_lt
        rw [Nat.shiftRight_eq_zero _ _ (by omega),
          Nat.shiftRight_eq_zero _ _ (by omega)]
    | succ n ih =>
        intro hn
        have hslot := slot_eq_of_digits_eq heq (i := 7 - (n + 1))
          (by rw [Node.levels]; omega)
        rw [slot, slot] at hslot
        rw [shiftRight_level h.toNat, shiftRight_level h'.toNat, hslot,
          show 7 - (n + 1) + 1 = 7 - n by omega, ih (by omega)]
  exact UInt32.toNat_inj.mp (hall 7 (Nat.le_refl 7))

/-! ## The order of digits -/

/-- Comparing two lists of digits from the front. -/
def digitsLE : List Nat → List Nat → Bool
  | [], _ => true
  | _ :: _, [] => false
  | a :: as, b :: bs => a < b || (a == b && digitsLE as bs)

/-- Comparing two hashes digit by digit, the lowest digit first. -/
def hashLE (h h' : UInt32) : Bool :=
  digitsLE (digits h Node.levels) (digits h' Node.levels)

theorem digitsLE_append (way as bs : List Nat) :
    digitsLE (way ++ as) (way ++ bs) = digitsLE as bs := by
  induction way with
  | nil => rfl
  | cons d way ih => simp [digitsLE, ih]

theorem digitsLE_total (as bs : List Nat) :
    digitsLE as bs = true ∨ digitsLE bs as = true := by
  induction as generalizing bs with
  | nil => exact .inl rfl
  | cons a as ih =>
      cases bs with
      | nil => exact .inr rfl
      | cons b bs =>
          simp only [digitsLE, Bool.or_eq_true, Bool.and_eq_true,
            decide_eq_true_eq, beq_iff_eq]
          rcases Nat.lt_trichotomy a b with h | rfl | h
          · exact .inl (.inl h)
          · rcases ih bs with h | h
            · exact .inl (.inr ⟨rfl, h⟩)
            · exact .inr (.inr ⟨rfl, h⟩)
          · exact .inr (.inl h)

theorem digitsLE_antisymm {as bs : List Nat} (h : digitsLE as bs = true)
    (h' : digitsLE bs as = true) : as = bs := by
  induction as generalizing bs with
  | nil =>
      cases bs with
      | nil => rfl
      | cons b bs => cases h'
  | cons a as ih =>
      cases bs with
      | nil => cases h
      | cons b bs =>
          simp only [digitsLE, Bool.or_eq_true, Bool.and_eq_true,
            decide_eq_true_eq, beq_iff_eq] at h h'
          rcases h with h | ⟨rfl, h⟩
          · rcases h' with h' | ⟨rfl, _⟩ <;> omega
          · rcases h' with h' | ⟨_, h'⟩
            · omega
            · rw [ih h h']

theorem hashLE_total (h h' : UInt32) :
    hashLE h h' = true ∨ hashLE h' h = true :=
  digitsLE_total _ _

theorem hashLE_refl (h : UInt32) : hashLE h h = true :=
  (hashLE_total h h).elim id id

theorem hashLE_antisymm {h h' : UInt32} (hle : hashLE h h' = true)
    (hge : hashLE h' h = true) : h = h' :=
  eq_of_digits_eq (digitsLE_antisymm hle hge)

/-- The digits of a hash that follows a way start with it. -/
theorem digits_eq_append {hash : UInt32} {way : List Nat} {n : Nat}
    (h : Follows hash way) (hn : way.length ≤ n) :
    digits hash n = way ++
      (List.range' way.length (n - way.length)).map (slot hash) := by
  have hr := @List.range'_append_1 0 way.length (n - way.length)
  rw [Nat.zero_add, Nat.add_sub_cancel' hn, ← List.range_eq_range',
    ← List.range_eq_range'] at hr
  rw [digits, ← hr, List.map_append]
  exact congrArg (· ++ _) h

/-- Hashes that part on a way are ordered as the slots where they part. -/
theorem hashLE_of_part {h h' : UInt32} {way : List Nat} {s s' : Nat}
    (hs : Follows h (way ++ [s])) (hs' : Follows h' (way ++ [s']))
    (hlt : s < s') (hway : way.length < Node.levels) : hashLE h h' = true := by
  have hlen : ∀ t : Nat, (way ++ [t]).length ≤ Node.levels := by
    intro t
    rw [List.length_append, List.length_singleton]
    omega
  rw [hashLE, digits_eq_append hs (hlen s), digits_eq_append hs' (hlen s'),
    List.append_assoc, List.append_assoc, digitsLE_append]
  simp [digitsLE, hlt]

end TinyLisp.HashTrie
