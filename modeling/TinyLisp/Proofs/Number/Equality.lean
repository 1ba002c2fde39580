import TinyLisp.Number.Text

/-!
# When numbers are equal

Equality of floats is not identity: the two zeros are equal, and not-a-number
differs from itself. Everything else that is equal has the same parts. `Alike`
says so on the parts, and what is computed from the parts (the text of a number,
its hash, whether it is finite) cannot tell equal numbers apart.
-/

namespace TinyLisp.Number

open Float.Model (UnpackedFloat)
open Float.Model.UnpackedFloat (Sign)

/-- The parts of equal numbers. -/
inductive Alike : UnpackedFloat → UnpackedFloat → Prop where
  | zero (s t : Sign) : Alike (.zero s) (.zero t)
  | infinity (s : Sign) : Alike (.infinity s) (.infinity s)
  | finite (s : Sign) (m : Nat) (e : Int) (h h' : 0 < m) :
      Alike (.finite s m e h) (.finite s m e h')

theorem then_compare_eq_iff {m m' : Nat} {e e' : Int} :
    (compare e e').then (compare m m') = .eq ↔ e = e' ∧ m = m' := by
  rw [Ordering.then_eq_eq, Std.LawfulEqOrd.compare_eq_iff_eq,
    Std.LawfulEqOrd.compare_eq_iff_eq]

theorem alike_of_compare {a b : UnpackedFloat} (h : a.compare b = some .eq) :
    Alike a b := by
  match a, b with
  | .zero s, .zero t => exact .zero s t
  | .infinity .positive, .infinity .positive => exact .infinity _
  | .infinity .negative, .infinity .negative => exact .infinity _
  | .finite .positive m e hm, .finite .positive m' e' hm' =>
      obtain ⟨rfl, rfl⟩ := then_compare_eq_iff.mp (Option.some.inj h)
      exact .finite _ _ _ hm hm'
  | .finite .negative m e hm, .finite .negative m' e' hm' =>
      obtain ⟨rfl, rfl⟩ :=
        then_compare_eq_iff.mp (Ordering.swap_eq_eq.mp (Option.some.inj h))
      exact .finite _ _ _ hm hm'

theorem compare_of_alike {a b : UnpackedFloat} (h : Alike a b) :
    a.compare b = some .eq := by
  cases h with
  | zero s t => rfl
  | infinity s => cases s <;> rfl
  | finite s m e hm hm' =>
      cases s with
      | positive => exact congrArg some (then_compare_eq_iff.mpr ⟨rfl, rfl⟩)
      | negative =>
          exact congrArg some
            (Ordering.swap_eq_eq.mpr (then_compare_eq_iff.mpr ⟨rfl, rfl⟩))

theorem beq_iff_alike {x y : Float} :
    (x == y) = true ↔ Alike (parts x) (parts y) := by
  have h : (x == y) = ((parts x).compare (parts y) == some .eq) := rfl
  rw [h, beq_iff_eq]
  exact ⟨alike_of_compare, compare_of_alike⟩

theorem beq_symm {x y : Float} (h : (x == y) = true) : (y == x) = true := by
  rw [beq_iff_alike] at h ⊢
  generalize parts x = a at h
  generalize parts y = b at h
  cases h with
  | zero s t => exact .zero t s
  | infinity s => exact .infinity s
  | finite s m e hm hm' => exact .finite s m e hm' hm

theorem beq_trans {x y z : Float} (h : (x == y) = true) (h' : (y == z) = true) :
    (x == z) = true := by
  rw [beq_iff_alike] at h h' ⊢
  generalize parts x = a at h
  generalize parts y = b at h h'
  generalize parts z = c at h'
  cases h with
  | zero s t => cases h' with
    | zero _ u => exact .zero s u
  | infinity s => exact h'
  | finite s m e hm hm' => cases h' with
    | finite _ _ _ _ hm'' => exact .finite s m e hm hm''

theorem beq_self_iff {x : Float} : (x == x) = true ↔ x.isNaN = false := by
  have hx : x.isNaN = (parts x).isNaN := rfl
  rw [beq_iff_alike, hx]
  cases parts x with
  | notANumber => exact ⟨nofun, nofun⟩
  | zero s => exact ⟨fun _ => rfl, fun _ => .zero s s⟩
  | infinity s => exact ⟨fun _ => rfl, fun _ => .infinity s⟩
  | finite s m e hm => exact ⟨fun _ => rfl, fun _ => .finite s m e hm hm⟩

/-! ## What equal numbers share -/

theorem text_eq_of_beq {x y : Float} (h : (x == y) = true) :
    text x = text y := by
  have h := beq_iff_alike.mp h
  unfold text integer? display toInt?
  generalize parts x = a at h
  generalize parts y = b at h
  cases h <;> rfl

theorem toInt?_eq_of_beq {x y : Float} (h : (x == y) = true) :
    toInt? x = toInt? y := by
  have h := beq_iff_alike.mp h
  unfold toInt?
  generalize parts x = a at h
  generalize parts y = b at h
  cases h <;> rfl

theorem hash_eq_of_beq {x y : Float} (h : (x == y) = true) :
    hash x = hash y := by
  unfold hash
  rw [toInt?_eq_of_beq h, text_eq_of_beq h]

theorem isFinite_eq_of_beq {x y : Float} (h : (x == y) = true) :
    x.isFinite = y.isFinite := by
  have h := beq_iff_alike.mp h
  have hx : x.isFinite = (parts x).isFinite := rfl
  have hy : y.isFinite = (parts y).isFinite := rfl
  rw [hx, hy]
  generalize parts x = a at h
  generalize parts y = b at h
  cases h <;> rfl

end TinyLisp.Number
