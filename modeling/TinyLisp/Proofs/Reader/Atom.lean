import TinyLisp.Proofs.Number.Whole
import TinyLisp.Proofs.Token.Lexer
import TinyLisp.Reader.Atom

/-!
# Atoms that are numbers

Whatever can be read as a decimal consists of characters that continue an atom
and starts the way a number has to, so where the text of a number reads back at
all it is one atom, and the reader takes it for a number. Integers do read back.
Of the plain texts that other numbers have, nothing needs to be known but this.

What an atom is does not depend on where it stands; only a symbol
remembers its place.
-/

namespace TinyLisp

namespace Number

/-- The characters of decimal numbers. -/
def isNumeric (c : Char) : Bool :=
  c.isDigit || ['+', '-', '.', 'e', 'E'].contains c

theorem isNumeric_of_isDigit {c : Char} (h : c.isDigit = true) :
    isNumeric c = true := by
  rw [isNumeric, h, Bool.true_or]

theorem splitSign_cases (cs : List Char) :
    splitSign cs = (false, cs) ∨
      ∃ c ds negative, cs = c :: ds ∧ isNumeric c = true ∧
      splitSign cs = (negative, ds) := by
  unfold splitSign
  split
  · next ds => exact .inr ⟨'-', ds, true, rfl, rfl, rfl⟩
  · next ds => exact .inr ⟨'+', ds, false, rfl, rfl, rfl⟩
  · exact .inl rfl

theorem numeric_of_splitSign {cs : List Char}
    (h : ∀ c ∈ (splitSign cs).2, isNumeric c = true) :
    ∀ c ∈ cs, isNumeric c = true := by
  rcases splitSign_cases cs with hs | ⟨d, ds, negative, rfl, hd, hs⟩
  · rw [hs] at h
    exact h
  · rw [hs] at h
    intro c hc
    rcases List.mem_cons.mp hc with rfl | hc
    · exact hd
    · exact h c hc

theorem numeric_of_readExponent {cs : List Char} {e : Int}
    (h : readExponent cs = some e) : ∀ c ∈ cs, isNumeric c = true := by
  cases cs with
  | nil => exact nofun
  | cons c cs =>
      rw [readExponent] at h
      split at h
      · next hc =>
          dsimp only at h
          split at h
          · cases h
          · next hdigits =>
              rw [Bool.or_eq_true, not_or, Bool.not_eq_true',
                Bool.not_eq_false] at hdigits
              have hall := List.all_eq_true.mp hdigits.2
              intro d hd
              rcases List.mem_cons.mp hd with rfl | hd
              · rcases hc with rfl | rfl <;> rfl
              · exact numeric_of_splitSign
                  (fun c hc => isNumeric_of_isDigit (hall c hc)) d hd
      · cases h

theorem splitFraction_cases (cs : List Char) :
    splitFraction cs = ([], cs) ∨
      ∃ fraction rest, cs = '.' :: (fraction ++ rest) ∧
      (∀ c ∈ fraction, c.isDigit = true) ∧
        splitFraction cs = (fraction, rest) := by
  unfold splitFraction
  split
  · next ds =>
      refine .inr ⟨ds.takeWhile Char.isDigit, ds.dropWhile Char.isDigit, ?_,
        fun c hc => ?_, rfl⟩
      · rw [List.takeWhile_append_dropWhile]
      · exact List.all_eq_true.mp List.all_takeWhile c hc
  · exact .inl rfl

/-- What reads as an unsigned decimal consists of the characters of one, and
starts with a digit or a point. -/
theorem numeric_of_readUnsigned {cs : List Char} {x : Float}
    (h : readUnsigned cs = some x) :
    (∀ c ∈ cs, isNumeric c = true) ∧
      ∃ c ds, cs = c :: ds ∧ (c.isDigit || c == '.') = true := by
  have hwhole : ∀ c ∈ cs.takeWhile Char.isDigit, c.isDigit = true :=
    List.all_eq_true.mp List.all_takeWhile
  have hcut := List.takeWhile_append_dropWhile (p := Char.isDigit) (l := cs)
  unfold readUnsigned at h
  generalize cs.takeWhile Char.isDigit = whole at h hwhole hcut
  generalize cs.dropWhile Char.isDigit = after at h hcut
  subst hcut
  dsimp only at h
  split at h
  · cases h
  · next hsome =>
      obtain ⟨e, he, -⟩ := Option.map_eq_some_iff.mp h
      have hrest := numeric_of_readExponent he
      rcases splitFraction_cases after with hs
        | ⟨fraction, rest, rfl, hfraction, hs⟩
      · rw [hs] at hsome hrest
        refine ⟨fun c hc => ?_, ?_⟩
        · rcases List.mem_append.mp hc with hc | hc
          · exact isNumeric_of_isDigit (hwhole c hc)
          · exact hrest c hc
        · cases whole with
          | nil => exact absurd rfl hsome
          | cons c whole =>
              exact ⟨c, _, rfl, by rw [hwhole c List.mem_cons_self, Bool.true_or]⟩
      · rw [hs] at hrest
        refine ⟨fun c hc => ?_, ?_⟩
        · rcases List.mem_append.mp hc with hc | hc
          · exact isNumeric_of_isDigit (hwhole c hc)
          · rcases List.mem_cons.mp hc with rfl | hc
            · rfl
            · rcases List.mem_append.mp hc with hc | hc
              · exact isNumeric_of_isDigit (hfraction c hc)
              · exact hrest c hc
        · cases whole with
          | nil => exact ⟨'.', _, rfl, rfl⟩
          | cons c whole =>
              exact ⟨c, _, rfl, by rw [hwhole c List.mem_cons_self, Bool.true_or]⟩

theorem numeric_of_readDecimal {cs : List Char} {x : Float}
    (h : readDecimal cs = some x) :
    (∀ c ∈ cs, isNumeric c = true) ∧ Reader.startsLikeNumber cs = true := by
  obtain ⟨y, hy, -⟩ := Option.map_eq_some_iff.mp h
  have hy : readUnsigned (splitSign cs).2 = some y := hy
  obtain ⟨hall, c, ds, hcs, hc⟩ := numeric_of_readUnsigned hy
  refine ⟨numeric_of_splitSign hall, ?_⟩
  unfold Reader.startsLikeNumber
  rw [hcs]
  exact hc

/-- A finite number is read as a decimal, since the names of special numbers
stand for others. -/
theorem readDecimal_of_read {s : String} {x y : Float} (h : read s = some y)
    (hx : x.isFinite = true) (hyx : (y == x) = true) :
    readDecimal s.toList = some y := by
  unfold read at h
  dsimp only at h
  split at h
  · next z hz =>
      have hy : y.isFinite = true := by rw [isFinite_eq_of_beq hyx, hx]
      have hz : z = nan ∨ z = infinity := by
        unfold ofName at hz
        split at hz
        · exact .inl (Option.some.inj hz).symm
        · split at hz
          · exact .inr (Option.some.inj hz).symm
          · cases hz
      exfalso
      obtain rfl := Option.some.inj h
      revert hy
      cases (splitSign s.toList).1 <;> rcases hz with rfl | rfl <;> decide
  · exact h

/-- The text of a number reads back if the plain text does, wherever
it is used. -/
theorem exists_readDecimal_text {x : Float} (hx : x.isFinite = true)
    (hread : integer? x = none →
      ∃ y, read (display x) = some y ∧ (y == x) = true) :
    ∃ y, readDecimal (text x).toList = some y ∧ (y == x) = true := by
  rw [text_of_isFinite hx]
  cases hn : integer? x with
  | some n => exact exists_readDecimal_of_integer? hn
  | none =>
      obtain ⟨y, hy, hyx⟩ := hread hn
      exact ⟨y, readDecimal_of_read hy hx hyx, hyx⟩

end Number

namespace Lexer

theorem inAtom_of_isDigit {c : Char} (h : c.isDigit = true) :
    inAtom c = true := by
  have hall : ∀ n < 10, inAtom (Char.ofNat (48 + n)) = true := by decide
  have hrange : 48 ≤ c.toNat ∧ c.toNat ≤ 57 := Char.isDigit_iff_toNat.mp h
  have hc := hall (c.toNat - 48) (by omega)
  rwa [show 48 + (c.toNat - 48) = c.toNat by omega, Char.ofNat_toNat] at hc

theorem inAtom_of_isNumeric {c : Char} (h : Number.isNumeric c = true) :
    inAtom c = true := by
  rw [Number.isNumeric, Bool.or_eq_true, List.contains_iff_mem] at h
  rcases h with h | h
  · exact inAtom_of_isDigit h
  · simp only [List.mem_cons, List.not_mem_nil, or_false] at h
    rcases h with rfl | rfl | rfl | rfl | rfl <;> rfl

theorem isAtom_of_numeric {cs : List Char} (hne : cs ≠ [])
    (h : ∀ c ∈ cs, Number.isNumeric c = true) : IsAtom cs := by
  refine ⟨hne, fun c hc => inAtom_of_isNumeric (h c hc), fun c hc => ?_⟩
  have hnum := h c (List.mem_of_mem_head? hc)
  constructor
  · rintro rfl
    cases hnum
  · rintro rfl
    cases hnum

end Lexer

namespace Reader

/-- What reads as a finite decimal is an atom, and the reader takes it
for a number. -/
theorem number_of_readDecimal {text : String} {y : Float}
    (hdecimal : Number.readDecimal text.toList = some y)
    (hfinite : y.isFinite = true) :
    Lexer.IsAtom text.toList ∧ ∀ span, classify text span = .number y := by
  obtain ⟨hnumeric, hstart⟩ := Number.numeric_of_readDecimal hdecimal
  have hne : text.toList ≠ [] := by
    intro hnil
    rw [hnil] at hstart
    cases hstart
  -- A colon in front would make it a keyword, but no number has one.
  have hlead : Value.afterLead? ":" text = none := by
    refine if_neg fun hcolon => ?_
    rw [Bool.and_eq_true, List.isPrefixOf_iff_prefix] at hcolon
    have hmem : ':' ∈ text.toList := hcolon.1.subset List.mem_cons_self
    cases hnumeric ':' hmem
  refine ⟨Lexer.isAtom_of_numeric hne hnumeric, fun span => ?_⟩
  have hnumber : atomNumber? text = some y := by
    rw [atomNumber?, if_pos hstart, hdecimal, Option.filter_some, if_pos hfinite]
  rw [classify, hlead, hnumber]

theorem classify_symbol {name : String} {place : Span}
    (h : classify name place = .symbol name (some place)) (span : Span) :
    classify name span = .symbol name (some span) := by
  unfold classify at h ⊢
  split at h
  · cases h
  · split at h
    · cases h
    · split at h
      · cases h
      · next htrue =>
          split at h
          · cases h
          · next hfalse =>
              split at h
              · cases h
              · next hnil => rw [if_neg htrue, if_neg hfalse, if_neg hnil]

theorem classify_keyword {text name : String} {place : Span}
    (h : classify text place = .keyword name) (span : Span) :
    classify text span = .keyword name := by
  unfold classify at h ⊢
  split at h
  · exact h
  · split at h
    · cases h
    · repeat' split at h
      all_goals cases h

end Reader

end TinyLisp
