import TinyLisp.Eval.Machine
import TinyLisp.Host.Standard
import TinyLisp.Proofs.Pattern.Effect

/-!
# Vector patterns bind by position

A pattern of vectors and symbols alone takes a value apart by counting. The
binder does not count: it walks along the pattern and along the items at two
speeds, since `:as` and `&` take two places in the pattern and none among the
items. What comes out is told here by indices.
-/

namespace TinyLisp.Pattern

/-- Patterns of vectors and symbols alone. In a vector there stand such
patterns, and `:as`. -/
inductive Sequential : Value → Prop where
  | name (n : String) (span : Option Span) : Sequential (.symbol n span)
  | vector {ps : Items Value} (span : Option Span)
      (h : ∀ q ∈ ps.toList, q ≠ .keyword "as" → Sequential q) :
      Sequential (.vector ps span)

section

variable {eval : Evaluate} {p q v u d : Value}

theorem Sequential.not_hasDefault (hp : Sequential p) : ¬ HasDefault p d := by
  induction hp with
  | name n span => exact not_hasDefault_of_leaf rfl
  | vector span _ ih =>
      intro h
      cases h with
      | here hp _ _ => cases hp
      | @part _ q _ hq h =>
          by_cases has : q = .keyword "as"
          · subst has
            exact not_hasDefault_of_leaf rfl h
          · exact ih q hq has h

/-- Behind `&`, and among items, no `:as` is a pattern. -/
theorem Sequential.of_mem_targets (hp : Sequential p)
    (hvalid : validate p = .ok ()) (hq : .pattern q ∈ targets p) :
    Sequential q := by
  cases hp with
  | name n span => simp [targets, shape] at hq
  | vector span h =>
      refine h q (mem_parts_of_mem_targets hq) fun has => ?_
      have hvalid := validate_of_mem_targets hvalid hq
      rw [has] at hvalid
      cases hvalid

theorem Sequential.of_meets (hp : Sequential p) (hvalid : validate p = .ok ())
    (h : Meets eval p v q u) : Sequential q := by
  have hboth : Sequential q ∧ validate q = .ok () := by
    refine h.of_parts (motive := fun q => Sequential q ∧ validate q = .ok ()) ?_
      ⟨hp, hvalid⟩
    exact fun q r hq hr =>
      ⟨hq.1.of_mem_targets hq.2 hr, validate_of_mem_targets hq.2 hr⟩
  exact hboth.1

theorem Sequential.fits_iff (hp : Sequential p) :
    Fits p v ↔ ∀ ps, shape p = .sequence ps →
      ∃ items, itemsOf v = .ok items := by
  cases hp with
  | name n span => exact ⟨fun _ _ h => (nomatch h), fun _ => trivial⟩
  | vector span _ => exact ⟨fun h _ _ => h, fun h => h _ rfl⟩

theorem Sequential.allFit_iff (hp : Sequential p)
    (hvalid : validate p = .ok ()) :
    AllFit eval p v ↔ ∀ q u ps, Meets eval p v q u → shape q = .sequence ps →
      ∃ items, itemsOf u = .ok items := by
  constructor
  · exact fun h q u ps hmeets =>
      (hp.of_meets hvalid hmeets).fits_iff.mp (h q u hmeets) ps
  · exact fun h q u hmeets => (hp.of_meets hvalid hmeets).fits_iff.mpr fun ps =>
      h q u ps hmeets

end

/-- Binding a pattern of vectors and symbols succeeds if every vector in it
meets a list, a vector or `nil`, and fails otherwise. If it succeeds, a symbol
is bound to what it meets; an element of a vector that stands behind `positions
before` items meets the item with this index, or `nil` where there is none, and
behind `&` it meets the vector of the items from there on; `:as` is bound to
what the vector meets. Nothing else is changed. -/
theorem bind_by_position (eval : Evaluate) {p : Value} (hp : Sequential p)
    (hvalid : validate p = .ok ()) (hdistinct : (boundNames p).Nodup)
    {scope : Scope} {s : Store} (hs : scope.here < s.frames.size) (v : Value) :
    ((∃ t, bind eval p v scope s = .result () t) ↔
      ∀ q u ps, Meets eval p v q u → shape q = .sequence ps →
        ∃ items, itemsOf u = .ok items) ∧
    ((∃ e t, bind eval p v scope s = .failure e t) ↔
      ¬ ∃ t, bind eval p v scope s = .result () t) ∧
    ∀ t, bind eval p v scope s = .result () t →
      (∀ q u name, Meets eval p v q u → shape q = .name name →
        t.lookup scope name = some u) ∧
      (∀ q u ps items, Meets eval p v q u → shape q = .sequence ps →
        itemsOf u = .ok items →
        ∀ before e after, elements ps = before ++ e :: after →
          match e with
          | .item r => Meets eval p v r (items[positions before]?.getD .nil)
          | .rest r =>
              Meets eval p v r (.vectorOf (items.drop (positions before)))
          | .whole name => t.lookup scope name = some u) ∧
      t.heap = s.heap ∧
      ∀ f name, (f = scope.here → name ∉ boundNames p) →
        t.binding f name = s.binding f name := by
  have hrun := (binder_bind eval scope p).realizes hvalid
    (fun d hd => absurd hd hp.not_hasDefault) v
  refine ⟨(hrun.succeeds_iff s).trans (hp.allFit_iff hvalid), ?_,
    fun t ht => ⟨?_, ?_, ?_, ?_⟩⟩
  · rw [hrun.succeeds_iff, hrun.fails_iff]
  · intro q u name hmeets hq
    exact Store.lookup_of_binding
      (hrun.binding_eq ht hs hdistinct ⟨q, u, hmeets, .name hq⟩)
  · intro q u ps items hmeets hq hu before e after he
    have hgives : Gives eval q u e.target
        (e.value u items (positions before)) := .element hq hu he
    cases e with
    | item r => exact hmeets.tail hgives
    | rest r => exact hmeets.tail hgives
    | whole name =>
        exact Store.lookup_of_binding
          (hrun.binding_eq ht hs hdistinct ⟨q, u, hmeets, hgives⟩)
  · exact hrun.heap_eq ht
  · exact fun f name hne => hrun.binding_of_ne ht hne

/-- The pattern is `[a :as w [b & [c]] & r]`; inside, it meets `nil`. -/
theorem bind_by_position_nested :
    let eval := Machine.eval Host.standard .deferring 2
    let last : Value := .vectorOf [.symbol "c" none]
    let inner : Value := .vectorOf [.symbol "b" none, .symbol "&" none, last]
    let p : Value :=
      .vectorOf [.symbol "a" none, .keyword "as", .symbol "w" none, inner,
        .symbol "&" none, .symbol "r" none]
    let v : Value := .list [.bool true, .nil, .bool false] none
    let root : Scope := ⟨0, []⟩
    let s : Store := { frames := #[[]] }
    (Sequential p ∧ validate p = .ok () ∧ (boundNames p).Nodup ∧
      root.here < s.frames.size) ∧
      (∃ t, bind eval p v root s = .result () t ∧
        t.lookup root "a" = some (.bool true) ∧
        t.lookup root "w" = some v ∧ t.lookup root "c" = some .nil ∧
        t.lookup root "r" = some (.vectorOf [.bool false])) ∧
      ∃ e t, bind eval p (.vectorOf [.nil, .bool true]) root s =
        .failure e t := by
  intro eval last inner p v root s
  have hnamed (n : String) : Sequential (.symbol n none) := .name n none
  have hlast : Sequential last := .vector none (by simp [hnamed])
  have hinner : Sequential inner := .vector none (by simp [hnamed, hlast])
  have hp : Sequential p := .vector none (by simp [hnamed, hinner])
  have hvalid : validate p = .ok () := rfl
  have hdistinct : (boundNames p).Nodup := by
    simp [p, inner, last, Value.vectorOf, boundNames_eq, targets, shape, elements,
      Value.isSymbol, Value.isKeyword, Element.target, Target.boundNames]
  have hs : root.here < s.frames.size := Nat.zero_lt_one
  refine ⟨⟨hp, hvalid, hdistinct, hs⟩, ?_, ?_⟩
  · obtain ⟨t, ht⟩ : ∃ t, bind eval p v root s = .result () t := ⟨_, rfl⟩
    obtain ⟨hname, helement, -, -⟩ :=
      (bind_by_position eval hp hvalid hdistinct hs v).2.2 t ht
    have hat := helement p v _ _ .refl rfl rfl
    have hinnerNil : Meets eval p v inner .nil :=
      hat [.item (.symbol "a" none), .whole "w"] (.item inner) _ rfl
    have hatInner := helement inner .nil _ _ hinnerNil rfl rfl
    have hlastEmpty : Meets eval p v last (.vectorOf []) :=
      hatInner [.item (.symbol "b" none)] (.rest last) [] rfl
    have hatLast := helement last (.vectorOf []) _ _ hlastEmpty rfl rfl
    refine ⟨t, ht, ?_, ?_, ?_, ?_⟩
    · exact hname _ _ "a" (hat [] (.item (.symbol "a" none)) _ rfl) rfl
    · exact hat [.item (.symbol "a" none)] (.whole "w") _ rfl
    · exact hname _ _ "c" (hatLast [] (.item (.symbol "c" none)) [] rfl) rfl
    · have hrest := hat [.item (.symbol "a" none), .whole "w", .item inner]
        (.rest (.symbol "r" none)) [] rfl
      exact hname _ _ "r" hrest rfl
  · obtain ⟨hsucceeds, hfails, -⟩ :=
      bind_by_position eval hp hvalid hdistinct hs (.vectorOf [.nil, .bool true])
    have hgives : Gives eval p (.vectorOf [.nil, .bool true]) (.pattern inner)
        (.bool true) :=
      @Gives.element _ _ _ _ [.nil, .bool true] [.item (.symbol "a" none),
        .whole "w"] _ (.item inner) rfl rfl rfl
    rw [hfails, hsucceeds]
    intro hfit
    obtain ⟨items, hitems⟩ := hfit inner (.bool true) _ (.single hgives) rfl
    cases hitems

end TinyLisp.Pattern
