import TinyLisp.Proofs.Value.Depth
import TinyLisp.Token.Basic
import TinyLisp.Value.Render

/-!
# What texts are made of

Rendering runs on a budget too, and here as well any budget that covers the
depth gives the same text. So the text of a sequence or a map is made of the
texts of its parts, and on characters it is an opening bracket, those texts with
spaces between them, and a closing bracket.
-/

namespace TinyLisp.Value

/-- The keys and values of entries in the order they are written. -/
def inRow (es : List (Value × Value)) : List Value :=
  es.flatMap fun e => [e.1, e.2]

theorem inRow_cons (e : Value × Value) (es : List (Value × Value)) :
    inRow (e :: es) = e.1 :: e.2 :: inRow es := rfl

theorem alternating_eq (text : Value → String) (es : List (Value × Value)) :
    alternating text es = (inRow es).map text := by
  rw [alternating, inRow, List.map_flatMap]
  rfl

theorem mem_inRow {x : Value} {es : List (Value × Value)} :
    x ∈ inRow es ↔ ∃ e ∈ es, x = e.1 ∨ x = e.2 := by
  rw [inRow, List.mem_flatMap]
  refine exists_congr fun e => and_congr_right fun _ => ?_
  rw [List.mem_cons, List.mem_singleton]

theorem depth_le_of_mem_inRow {x : Value} {es : List (Value × Value)} {n : Nat}
    (h : ∀ e ∈ es, e.1.depth ≤ n ∧ e.2.depth ≤ n) (hx : x ∈ inRow es) :
    x.depth ≤ n := by
  obtain ⟨e, he, rfl | rfl⟩ := mem_inRow.mp hx
  · exact (h e he).1
  · exact (h e he).2

/-! ## Budgets -/

theorem renderWithin_congr {cellText : Bool → CellId → String} {n m : Nat}
    {readable : Bool} {v : Value} (hn : v.depth ≤ n) (hm : v.depth ≤ m) :
    renderWithin cellText n readable v = renderWithin cellText m readable v := by
  induction n generalizing m v readable with
  | zero => have := depth_pos v; omega
  | succ n ih =>
      have := depth_pos v
      obtain ⟨m, rfl⟩ : ∃ k, m = k + 1 := ⟨m - 1, by omega⟩
      have hparts {xs : List Value} (h : ∀ x ∈ xs, x.depth + 1 ≤ v.depth) :
          xs.map (renderWithin cellText n readable) =
            xs.map (renderWithin cellText m readable) := by
        refine List.map_congr_left fun x hx => ih ?_ ?_
        · have := h x hx; omega
        · have := h x hx; omega
      cases v with
      | list xs s =>
          rw [renderWithin, renderWithin, hparts fun x hx =>
            depth_lt_of_mem_items rfl hx]
      | vector xs s =>
          rw [renderWithin, renderWithin, hparts fun x hx =>
            depth_lt_of_mem_items rfl hx]
      | map es s =>
          rw [renderWithin, renderWithin, alternating_eq, alternating_eq,
            hparts fun x hx => Nat.succ_le_succ
              (depth_le_of_mem_inRow (fun e => depth_le_depthTrie) hx)]
      | mapForm ps s =>
          rw [renderWithin, renderWithin, alternating_eq, alternating_eq,
            hparts fun x hx => Nat.succ_le_succ
              (depth_le_of_mem_inRow (fun e => depth_le_depthPairs) hx)]
      | closure kind name params body scope id =>
          rw [depth] at hn hm
          have hparams :
              renderWithin cellText n true params =
                renderWithin cellText m true params :=
            ih (by omega) (by omega)
          cases kind with
          | function => rw [renderWithin, renderWithin, hparams]
          | expander => rw [renderWithin, renderWithin, hparams]
      | _ => rfl

/-- The cells enter into a text only through the atoms in it. -/
theorem render_eq_within (cells : Array Value) :
    ∃ cellText : Bool → CellId → String,
    ∀ readable v, render cells readable v =
      renderWithin cellText (depth v) readable v := by
  unfold render
  cases cells.size with
  | zero => exact ⟨_, fun _ _ => rfl⟩
  | succ n => exact ⟨_, fun _ _ => rfl⟩

/-! ## Equations -/

section

variable (cells : Array Value) (readable : Bool)

/-- The text of a value that has no parts and can be written down. -/
def leafText? : Value → Option String
  | nil => some "nil"
  | bool b => some (if b then "true" else "false")
  | number x => some (Number.text x)
  | string s => some (if readable then Text.Quoted.encode s else s)
  | symbol name _ => some name
  | keyword name => some (":" ++ name)
  | _ => none

theorem render_of_leafText {v : Value} {t : String}
    (h : v.leafText? readable = some t) : v.render cells readable = t := by
  obtain ⟨cellText, hc⟩ := render_eq_within cells
  rw [hc]
  cases v with
  | nil => exact Option.some.inj h
  | bool b => exact Option.some.inj h
  | number x => exact Option.some.inj h
  | string s => exact Option.some.inj h
  | symbol name s => exact Option.some.inj h
  | keyword name => exact Option.some.inj h
  | _ => cases h

theorem map_render {cellText : Bool → CellId → String}
    (hc : ∀ readable v,
      render cells readable v = renderWithin cellText (depth v) readable v)
    {xs : List Value} {n : Nat} (h : ∀ x ∈ xs, x.depth ≤ n) :
    xs.map (renderWithin cellText n readable) =
      xs.map (render cells readable) := by
  refine List.map_congr_left fun x hx => ?_
  rw [hc]
  exact renderWithin_congr (h x hx) (Nat.le_refl _)

theorem render_list (xs : List Value) (s : Option Span) :
    (list xs s).render cells readable =
      bracketed "(" (spaced (xs.map (render cells readable))) ")" := by
  obtain ⟨cellText, hc⟩ := render_eq_within cells
  rw [hc, depth, renderWithin, map_render cells readable hc fun x =>
    depth_le_depthAll]

theorem render_vector (xs : Items Value) (s : Option Span) :
    (vector xs s).render cells readable =
      bracketed "[" (spaced (xs.toList.map (render cells readable))) "]" := by
  obtain ⟨cellText, hc⟩ := render_eq_within cells
  rw [hc, depth, renderWithin, map_render cells readable hc fun x =>
    depth_le_depthItems]

theorem render_map (m : HashTrie Value Value) (s : Option Span) :
    (map m s).render cells readable =
      bracketed "\x7b" (spaced ((inRow m.entries).map (render cells readable)))
        "\x7d" := by
  obtain ⟨cellText, hc⟩ := render_eq_within cells
  rw [hc, depth, renderWithin, alternating_eq,
    map_render cells readable hc fun x =>
      depth_le_of_mem_inRow fun e => depth_le_depthTrie]

theorem render_mapForm (ps : List (Value × Value)) (s : Option Span) :
    (mapForm ps s).render cells readable =
      bracketed "\x7b" (spaced ((inRow ps).map (render cells readable)))
        "\x7d" := by
  obtain ⟨cellText, hc⟩ := render_eq_within cells
  rw [hc, depth, renderWithin, alternating_eq,
    map_render cells readable hc fun x =>
      depth_le_of_mem_inRow fun e => depth_le_depthPairs]

end

/-! ## Characters -/

theorem toList_bracketed (b : Bracket) (parts : List String) :
    (bracketed (String.singleton b.opener) (spaced parts)
      (String.singleton b.closer)).toList =
        b.opener :: ([' '].intercalate (parts.map String.toList) ++
          [b.closer]) := by
  rw [bracketed, spaced, String.toList_append, String.toList_append,
    String.toList_intercalate]
  simp

end TinyLisp.Value
