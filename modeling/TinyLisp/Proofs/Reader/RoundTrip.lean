import TinyLisp.Engine
import TinyLisp.Proofs.Eval.Literal
import TinyLisp.Proofs.Reader.Atom
import TinyLisp.Proofs.Reader.Basic

/-!
# Printing and reading

The readable text of a literal is one form, and that form is a copy of the
literal. The induction follows the literal: its text falls into tokens whatever
stands behind it, and those tokens are one form whatever is open in front of
them. What is known of copies says the rest.
-/

namespace TinyLisp

open Lexer (IsAtom LexesTo)
open Reader (Delivers classify)
open Value (Copy Literal Inert inRow)

namespace Reader

/-- The text of a value, from wherever it starts, is one form, which is a copy
of the value. -/
def Spells (text : List Char) (v : Value) : Prop :=
  ∀ file p, ∃ ts, LexesTo file p text ts ∧ ∃ form, Delivers ts form ∧ Copy v form

theorem spells_atom {text : String} {v : Value} (hatom : IsAtom text.toList)
    (hcopy : ∀ span, Copy v (classify text span)) : Spells text.toList v := by
  intro file p
  refine ⟨_, hatom.lexesTo file p, _, delivers_atom _ _, ?_⟩
  rw [String.ofList_toList]
  exact hcopy _

/-- The texts of several values with spaces between them. -/
theorem spells_spaced {xs : List Value} {text : Value → List Char}
    (h : ∀ x ∈ xs, Spells (text x) x) (file : String) (p : Position) :
    ∃ tss forms, LexesTo file p ([' '].intercalate (xs.map text)) tss.flatten ∧
      List.Forall₂ Delivers tss forms ∧ List.Forall₂ Copy xs forms := by
  obtain ⟨tss, htss, hforms⟩ := Lexer.lexesTo_spaced (fun x hx => h x hx file) p
  obtain ⟨forms, hcopies, hdelivers⟩ :=
      Value.exists_parallel hforms fun x _ ts hts => by
        obtain ⟨form, hd, hc⟩ := hts
        exact ⟨form, hc, hd⟩
  exact ⟨tss, forms, htss, hdelivers, hcopies⟩

theorem toList_bracketed_render (b : Bracket) (cells : Array Value)
    (xs : List Value) :
    (Value.bracketed (String.singleton b.opener)
      (Value.spaced (xs.map (Value.render cells true)))
      (String.singleton b.closer)).toList =
      b.opener ::
        ([' '].intercalate (xs.map fun x => (x.render cells true).toList)
        ++ [b.closer]) := by
  rw [Value.toList_bracketed, List.map_map]
  rfl

theorem spells_literal {v : Value} (hv : Literal v) (cells : Array Value) :
    Spells (v.render cells true).toList v := by
  induction hv with
  | nil =>
      rw [Value.render_of_leafText cells true rfl]
      exact spells_atom (Lexer.isAtom_of_all rfl rfl) fun _ => .nil
  | bool b =>
      rw [Value.render_of_leafText cells true rfl]
      cases b with
      | true =>
          exact spells_atom (Lexer.isAtom_of_all rfl rfl) fun _ => .bool true
      | false =>
          exact spells_atom (Lexer.isAtom_of_all rfl rfl) fun _ => .bool false
  | number hx hread =>
      rw [Value.render_of_leafText cells true rfl]
      obtain ⟨y, hy, hyx⟩ := Number.exists_readDecimal_text hx hread
      obtain ⟨hatom, hclass⟩ :=
        number_of_readDecimal hy (by rw [Number.isFinite_eq_of_beq hyx, hx])
      refine spells_atom hatom fun span => ?_
      rw [hclass]
      exact .number hyx
  | string s =>
      rw [Value.render_of_leafText cells true rfl]
      exact fun file p =>
        ⟨_, Lexer.lexesTo_encode s file p, _, delivers_string .., .string s⟩
  | symbol s h =>
      rw [Value.render_of_leafText cells true rfl]
      obtain ⟨place, htokens, hclass⟩ := h
      refine spells_atom (Lexer.isAtom_of_tokenize htokens) fun span => ?_
      rw [classify_symbol hclass]
      exact .symbol ..
  | keyword h =>
      rw [Value.render_of_leafText cells true rfl]
      obtain ⟨place, htokens, hclass⟩ := h
      refine spells_atom (Lexer.isAtom_of_tokenize htokens) fun span => ?_
      rw [classify_keyword hclass]
      exact .keyword ..
  | list s _ ih =>
      rw [Value.render_list]
      intro file p
      obtain ⟨tss, forms, htss, hdelivers, hcopies⟩ :=
        spells_spaced ih file (p.advance Bracket.round.opener)
      obtain ⟨opener, closer, ho, hc, hlex⟩ := htss.bracketed .round
      rw [← toList_bracketed_render] at hlex
      exact ⟨_, hlex, _, delivers_list hdelivers ho hc, .list s _ hcopies⟩
  | vector s _ ih =>
      rw [Value.render_vector]
      intro file p
      obtain ⟨tss, forms, htss, hdelivers, hcopies⟩ :=
        spells_spaced ih file (p.advance Bracket.square.opener)
      obtain ⟨opener, closer, ho, hc, hlex⟩ := htss.bracketed .square
      rw [← toList_bracketed_render] at hlex
      exact ⟨_, hlex, _, delivers_vector hdelivers ho hc, .vector s _ hcopies⟩
  | map s hm _ ih =>
      rw [Value.render_map]
      intro file p
      obtain ⟨tss, forms, htss, hdelivers, hcopies⟩ :=
        spells_spaced ih file (p.advance Bracket.curly.opener)
      obtain ⟨opener, closer, ho, hc, hlex⟩ := htss.bracketed .curly
      rw [← toList_bracketed_render] at hlex
      obtain ⟨ps, rfl⟩ := Value.exists_inRow hcopies
      exact ⟨_, hlex, _, delivers_mapForm hdelivers ho hc, .mapForm s _ hcopies⟩

/-- A text that spells a value is the text of one form. -/
theorem exists_program {text : String} {v : Value} (h : Spells text.toList v)
    (file : String) :
    ∃ ts form, tokenize text file = .ok ts ∧
      Program.ofTokens ts = ⟨[form], none⟩ ∧
      Copy v form := by
  obtain ⟨ts, hlex, form, hdelivers, hcopy⟩ := h file .origin
  refine ⟨ts, form, ?_, ofTokens_of_delivers hdelivers, hcopy⟩
  have htokens := hlex [] Lexer.endsAtom_nil
  rw [List.append_nil, Lexer.tokensFrom_nil] at htokens
  rw [tokenize, htokens]
  exact congrArg Except.ok (List.append_nil ts)

/-- The readable text of a literal is read as one form, which is equal to the
literal and, as data, has the same text. If neither a symbol nor a list stands
in it, the form evaluates in every scope and store, with no effect, to a value
that is equal to the literal and has the same text. -/
theorem read_render {v : Value} (hv : Literal v) (cells : Array Value)
    (file : String) :
    ∃ form, readAll (v.render cells true) file = .ok [form] ∧
      readFirst (v.render cells true) file = .ok (some form) ∧
      (form == v) = true ∧
      (∀ cells', form.toData.render cells' true = v.render cells true) ∧
      (Inert v → ∃ w, (w == v) = true ∧
        (∀ cells', w.render cells' true = v.render cells true) ∧
        ∀ host scope s n, 2 * form.depth ≤ n →
          Machine.eval host .deferring n form scope s = .result w s) := by
  obtain ⟨ts, form, htokens, hprogram, hcopy⟩ :=
    exists_program (spells_literal hv cells) file
  refine ⟨form, ?_, ?_, (hcopy.equals hv).2, fun cells' => ?_, fun hinert => ?_⟩
  · rw [readAll, htokens]
    dsimp only
    rw [hprogram]
    rfl
  · rw [readFirst, htokens]
    dsimp only
    rw [hprogram]
    rfl
  · exact (hcopy.toData hv).render hv cells cells' true
  · obtain ⟨w, hw, hdenotes⟩ := Machine.exists_denotes hv hinert hcopy
    refine ⟨w, (hw.equals hv).2, fun cells' => hw.render hv cells cells' true, ?_⟩
    intro host scope s n hn
    exact hdenotes host .deferring n hn scope s

/-- The number `1` and the empty vector have the same hash, and a third key has
come and gone. Of the numbers, only `0.1` is not written as an integer. -/
theorem read_render_collision :
    let m : HashTrie Value Value :=
      (((HashTrie.empty.insert (.vectorOf []) (.string "a\"\n")).insert
        (.number 1) .nil).insert (.string "gone") .nil).erase (.string "gone")
    let v : Value :=
      .vectorOf [.map m none, .number (-0.0), .number (-250), .number 0.1,
        .keyword "k"]
    v.render #[] true = "[\x7b[] \"a\\\"\\n\" 1 nil\x7d 0 -250 0.1 :k]" ∧
      ∃ form w, readAll (v.render #[] true) "" = .ok [form] ∧
        (form == v) = true ∧
        (w == v) = true ∧ w.render #[] true = v.render #[] true ∧
        ∀ host scope s n, 2 * form.depth ≤ n →
          Machine.eval host .deferring n form scope s = .result w s := by
  intro m v
  have hm : HashTrie.BuiltFrom Value.Built Value.Built m := by
    refine .erase (.insert (.insert (.insert .empty ?_ ?_) ?_ ?_) ?_ ?_) ?_
    · exact .items rfl nofun
    all_goals exact .leaf rfl rfl
  have hentries : inRow m.entries =
      [.vectorOf [], .string "a\"\n", .number 1, .nil] := rfl
  have hv : Literal v := by
    refine .vector none ?_
    show ∀ x ∈ [.map m none, .number (-0.0), .number (-250), .number 0.1,
      .keyword "k"], Literal x
    simp only [List.forall_mem_cons, List.not_mem_nil, false_implies,
      implies_true, and_true]
    refine ⟨.map none hm ?_, .number rfl nofun, .number rfl nofun,
      .number rfl fun _ => ⟨0.1, rfl, rfl⟩, .keyword ?_⟩
    · rw [hentries]
      simp only [List.forall_mem_cons, List.not_mem_nil, false_implies,
        implies_true, and_true]
      exact ⟨.vector none nofun, .string _, .number rfl nofun, .nil⟩
    · exact ⟨⟨"", ⟨1, 1, 0⟩, ⟨1, 3, 2⟩⟩, by decide +kernel, rfl⟩
  have hinert : Inert v := by
    refine Value.inert_vector none ?_
    show ∀ x ∈ [.map m none, .number (-0.0), .number (-250), .number 0.1,
      .keyword "k"], Inert x
    simp only [List.forall_mem_cons, List.not_mem_nil, false_implies,
      implies_true, and_true]
    refine ⟨Value.inert_map none ?_, Value.inert_leaf rfl rfl rfl,
      Value.inert_leaf rfl rfl rfl, Value.inert_leaf rfl rfl rfl,
      Value.inert_leaf rfl rfl rfl⟩
    rw [hentries]
    simp only [List.forall_mem_cons, List.not_mem_nil, false_implies,
      implies_true, and_true]
    exact ⟨Value.inert_vector none nofun, Value.inert_leaf rfl rfl rfl,
      Value.inert_leaf rfl rfl rfl, Value.inert_leaf rfl rfl rfl⟩
  obtain ⟨form, hread, _, hform, _, heval⟩ := read_render hv #[] ""
  obtain ⟨w, hw, hrender, hresult⟩ := heval hinert
  exact ⟨by decide, form, w, hread, hform, hw, hrender #[], hresult⟩

end Reader

end TinyLisp
