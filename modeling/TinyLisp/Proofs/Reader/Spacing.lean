import TinyLisp.Proofs.Reader.Places
import TinyLisp.Proofs.Token.Layout

/-!
# Layout does not matter

A bracket, a mark and a string are read alike whatever stands behind them, and
behind an atom stands something that ends atoms. A space does so, too. Hence
the texts of the tokens of a source, written with single spaces between them,
fall into the same tokens again: the blanks and comments that are left out
stood between tokens.

These tokens stand at other places, and the reader makes the same forms of them,
or fails with the same fault. Each place that it takes over from the one text
reaches over the same tokens as its counterpart in the other.
-/

namespace TinyLisp

/-! ## Places over the same tokens -/

/-- The first place reaches from one of the tokens to another, and the second
from the counterpart of the one to that of the other. -/
def Span.SameReach (ts ts' : List Token) (a b : Span) : Prop :=
  ∃ t ∈ ts.zip ts', ∃ u ∈ ts.zip ts', a = t.1.span.through u.1.span ∧
    b = t.2.span.through u.2.span

namespace Span

variable {ts ts' : List Token} {a a' b b' : Span}

theorem sameReach_token {t t' : Token} (h : (t, t') ∈ ts.zip ts') :
    SameReach ts ts' t.span t'.span :=
  ⟨_, h, _, h, rfl, rfl⟩

theorem SameReach.through (h : SameReach ts ts' a a')
    (h' : SameReach ts ts' b b') :
    SameReach ts ts' (a.through b) (a'.through b') := by
  obtain ⟨t, ht, -, -, rfl, rfl⟩ := h
  obtain ⟨-, -, u, hu, rfl, rfl⟩ := h'
  exact ⟨t, ht, u, hu, rfl, rfl⟩

end Span

theorem covers_sameReach (ts ts' : List Token) :
    (Places.lift (Span.SameReach ts ts')).Covers (Span.SameReach ts ts') :=
  ⟨Option.Rel.some, Span.SameReach.through⟩

/-- The places of tokens that are the same but for them correspond
in this way. -/
theorem matches_sameReach {ts ts' : List Token}
    (h : List.Forall₂ (Token.Matches fun _ _ => True) ts ts') :
    List.Forall₂ (Token.Matches (Span.SameReach ts ts')) ts ts' := by
  obtain ⟨hlength, hsame⟩ := List.forall₂_iff_zip.mp h
  refine List.forall₂_iff_zip.mpr ⟨hlength, fun ht => ?_⟩
  exact ⟨(hsame ht).kind, (hsame ht).text, Span.sameReach_token ht⟩

/-! ## Scanning again -/

namespace Lexer

theorem IsToken.lexesTo {kind : TokenKind} {c : Char} {cs : List Char}
    (h : IsToken kind c cs) (file : String) (p : Position) :
    LexesTo file p (c :: cs)
      [⟨kind, String.ofList (c :: cs), ⟨file, p, p.after (c :: cs)⟩⟩] :=
  lexesTo_of_lexeme h.blank h.comment
    (fun rest hrest => h.read rest fun _ => hrest) file p

/-- A token of a text is the same token in any other. -/
theorem Layout.lexesTo {file : String} {p : Position} {cs : List Char}
    {ts : List Token} (h : Layout file p cs ts) (file' : String) :
    ∀ t ∈ ts, ∀ p', ∃ us, LexesTo file' p' t.text.toList us ∧
      ∃ t', us = [t'] ∧ t.Matches (fun _ _ => True) t' := by
  induction h with
  | last _ => exact nofun
  | @token p g cs rest c kind ts _ htoken _ _ ih =>
      intro t ht p'
      rcases List.mem_cons.mp ht with rfl | ht
      · let t' : Token :=
          ⟨kind, String.ofList (c :: cs), ⟨file', p', p'.after (c :: cs)⟩⟩
        refine ⟨[t'], ?_, t', rfl, rfl, rfl, trivial⟩
        rw [String.toList_ofList]
        exact htoken.lexesTo file' p'
      · exact ih t ht p'

theorem flatten_singletons {R : Token → Token → Prop} {ts : List Token}
    {tss : List (List Token)}
    (h : List.Forall₂ (fun t us => ∃ t', us = [t'] ∧ R t t') ts tss) :
    List.Forall₂ R ts tss.flatten := by
  induction h with
  | nil => exact .nil
  | cons hus _ ih =>
      obtain ⟨t', rfl, ht'⟩ := hus
      exact .cons ht' ih

theorem tokenize_spaced {source file : String} {ts : List Token}
    (h : tokenize source file = .ok ts) (file' : String) :
    ∃ ts', tokenize (" ".intercalate (ts.map Token.text)) file' = .ok ts' ∧
      List.Forall₂ (Token.Matches fun _ _ => True) ts ts' := by
  obtain ⟨tss, htss, hsame⟩ :=
    lexesTo_spaced ((layout_of_tokensFrom h).lexesTo file') .origin
  refine ⟨tss.flatten, ?_, flatten_singletons hsame⟩
  have htokens := htss [] endsAtom_nil
  rw [List.append_nil, tokensFrom_nil] at htokens
  rw [tokenize, String.toList_intercalate, List.map_map]
  refine htokens.trans ?_
  exact congrArg Except.ok (List.append_nil _)

end Lexer

/-! ## Reading again -/

namespace Reader

/-- The texts of the tokens of a source, with single spaces between them, fall
into the same tokens. Reading either text gives the same forms up to places, or
the same fault, and the places in the one reach over the same tokens as those
in the other. -/
theorem layout_never_matters {source file : String} {ts : List Token}
    (h : tokenize source file = .ok ts) (file' : String) :
    let spaced := " ".intercalate (ts.map Token.text)
    ∃ ts', tokenize spaced file' = .ok ts' ∧
      List.Forall₂ (fun t t' => t.kind = t'.kind ∧ t.text = t'.text) ts ts' ∧
      ((∃ forms forms', readAll source file = .ok forms ∧
        readAll spaced file' = .ok forms' ∧
        AllMatch (.lift (Span.SameReach ts ts')) forms forms') ∨
      ∃ e e', readAll source file = .error (.ofReadError e) ∧
        readAll spaced file' = .error (.ofReadError e') ∧
        e.fault.message = e'.fault.message ∧
        e.Matches (Span.SameReach ts ts') e') := by
  intro spaced
  obtain ⟨ts', htokens, hsame⟩ := Lexer.tokenize_spaced h file'
  refine ⟨ts', htokens, hsame.imp fun _ _ ht => ⟨ht.kind, ht.text⟩, ?_⟩
  obtain ⟨hforms, herror⟩ :=
    ofTokens_matches (covers_sameReach ts ts') (matches_sameReach hsame)
  rw [readAll, readAll, h, htokens]
  dsimp only
  generalize Program.ofTokens ts = p at hforms herror
  generalize Program.ofTokens ts' = p' at hforms herror
  obtain ⟨forms, error⟩ := p
  obtain ⟨forms', error'⟩ := p'
  cases herror with
  | none => exact .inl ⟨forms, forms', rfl, rfl, hforms⟩
  | @some e e' he =>
      exact .inr ⟨e, e', rfl, rfl, congrArg Fault.message he.fault, he⟩

/-- A string with an atom right behind it, an atom with a semicolon in it, a
mark that ends an atom, and a comment that holds a bracket. The vector is not
closed, and the error is reported at its bracket. -/
theorem layout_never_matters_open :
    let source := ";c\n[\"x\"y;z\x27k ;(\n,"
    let spaced := "[ \"x\" y;z \x27 k"
    let openedAt (file : String) (line index : Nat) : Span :=
      ⟨file, ⟨line, 1, index⟩, ⟨line, 2, index + 1⟩⟩
    ∃ ts ts', tokenize source "a" = .ok ts ∧
      " ".intercalate (ts.map Token.text) = spaced ∧
      tokenize spaced "b" = .ok ts' ∧
      List.Forall₂ (fun t t' => t.kind = t'.kind ∧ t.text = t'.text) ts ts' ∧
      readAll source "a" =
        .error (.ofReadError ⟨.unclosed .square, openedAt "a" 2 3⟩) ∧
      ∃ e', readAll spaced "b" = .error (.ofReadError e') ∧
        e'.fault.message = "Unbalanced vector: missing ']'" ∧
        Span.SameReach ts ts' (openedAt "a" 2 3) e'.span := by
  intro source spaced openedAt
  let place (col index col' index' : Nat) : Span :=
    ⟨"a", ⟨2, col, index⟩, ⟨2, col', index'⟩⟩
  let ts : List Token := [
    ⟨.opening .square, "[", openedAt "a" 2 3⟩,
    ⟨.string "x", "\"x\"", place 2 4 5 7⟩,
    ⟨.atom, "y;z", place 5 7 8 10⟩,
    ⟨.mark .quote, "\x27", place 8 10 9 11⟩,
    ⟨.atom, "k", place 9 11 10 12⟩]
  have htokens : tokenize source "a" = .ok ts := by decide +kernel
  have hspaced : " ".intercalate (ts.map Token.text) = spaced := by decide
  have hread : readAll source "a" =
      .error (.ofReadError ⟨.unclosed .square, openedAt "a" 2 3⟩) := by
    rw [readAll, htokens]
    dsimp only
    rw [ofTokens_of_next?]
    rfl
  obtain ⟨ts', htokens', hsame, hboth⟩ := layout_never_matters htokens "b"
  rw [hspaced] at htokens' hboth
  refine ⟨ts, ts', htokens, hspaced, htokens', hsame, hread, ?_⟩
  rw [hread] at hboth
  rcases hboth with ⟨forms, -, hforms, -⟩
    | ⟨⟨fault, span⟩, e', he, he', hmessage, hmatches⟩
  · cases hforms
  · cases he
    exact ⟨e', he', hmessage.symm, hmatches.place⟩

end Reader

end TinyLisp
