import Mathlib.Data.List.Forall2
import TinyLisp.Token.Lexer

/-!
# Texts that fall into tokens

The scanner looks ahead only as far as an atom goes. So a text falls into the
same tokens whatever stands behind it, provided that this does not go on with an
atom: `LexesTo` says which tokens, and texts that do so can be put together
piece by piece. Their tokens carry positions, hence the position a piece starts
at is part of it.

The converse is needed once, for the names of symbols and keywords: a text that
is all of one atom consists of characters that continue an atom.
-/

namespace TinyLisp

namespace Lexer

open Text.Quoted (decode encode escape escapeOf unescape)

/-! ## One token at a time -/

/-- The scanner without the proofs that make it end. -/
theorem tokensFrom_eq (file : String) (p : Position) (cs : List Char) :
    tokensFrom file p cs =
      match (gap cs).2 with
      | [] => .ok []
      | c :: ds =>
        let start := p.after (gap cs).1
        match lexeme c ds with
        | .error flaw => .error (.ofFlaw file start flaw)
        | .ok l =>
          (tokensFrom file (start.after l.text) l.rest).map fun ts =>
            ⟨l.kind, String.ofList l.text,
              ⟨file, start, start.after l.text⟩⟩ :: ts := by
  rw [tokensFrom]
  split
  · next h => rw [h]
  · next c ds h =>
      rw [h]
      dsimp only
      split
      · next hl => rw [hl]
      · next hl => rw [hl]

theorem tokensFrom_nil (file : String) (p : Position) :
    tokensFrom file p [] = .ok [] := by
  rw [tokensFrom_eq]
  rfl

/-- A blank moves the position and nothing else. -/
theorem tokensFrom_blank {c : Char} (h : isBlank c = true) (file : String)
    (p : Position) (cs : List Char) :
    tokensFrom file p (c :: cs) = tokensFrom file (p.advance c) cs := by
  have hgap : gap (c :: cs) = (c :: (gap cs).1, (gap cs).2) := by
    rw [gap, if_pos h]
  rw [tokensFrom_eq, tokensFrom_eq file (p.advance c), hgap]
  rfl

/-- A character that is not blank and does not start a comment
starts a token. -/
theorem tokensFrom_cons {file : String} {p : Position} {c : Char}
    {ds : List Char} {l : Lexeme} (hblank : isBlank c = false)
    (hcomment : c ≠ ';') (hl : lexeme c ds = .ok l) :
    tokensFrom file p (c :: ds) =
      (tokensFrom file (p.after l.text) l.rest).map fun ts =>
        ⟨l.kind, String.ofList l.text, ⟨file, p, p.after l.text⟩⟩ :: ts := by
  have hgap : gap (c :: ds) = ([], c :: ds) := by
    rw [gap, if_neg (by rw [hblank]; decide), if_neg hcomment]
  rw [tokensFrom_eq, hgap]
  dsimp only
  rw [hl]
  rfl

/-! ## Pieces of text -/

/-- What does not go on with an atom. -/
def EndsAtom (rest : List Char) : Prop :=
  ∀ c ∈ rest.head?, inAtom c = false

/-- The text falls into these tokens when it starts at `p`, whatever
stands behind it. -/
def LexesTo (file : String) (p : Position) (cs : List Char) (ts : List Token) :
    Prop :=
  ∀ rest, EndsAtom rest →
    tokensFrom file p (cs ++ rest) =
      (tokensFrom file (p.after cs) rest).map (ts ++ ·)

theorem endsAtom_nil : EndsAtom [] := nofun

theorem endsAtom_cons {c : Char} (h : inAtom c = false) (cs : List Char) :
    EndsAtom (c :: cs) := by
  intro d hd
  obtain rfl := Option.some.inj hd
  exact h

theorem map_append_map {ε : Type} (x : Except ε (List Token))
    (ts us : List Token) :
    (x.map (us ++ ·)).map (ts ++ ·) = x.map (ts ++ us ++ ·) := by
  cases x with
  | error e => rfl
  | ok vs => simp [Except.map]

theorem lexesTo_nil (file : String) (p : Position) : LexesTo file p [] [] := by
  intro rest _
  rw [List.nil_append, Position.after_nil]
  cases tokensFrom file p rest <;> rfl

theorem LexesTo.append {file : String} {p : Position} {cs ds : List Char}
    {ts us : List Token} (h : LexesTo file p cs ts)
    (hd : ∀ rest, EndsAtom rest → EndsAtom (ds ++ rest))
    (h' : LexesTo file (p.after cs) ds us) :
    LexesTo file p (cs ++ ds) (ts ++ us) := by
  intro rest hrest
  rw [List.append_assoc, h _ (hd rest hrest), h' rest hrest, map_append_map,
    Position.after_append]

theorem LexesTo.blank {file : String} {p : Position} {c : Char}
    (hc : isBlank c = true) {cs : List Char} {ts : List Token}
    (h : LexesTo file (p.advance c) cs ts) : LexesTo file p (c :: cs) ts := by
  intro rest hrest
  rw [List.cons_append, tokensFrom_blank hc, h rest hrest, Position.after_cons]

theorem lexesTo_of_lexeme {c : Char} {cs : List Char} {kind : TokenKind}
    (hblank : isBlank c = false) (hcomment : c ≠ ';')
    (hl : ∀ rest, EndsAtom rest →
      lexeme c (cs ++ rest) = .ok ⟨kind, c :: cs, rest⟩)
    (file : String) (p : Position) :
    LexesTo file p (c :: cs)
      [⟨kind, String.ofList (c :: cs), ⟨file, p, p.after (c :: cs)⟩⟩] :=
  fun rest hrest => tokensFrom_cons hblank hcomment (hl rest hrest)

/-! ## Brackets -/

theorem ofChar?_opener (b : Bracket) :
    TokenKind.ofChar? b.opener = some (.opening b) := by
  cases b <;> rfl

theorem ofChar?_closer (b : Bracket) :
    TokenKind.ofChar? b.closer = some (.closing b) := by
  cases b <;> rfl

/-- An opening bracket ends where it ends: what follows may well be an atom. -/
theorem LexesTo.opener {file : String} {p : Position} (b : Bracket)
    {cs : List Char} {ts : List Token}
    (h : LexesTo file (p.advance b.opener) cs ts) :
    LexesTo file p (b.opener :: cs)
      (⟨.opening b, String.ofList [b.opener],
        ⟨file, p, p.advance b.opener⟩⟩ :: ts) := by
  intro rest hrest
  have hl : lexeme b.opener (cs ++ rest) =
      .ok ⟨.opening b, [b.opener], cs ++ rest⟩ := by
    rw [lexeme, ofChar?_opener]
  have hblank : isBlank b.opener = false := by cases b <;> decide
  have hcomment : b.opener ≠ ';' := by cases b <;> decide
  rw [List.cons_append, tokensFrom_cons hblank hcomment hl]
  exact (congrArg _ (h rest hrest)).trans (map_append_map _ [_] ts)

theorem lexesTo_closer (file : String) (p : Position) (b : Bracket) :
    LexesTo file p [b.closer]
      [⟨.closing b, String.ofList [b.closer], ⟨file, p, p.advance b.closer⟩⟩] := by
  refine lexesTo_of_lexeme (by cases b <;> decide) (by cases b <;> decide)
    (fun rest _ => ?_) file p
  rw [lexeme, ofChar?_closer]
  rfl

theorem endsAtom_closer (b : Bracket) (cs : List Char) :
    EndsAtom (b.closer :: cs) :=
  endsAtom_cons (by cases b <;> decide) cs

/-- Tokens between brackets. -/
theorem LexesTo.bracketed {file : String} {p : Position} (b : Bracket)
    {cs : List Char} {ts : List Token}
    (h : LexesTo file (p.advance b.opener) cs ts) :
    ∃ opener closer : Token,
      opener.kind = .opening b ∧ closer.kind = .closing b ∧
      LexesTo file p (b.opener :: (cs ++ [b.closer]))
        (opener :: (ts ++ [closer])) := by
  have hclose := lexesTo_closer file ((p.advance b.opener).after cs) b
  have hbody := h.append (fun rest _ => endsAtom_closer b rest) hclose
  exact ⟨_, _, rfl, rfl, hbody.opener b⟩

/-! ## Texts with spaces between them -/

theorem lexesTo_spaced {α : Type} {file : String} {text : α → List Char}
    {R : α → List Token → Prop} {xs : List α}
    (h : ∀ x ∈ xs, ∀ p, ∃ ts, LexesTo file p (text x) ts ∧ R x ts)
    (p : Position) :
    ∃ tss, LexesTo file p ([' '].intercalate (xs.map text)) tss.flatten ∧
      List.Forall₂ R xs tss := by
  induction xs generalizing p with
  | nil => exact ⟨[], lexesTo_nil file p, .nil⟩
  | cons x xs ih =>
      have ih := ih fun y hy => h y (List.mem_cons_of_mem x hy)
      obtain ⟨ts, hts, hR⟩ := h x List.mem_cons_self p
      cases xs with
      | nil =>
          refine ⟨[ts], ?_, .cons hR .nil⟩
          rw [List.map_singleton, List.intercalate_singleton,
            List.flatten_singleton]
          exact hts
      | cons y ys =>
          obtain ⟨tss, htss, hRs⟩ := ih ((p.after (text x)).advance ' ')
          refine ⟨ts :: tss, ?_, .cons hR hRs⟩
          rw [List.map_cons, List.map_cons, List.intercalate_cons_cons,
            ← List.map_cons, List.append_assoc, List.flatten_cons]
          exact hts.append (fun _ _ => endsAtom_cons (by decide) _)
            (htss.blank (by decide))

/-! ## Atoms -/

/-- The characters of an atom: all of them continue one, and the first starts
neither a string nor a comment. -/
structure IsAtom (cs : List Char) : Prop where
  ne_nil : cs ≠ []
  inAtom : ∀ c ∈ cs, Lexer.inAtom c = true
  head : ∀ c ∈ cs.head?, c ≠ '"' ∧ c ≠ ';'

/-- Whether a text is an atom can be computed. -/
theorem isAtom_of_all {c : Char} {cs : List Char}
    (hall : (c :: cs).all Lexer.inAtom = true)
    (hhead : (c != '"' && c != ';') = true) : IsAtom (c :: cs) := by
  refine ⟨nofun, List.all_eq_true.mp hall, fun d hd => ?_⟩
  obtain rfl := Option.some.inj hd
  rw [Bool.and_eq_true, bne_iff_ne, bne_iff_ne] at hhead
  exact hhead

theorem inAtom_iff {c : Char} :
    inAtom c = true ↔ isBlank c = false ∧ TokenKind.ofChar? c = none := by
  simp [inAtom, isDelimiter]

theorem takeWhile_append_of_endsAtom {cs rest : List Char}
    (h : ∀ c ∈ cs, inAtom c = true) (hrest : EndsAtom rest) :
    (cs ++ rest).takeWhile inAtom = cs ∧
      (cs ++ rest).dropWhile inAtom = rest := by
  rw [List.takeWhile_append_of_pos h, List.dropWhile_append_of_pos h]
  cases rest with
  | nil => exact ⟨List.append_nil cs, rfl⟩
  | cons c rest =>
      have hc := hrest c rfl
      rw [List.takeWhile_cons_of_neg (by rw [hc]; decide), List.append_nil,
        List.dropWhile_cons_of_neg (by rw [hc]; decide)]
      exact ⟨rfl, rfl⟩

theorem IsAtom.lexesTo {cs : List Char} (h : IsAtom cs) (file : String)
    (p : Position) :
    LexesTo file p cs [⟨.atom, String.ofList cs, ⟨file, p, p.after cs⟩⟩] := by
  obtain ⟨hne, hall, hhead⟩ := h
  cases cs with
  | nil => exact absurd rfl hne
  | cons c cs =>
      obtain ⟨hquote, hcomment⟩ := hhead c rfl
      obtain ⟨hblank, hkind⟩ := inAtom_iff.mp (hall c List.mem_cons_self)
      refine lexesTo_of_lexeme hblank hcomment (fun rest hrest => ?_) file p
      obtain ⟨htake, hdrop⟩ :=
        takeWhile_append_of_endsAtom
          (fun d hd => hall d (List.mem_cons_of_mem c hd)) hrest
      rw [lexeme, hkind]
      dsimp only
      rw [if_neg hquote, htake, hdrop]

theorem ite_ne_atom {p : Prop} [Decidable p] {kind : TokenKind}
    {other : Option TokenKind} (hkind : kind ≠ .atom)
    (hother : other ≠ some .atom) :
    (if p then some kind else other) ≠ some .atom := by
  split
  · exact fun h => hkind (Option.some.inj h)
  · exact hother

theorem ofChar?_ne_atom (c : Char) : TokenKind.ofChar? c ≠ some .atom := by
  unfold TokenKind.ofChar?
  repeat refine ite_ne_atom nofun ?_
  exact nofun

/-- Only one way leads to an atom. -/
theorem lexeme_atom {c : Char} {cs : List Char} {l : Lexeme}
    (h : lexeme c cs = .ok l) (hatom : l.kind = .atom) :
    TokenKind.ofChar? c = none ∧ c ≠ '"' ∧
      l.text = c :: cs.takeWhile inAtom := by
  unfold lexeme at h
  split at h
  · next kind hkind =>
      cases h
      rw [show kind = .atom from hatom] at hkind
      exact absurd hkind (ofChar?_ne_atom c)
  · next hkind =>
      split at h
      · cases hd : decode cs with
        | error e => rw [hd] at h; cases h
        | ok body => rw [hd] at h; cases h; cases hatom
      · next hquote =>
          cases h
          exact ⟨hkind, hquote, rfl⟩

theorem not_blank_of_gap {c : Char} {cs : List Char}
    (h : (gap (c :: cs)).1 = []) : isBlank c = false ∧ c ≠ ';' := by
  rw [gap] at h
  split at h
  · cases h
  · next hblank =>
      split at h
      · cases h
      · next hcomment => exact ⟨Bool.eq_false_iff.mpr hblank, hcomment⟩

/-- A text that is all of an atom has the characters of one. -/
theorem isAtom_of_tokenize {text file : String} {span : Span}
    (h : tokenize text file = .ok [⟨.atom, text, span⟩]) :
    IsAtom text.toList := by
  rw [tokenize, tokensFrom_eq] at h
  have hgap := gap_append text.toList
  cases hrest : (gap text.toList).2 with
  | nil => rw [hrest] at h; cases h
  | cons c ds =>
      rw [hrest] at h hgap
      dsimp only at h
      cases hl : lexeme c ds with
      | error flaw => rw [hl] at h; cases h
      | ok l =>
          rw [hl] at h
          dsimp only at h
          generalize tokensFrom file _ l.rest = behind at h
          cases behind with
          | error e => cases h
          | ok ts =>
              obtain ⟨htoken, -⟩ := List.cons.inj (Except.ok.inj h)
              have hofList : String.ofList l.text = text :=
                congrArg Token.text htoken
              have htext : l.text = text.toList := by
                rw [← hofList, String.toList_ofList]
              obtain ⟨hkind, hquote, htake⟩ :=
                lexeme_atom hl (congrArg Token.kind htoken)
              -- The token is as long as the text, so nothing was skipped and
              -- nothing is left.
              have hlex := lexeme_append hl
              rw [htext] at hlex
              have hlen := congrArg List.length hgap
              rw [← hlex] at hlen
              simp only [List.length_append] at hlen
              have hskip : (gap text.toList).1 = [] :=
                List.length_eq_zero_iff.mp (by omega)
              have hcs : text.toList = c :: ds := by
                rw [← hgap, hskip, List.nil_append]
              rw [hcs] at hskip htext ⊢
              obtain ⟨hblank, hcomment⟩ := not_blank_of_gap hskip
              have hds : ds.takeWhile inAtom = ds :=
                (List.cons.inj (htake.symm.trans htext)).2
              refine ⟨nofun, fun d hd => ?_, fun d hd => ?_⟩
              · rcases List.mem_cons.mp hd with rfl | hd
                · exact inAtom_iff.mpr ⟨hblank, hkind⟩
                · rw [← hds] at hd
                  exact List.all_eq_true.mp List.all_takeWhile d hd
              · obtain rfl := Option.some.inj hd
                exact ⟨hquote, hcomment⟩

/-! ## Strings -/

theorem unescape_of_escapeOf {c e : Char} (h : escapeOf c = some e) :
    unescape e = some c := by
  unfold escapeOf at h
  split at h
  · next hc => cases h; subst hc; rfl
  · split at h
    · next hc => cases h; subst hc; rfl
    · split at h
      · next hc => cases h; subst hc; rfl
      · split at h
        · next hc => cases h; subst hc; rfl
        · cases h

theorem ne_of_escapeOf {c : Char} (h : escapeOf c = none) :
    c ≠ '"' ∧ c ≠ '\\' ∧ c ≠ '\n' := by
  unfold escapeOf at h
  split at h
  · cases h
  · next hquote =>
      split at h
      · cases h
      · next hslash =>
          split at h
          · cases h
          · next hline => exact ⟨hquote, hslash, hline⟩

/-- Reading takes back what writing has escaped. -/
theorem decode_escape (cs rest : List Char) :
    decode (escape cs ++ '"' :: rest) =
      .ok ⟨cs, escape cs ++ ['"'], rest⟩ := by
  induction cs with
  | nil => rfl
  | cons c cs ih =>
      rw [escape]
      cases he : escapeOf c with
      | some e =>
          show decode ('\\' :: e :: (escape cs ++ '"' :: rest)) = _
          rw [decode, unescape_of_escapeOf he, ih]
          rfl
      | none =>
          obtain ⟨hquote, hslash, hline⟩ := ne_of_escapeOf he
          show decode (c :: (escape cs ++ '"' :: rest)) = _
          rw [decode, if_neg hline, ih]
          · rfl
          · exact hquote
          · exact fun h _ => hslash h
          · exact fun _ _ h _ => hslash h

theorem lexesTo_encode (s file : String) (p : Position) :
    LexesTo file p (encode s).toList
      [⟨.string s, encode s, ⟨file, p, p.after (encode s).toList⟩⟩] := by
  rw [encode, String.toList_ofList]
  refine lexesTo_of_lexeme (by decide) (by decide) (fun rest _ => ?_) file p
  have hdecode := decode_escape s.toList rest
  rw [lexeme, List.append_assoc, List.singleton_append, hdecode]
  show Except.ok _ = _
  dsimp only
  rw [String.ofList_toList]

end Lexer

end TinyLisp
