import TinyLisp.Proofs.Token.Layout

/-!
# Texts one below the other

A line feed ends whatever is open: an atom, a comment, a gap; a string cannot
be open where a text falls into tokens. So a text that does, and a line feed,
and another text make the tokens of the one and then those of the other. The
second start in the first column, as at the top of a text, and hence their
places are moved down by the lines of the first text and on by its characters,
while the columns stay.
-/

namespace TinyLisp

/-! ## Moving places -/

/-- How far down a text stands, and how many characters stand before it. -/
structure Offset where
  lines : Nat
  chars : Nat

/-- The offset of what stands behind `cs` and a line feed. -/
def Offset.behind (cs : List Char) : Offset :=
  ⟨cs.count '\n' + 1, cs.length + 1⟩

def Position.moved (d : Offset) (p : Position) : Position :=
  ⟨p.line + d.lines, p.col, p.index + d.chars⟩

def Span.moved (d : Offset) (a : Span) : Span :=
  ⟨a.file, a.start.moved d, a.stop.moved d⟩

def Token.moved (d : Offset) (t : Token) : Token :=
  ⟨t.kind, t.text, t.span.moved d⟩

def LexError.moved (d : Offset) (e : LexError) : LexError :=
  ⟨e.fault, e.span.moved d⟩

namespace Position

variable (d : Offset) (p : Position)

theorem advance_moved (c : Char) :
    (p.moved d).advance c = (p.advance c).moved d := by
  unfold advance moved
  split
  · simp only [mk.injEq, true_and]
    omega
  · simp only [mk.injEq, true_and]
    omega

theorem after_moved (cs : List Char) :
    (p.moved d).after cs = (p.after cs).moved d := by
  induction cs generalizing p with
  | nil => rfl
  | cons c cs ih => rw [after_cons, after_cons, advance_moved, ih]

theorem after_line (cs : List Char) :
    (p.after cs).line = p.line + cs.count '\n' := by
  induction cs generalizing p with
  | nil => rfl
  | cons c cs ih =>
      rw [after_cons, ih, List.count_cons, advance]
      by_cases h : c = '\n'
      · simp [h]
        omega
      · simp [h]

/-- Behind a line feed a text starts as at the top, so far down. -/
theorem after_line_feed (cs : List Char) :
    origin.after (cs ++ ['\n']) = origin.moved (.behind cs) := by
  have hline := after_line origin cs
  have hindex := after_index origin cs
  rw [after_append, after_cons, after_nil, advance, if_pos rfl, hline, hindex]
  simp [moved, Offset.behind, origin]
  omega

end Position

theorem Span.through_moved (d : Offset) (a b : Span) :
    (a.moved d).through (b.moved d) = (a.through b).moved d := rfl

theorem LexError.ofFlaw_moved (d : Offset) (file : String) (p : Position)
    (flaw : Text.Quoted.Flaw) :
    ofFlaw file (p.moved d) flaw = (ofFlaw file p flaw).moved d := by
  cases flaw with
  | unterminated seen =>
      simp only [ofFlaw, moved, Span.moved, Position.after_moved]
  | badEscape seen letter =>
      simp only [ofFlaw, moved, Span.moved, Position.after_moved]

/-- Both ends of the span are positions in the text `cs` of this file. -/
structure Span.Within (file : String) (cs : List Char) (a : Span) : Prop where
  file : a.file = file
  start : ∃ ds, ds <+: cs ∧ a.start = Position.origin.after ds
  stop : ∃ ds, ds <+: cs ∧ a.stop = Position.origin.after ds

theorem Span.Within.through {file : String} {cs : List Char} {a b : Span}
    (ha : a.Within file cs) (hb : b.Within file cs) :
    (a.through b).Within file cs :=
  ⟨ha.file, ha.start, hb.stop⟩

namespace Lexer

/-! ## Tokens of two texts -/

/-- What ends in a gap or in an open comment goes on as a gap behind
a line feed. -/
theorem LastGap.gap_line {cs : List Char} (h : LastGap cs) (rest : List Char) :
    gap (cs ++ '\n' :: rest) = (cs ++ '\n' :: (gap rest).1, (gap rest).2) := by
  cases h with
  | closed h => rw [h.gap_append, gap, if_pos (by decide)]
  | comment h hbody =>
      rw [List.append_assoc, List.cons_append, h.gap_append, gap,
        if_neg (by decide), if_pos rfl, comment_line_feed hbody,
        List.append_assoc, List.cons_append]

theorem endsAtom_append {cs ds : List Char} (h : EndsAtom cs)
    (h' : EndsAtom ds) : EndsAtom (cs ++ ds) := by
  cases cs with
  | nil => exact h'
  | cons c cs => exact h

/-- A text that falls into tokens does so in front of a line feed, whatever
stands behind that. -/
theorem Layout.tokensFrom_line {file : String} {p : Position} {cs : List Char}
    {ts : List Token} (h : Layout file p cs ts) (rest : List Char) :
    tokensFrom file p (cs ++ '\n' :: rest) =
      (tokensFrom file (p.after (cs ++ ['\n'])) rest).map (ts ++ ·) := by
  induction h with
  | @last p cs h =>
      have hafter : p.after (cs ++ '\n' :: (gap rest).1) =
          (p.after (cs ++ ['\n'])).after (gap rest).1 := by
        rw [← Position.after_append, List.append_assoc, List.singleton_append]
      rw [tokensFrom_eq, tokensFrom_eq file (p.after (cs ++ ['\n'])), h.gap_line]
      dsimp only
      rw [hafter]
      exact (congrFun Except.map_id _).symm
  | @token p g cs behind c kind ts hgap htoken hends _ ih =>
      have hline : EndsAtom ('\n' :: rest) := endsAtom_cons (by decide) rest
      have hafter : (p.after (g ++ c :: cs)).after (behind ++ ['\n']) =
          p.after (g ++ c :: cs ++ behind ++ ['\n']) := by
        rw [← Position.after_append, ← List.append_assoc]
      rw [List.append_assoc, List.append_assoc, List.cons_append,
        tokensFrom_of_gap hgap htoken.blank htoken.comment,
        htoken.read _ fun hatom => endsAtom_append (hends hatom) hline]
      dsimp only
      rw [ih, hafter]
      exact map_append_map _ [_] ts

theorem tokensFrom_moved (d : Offset) (file : String) (p : Position)
    (cs : List Char) :
    tokensFrom file (p.moved d) cs =
      ((tokensFrom file p cs).map (·.map (Token.moved d))).mapError
      (LexError.moved d) := by
  fun_induction tokensFrom file p cs with
  | case1 p cs hgap =>
      rw [tokensFrom_eq, hgap]
      rfl
  | case2 p cs c ds hgap start flaw hl =>
      rw [tokensFrom_eq, hgap]
      dsimp only
      rw [hl, Position.after_moved]
      dsimp only
      rw [LexError.ofFlaw_moved]
      rfl
  | case3 p cs c ds hgap start l hl stop ih =>
      rw [tokensFrom_eq, hgap]
      dsimp only
      rw [hl, Position.after_moved]
      dsimp only
      rw [Position.after_moved, ih]
      cases tokensFrom file stop l.rest <;> rfl

theorem Stands.within {file : String} {cs : List Char} {t : Token}
    (h : Stands file .origin cs t) : t.span.Within file cs := by
  obtain ⟨before, body, behind, rfl, -, -, hspan, -⟩ := h.place
  rw [hspan]
  refine ⟨rfl, ⟨before, ?_, rfl⟩, ⟨before ++ body, List.prefix_append _ _, rfl⟩⟩
  rw [List.append_assoc]
  exact List.prefix_append _ _

end Lexer

variable {file source above : String} {ts : List Token}

theorem within_of_tokenize (h : tokenize source file = .ok ts) :
    ∀ t ∈ ts, t.span.Within file source.toList :=
  fun t ht => ((Lexer.layout_of_tokensFrom h).stands t ht).within

/-- The tokens of a text below another: those of the text above, and its
own moved down. -/
theorem tokenize_line (h : tokenize above file = .ok ts) (source : String) :
    tokenize (above ++ "\n" ++ source) file =
      ((tokenize source file).map
        (ts ++ ·.map (Token.moved (.behind above.toList)))).mapError
        (LexError.moved (.behind above.toList)) := by
  have htext : (above ++ "\n" ++ source).toList =
      above.toList ++ '\n' :: source.toList := by
    simp
  rw [tokenize, htext, (Lexer.layout_of_tokensFrom h).tokensFrom_line,
    Position.after_line_feed, Lexer.tokensFrom_moved]
  show _ =
    (Except.map _ (Lexer.tokensFrom file .origin source.toList)).mapError _
  cases Lexer.tokensFrom file .origin source.toList <;> rfl

end TinyLisp
