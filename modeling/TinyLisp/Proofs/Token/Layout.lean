import TinyLisp.Proofs.Token.Lexer

/-!
# How a text falls into tokens

The scanner is a loop over what is left of the text. What it finds can be said
without it: a text is gaps and tokens in turn, where a gap is made of blanks and
comments, and a token is read alike wherever its characters stand, provided that
no atom is cut short. `Layout` says this, and it holds of exactly the tokens
that the scanner gives.

A layout can be taken apart between tokens, and a part of it is a layout again.
So what stands between two tokens of a text falls into the tokens between them,
also when it is a text of its own.
-/

namespace TinyLisp

namespace Lexer

open Text.Quoted (decode Body)

/-! ## Gaps -/

/-- Blanks and comments, each comment with the line feed that ends it. -/
inductive Gap : List Char → Prop where
  | nil : Gap []
  | blank {c : Char} {cs : List Char} (hc : isBlank c = true) (h : Gap cs) :
      Gap (c :: cs)
  | comment {body cs : List Char} (hbody : '\n' ∉ body) (h : Gap cs) :
      Gap (';' :: (body ++ '\n' :: cs))

/-- What stands behind the last token: a gap, and maybe a comment that the
text ends in. -/
inductive LastGap : List Char → Prop where
  | closed {cs : List Char} (h : Gap cs) : LastGap cs
  | comment {cs body : List Char} (h : Gap cs) (hbody : '\n' ∉ body) :
      LastGap (cs ++ ';' :: body)

theorem comment_of_not_mem {body : List Char} (h : '\n' ∉ body) :
    comment body = (body, []) := by
  induction body with
  | nil => rfl
  | cons c body ih =>
      rw [comment, if_neg (List.ne_of_not_mem_cons h).symm,
        ih (List.not_mem_of_not_mem_cons h)]

theorem comment_line_feed {body : List Char} (h : '\n' ∉ body)
    (cs : List Char) :
    comment (body ++ '\n' :: cs) = (body ++ '\n' :: (gap cs).1, (gap cs).2) := by
  induction body with
  | nil => rw [List.nil_append, comment, if_pos rfl, List.nil_append]
  | cons c body ih =>
      rw [List.cons_append, comment, if_neg (List.ne_of_not_mem_cons h).symm,
        ih (List.not_mem_of_not_mem_cons h), List.cons_append]

/-- What stands behind a gap does not change it. -/
theorem Gap.gap_append {g : List Char} (h : Gap g) (cs : List Char) :
    gap (g ++ cs) = (g ++ (gap cs).1, (gap cs).2) := by
  induction h with
  | nil => rfl
  | blank hc _ ih => rw [List.cons_append, gap, if_pos hc, ih, List.cons_append]
  | comment hbody _ ih =>
      rw [List.cons_append, List.append_assoc, List.cons_append, gap,
        if_neg (by decide), if_pos rfl, comment_line_feed hbody, ih,
        List.cons_append, List.append_assoc, List.cons_append]

theorem gap_of_token {c : Char} (hblank : isBlank c = false)
    (hcomment : c ≠ ';') (cs : List Char) : gap (c :: cs) = ([], c :: cs) := by
  rw [gap, if_neg (by rw [hblank]; decide), if_neg hcomment]

theorem LastGap.gap_eq {cs : List Char} (h : LastGap cs) :
    gap cs = (cs, []) := by
  cases h with
  | closed h =>
      have hgap := h.gap_append []
      rwa [List.append_nil, gap, List.append_nil] at hgap
  | comment h hbody =>
      rw [h.gap_append, gap, if_neg (by decide), if_pos rfl,
        comment_of_not_mem hbody]

/-- A text is a last gap, or a gap and then the first character of a token. -/
theorem lastGap_or_token (cs : List Char) :
    LastGap cs ∨ ∃ g c ds, cs = g ++ c :: ds ∧ Gap g ∧ isBlank c = false ∧
      c ≠ ';' := by
  cases cs with
  | nil => exact .inl (.closed .nil)
  | cons c cs =>
      cases hc : isBlank c with
      | true =>
          rcases lastGap_or_token cs with hlast | ⟨g, d, ds, rfl, hg, hd⟩
          · refine .inl ?_
            cases hlast with
            | closed h => exact .closed (.blank hc h)
            | comment h hbody => exact .comment (.blank hc h) hbody
          · exact .inr ⟨c :: g, d, ds, rfl, .blank hc hg, hd⟩
      | false =>
          by_cases hcomment : c = ';'
          · subst hcomment
            by_cases hline : '\n' ∈ cs
            · obtain ⟨body, rest, rfl, hbody⟩ :=
                List.eq_append_cons_of_mem hline
              rcases lastGap_or_token rest with hlast | ⟨g, d, ds, rfl, hg, hd⟩
              · refine .inl ?_
                cases hlast with
                | closed h => exact .closed (.comment hbody h)
                | @comment g last h hlast =>
                    have hboth := LastGap.comment (.comment hbody h) hlast
                    rwa [List.cons_append, List.append_assoc,
                      List.cons_append] at hboth
              · refine .inr ⟨';' :: (body ++ '\n' :: g), d, ds, ?_,
                  .comment hbody hg, hd⟩
                rw [List.cons_append, List.append_assoc, List.cons_append]
            · exact .inl (.comment .nil hline)
          · exact .inr ⟨[], c, cs, rfl, .nil, hc, hcomment⟩
termination_by cs.length

/-! ## Tokens out of their context -/

/-- Wherever these characters stand, they are read as a token of this kind,
unless it is an atom and goes on behind them. -/
structure IsToken (kind : TokenKind) (c : Char) (cs : List Char) : Prop where
  blank : isBlank c = false
  comment : c ≠ ';'
  read : ∀ rest, (kind = .atom → EndsAtom rest) →
    lexeme c (cs ++ rest) = .ok ⟨kind, c :: cs, rest⟩

/-- A string ends at its quote, whatever follows. -/
theorem decode_raw {cs : List Char} {b : Body} (h : decode cs = .ok b)
    (rest : List Char) :
    decode (b.raw ++ rest) = .ok ⟨b.content, b.raw, rest⟩ := by
  fun_induction decode cs generalizing b with
  | case1 => cases h
  | case2 cs =>
      cases h
      rfl
  | case3 => cases h
  | case4 c cs d hd ih =>
      cases hcs : decode cs with
      | error e => rw [hcs] at h; cases h
      | ok b' =>
          rw [hcs] at h
          cases h
          show decode ('\\' :: c :: (b'.raw ++ rest)) = _
          rw [decode, hd, ih hcs]
          rfl
  | case5 => cases h
  | case6 => cases h
  | case7 => cases h
  | case8 c cs hquote hend hescape hline ih =>
      have hslash : c ≠ '\\' := by
        rintro rfl
        cases cs with
        | nil => exact hend rfl rfl
        | cons d ds => exact hescape d ds rfl rfl
      cases hcs : decode cs with
      | error e => rw [hcs] at h; cases h
      | ok b' =>
          rw [hcs] at h
          cases h
          show decode (c :: (b'.raw ++ rest)) = _
          rw [decode, if_neg hline, ih hcs]
          · rfl
          · exact hquote
          · exact fun h _ => hslash h
          · exact fun _ _ h _ => hslash h

theorem endsAtom_dropWhile (cs : List Char) :
    EndsAtom (cs.dropWhile inAtom) := by
  intro c hc
  have hhead := List.head?_dropWhile_not inAtom cs
  rw [Option.mem_def.mp hc] at hhead
  exact hhead

/-- What the scanner has read is a token out of its context, too. -/
theorem isToken_of_lexeme {c : Char} {ds : List Char} {l : Lexeme}
    (hblank : isBlank c = false) (hcomment : c ≠ ';')
    (h : lexeme c ds = .ok l) :
    ∃ cs, l.text = c :: cs ∧ ds = cs ++ l.rest ∧ IsToken l.kind c cs ∧
      (l.kind = .atom → EndsAtom l.rest) := by
  unfold lexeme at h
  split at h
  · next kind hkind =>
      cases h
      refine ⟨[], rfl, rfl, ⟨hblank, hcomment, fun rest _ => ?_⟩, ?_⟩
      · rw [List.nil_append, lexeme, hkind]
      · rintro rfl
        exact absurd hkind (ofChar?_ne_atom c)
  · next hkind =>
      split at h
      · next hquote =>
          cases hd : decode ds with
          | error e => rw [hd] at h; cases h
          | ok body =>
              rw [hd] at h
              cases h
              refine ⟨body.raw, rfl, (Text.Quoted.decode_append hd).symm,
                ⟨hblank, hcomment, fun rest _ => ?_⟩, fun hatom => ?_⟩
              · rw [lexeme, hkind, if_pos hquote, decode_raw hd]
                rfl
              · cases hatom
      · next hquote =>
          cases h
          refine ⟨_, rfl, List.takeWhile_append_dropWhile.symm,
            ⟨hblank, hcomment, fun rest hrest => ?_⟩, fun _ =>
              endsAtom_dropWhile ds⟩
          have hall : ∀ d ∈ ds.takeWhile inAtom, inAtom d = true := fun d hd =>
            List.all_eq_true.mp List.all_takeWhile d hd
          obtain ⟨htake, hdrop⟩ := takeWhile_append_of_endsAtom hall (hrest rfl)
          rw [lexeme, hkind, if_neg hquote, htake, hdrop]

/-! ## Layouts -/

/-- The text, which starts at `p`, consists of these tokens and of gaps. -/
inductive Layout (file : String) :
    Position → List Char → List Token → Prop where
  | last {p : Position} {cs : List Char} (h : LastGap cs) : Layout file p cs []
  | token {p : Position} {g cs rest : List Char} {c : Char} {kind : TokenKind}
      {ts : List Token} (hgap : Gap g) (htoken : IsToken kind c cs)
      (hends : kind = .atom → EndsAtom rest)
      (hrest : Layout file (p.after (g ++ c :: cs)) rest ts) :
      Layout file p (g ++ c :: cs ++ rest)
        (⟨kind, String.ofList (c :: cs),
          ⟨file, p.after g, p.after (g ++ c :: cs)⟩⟩ :: ts)

theorem tokensFrom_of_lastGap {cs : List Char} (h : LastGap cs) (file : String)
    (p : Position) : tokensFrom file p cs = .ok [] := by
  rw [tokensFrom_eq, h.gap_eq]

/-- The token behind a gap, and then the rest. -/
theorem tokensFrom_of_gap {g ds : List Char} {c : Char} (hg : Gap g)
    (hblank : isBlank c = false) (hcomment : c ≠ ';') (file : String)
    (p : Position) :
    tokensFrom file p (g ++ c :: ds) =
      match lexeme c ds with
      | .error flaw => .error (.ofFlaw file (p.after g) flaw)
      | .ok l =>
        (tokensFrom file (p.after (g ++ l.text)) l.rest).map fun ts =>
          ⟨l.kind, String.ofList l.text,
            ⟨file, p.after g, p.after (g ++ l.text)⟩⟩ :: ts := by
  have hgap : gap (g ++ c :: ds) = (g, c :: ds) := by
    rw [hg.gap_append, gap_of_token hblank hcomment, List.append_nil]
  rw [tokensFrom_eq, hgap]
  dsimp only
  cases lexeme c ds with
  | error flaw => rfl
  | ok l => simp only [Position.after_append]

theorem tokensFrom_of_layout {file : String} {p : Position} {cs : List Char}
    {ts : List Token} (h : Layout file p cs ts) :
    tokensFrom file p cs = .ok ts := by
  induction h with
  | last h => exact tokensFrom_of_lastGap h file _
  | @token p g cs rest c kind ts hgap htoken hends _ ih =>
      rw [List.append_assoc, List.cons_append,
        tokensFrom_of_gap hgap htoken.blank htoken.comment,
        htoken.read rest hends]
      dsimp only
      rw [ih]
      rfl

theorem layout_of_tokensFrom {file : String} {p : Position} {cs : List Char}
    {ts : List Token} (h : tokensFrom file p cs = .ok ts) :
    Layout file p cs ts := by
  induction hn : cs.length using Nat.strongRecOn generalizing p cs ts with
  | ind n ih =>
      subst hn
      rcases lastGap_or_token cs with hlast
        | ⟨g, c, ds, rfl, hg, hblank, hcomment⟩
      · rw [tokensFrom_of_lastGap hlast] at h
        cases h
        exact .last hlast
      · rw [tokensFrom_of_gap hg hblank hcomment] at h
        cases hl : lexeme c ds with
        | error flaw => rw [hl] at h; cases h
        | ok l =>
            obtain ⟨cs, htext, rfl, htoken, hends⟩ :=
              isToken_of_lexeme hblank hcomment hl
            rw [hl] at h
            dsimp only at h
            rw [htext] at h
            cases hrest : tokensFrom file (p.after (g ++ c :: cs)) l.rest with
            | error e => rw [hrest] at h; cases h
            | ok us =>
                rw [hrest] at h
                cases h
                have hlt : l.rest.length <
                    (g ++ c :: (cs ++ l.rest)).length := by
                  simp only [List.length_append, List.length_cons]
                  omega
                have hlayout :=
                  Layout.token hg htoken hends (ih _ hlt hrest rfl)
                rwa [List.append_assoc, List.cons_append] at hlayout

/-! ## Where tokens stand -/

/-- In the text `cs`, which starts at `p`, the token is what its span covers. -/
structure Stands (file : String) (p : Position) (cs : List Char) (t : Token) :
    Prop where
  place : ∃ before body behind, cs = before ++ body ++ behind ∧ body ≠ [] ∧
    t.text = String.ofList body ∧
    t.span = ⟨file, p.after before, p.after (before ++ body)⟩ ∧
    (t.kind = .atom → EndsAtom behind)

theorem Stands.behind {file : String} {p : Position} {cs before : List Char}
    {t : Token} (h : Stands file (p.after before) cs t) :
    Stands file p (before ++ cs) t := by
  obtain ⟨inner, body, behind, rfl, hbody, htext, hspan, hends⟩ := h.place
  refine ⟨before ++ inner, body, behind, ?_, hbody, htext, ?_, hends⟩
  · simp only [List.append_assoc]
  · simp only [hspan, List.append_assoc, Position.after_append]

theorem Layout.stands {file : String} {p : Position} {cs : List Char}
    {ts : List Token} (h : Layout file p cs ts) :
    ∀ t ∈ ts, Stands file p cs t := by
  induction h with
  | last _ => exact nofun
  | @token p g cs rest c kind ts hgap htoken hends _ ih =>
      intro t ht
      rcases List.mem_cons.mp ht with rfl | ht
      · exact ⟨g, c :: cs, rest, rfl, List.cons_ne_nil _ _, rfl, rfl, hends⟩
      · exact (ih t ht).behind

/-- No token starts in front of the text. -/
theorem Stands.le_start {file : String} {p : Position} {cs : List Char}
    {t : Token} (h : Stands file p cs t) : p.index ≤ t.span.start.index := by
  obtain ⟨before, body, behind, -, -, -, hspan, -⟩ := h.place
  rw [hspan, Position.after_index]
  exact Nat.le_add_right _ _

theorem Layout.pairwise {file : String} {p : Position} {cs : List Char}
    {ts : List Token} (h : Layout file p cs ts) :
    ts.Pairwise fun t u => t.span.stop.index ≤ u.span.start.index := by
  induction h with
  | last _ => exact .nil
  | token _ _ _ hrest ih =>
      exact .cons (fun u hu => (hrest.stands u hu).le_start) ih

/-! ## Parts of a layout -/

theorem endsAtom_of_append {cs ds : List Char} (h : EndsAtom (cs ++ ds)) :
    EndsAtom cs := by
  cases cs with
  | nil => exact endsAtom_nil
  | cons c cs => exact h

/-- What is behind some of the tokens makes the others. -/
theorem Layout.drop {file : String} {p : Position} {cs : List Char}
    {ts us : List Token} (h : Layout file p cs (ts ++ us)) :
    ∃ before behind, cs = before ++ behind ∧
      Layout file (p.after before) behind us := by
  induction ts generalizing p cs with
  | nil => exact ⟨[], cs, rfl, h⟩
  | cons t ts ih => cases h with
    | @token p g body rest c kind _ hgap htoken hends hrest =>
        obtain ⟨before, behind, rfl, hbehind⟩ := ih hrest
        refine ⟨g ++ c :: body ++ before, behind, ?_, ?_⟩
        · rw [List.append_assoc _ before]
        · rw [Position.after_append]
          exact hbehind

/-- What is in front of some of the tokens makes the others, and ends where the
last of them does. -/
theorem Layout.take {file : String} {p : Position} {cs : List Char}
    {ts us : List Token} {last : Token}
    (h : Layout file p cs (ts ++ last :: us)) :
    ∃ body behind, cs = body ++ behind ∧ Layout file p body (ts ++ [last]) ∧
      last.span.stop = p.after body := by
  induction ts generalizing p cs with
  | nil => cases h with
    | @token p g body rest c kind _ hgap htoken hends hrest =>
        refine ⟨g ++ c :: body, rest, rfl, ?_, rfl⟩
        have hlast : Layout file p (g ++ c :: body ++ []) _ :=
          .token hgap htoken (fun _ => endsAtom_nil) (.last (.closed .nil))
        rwa [List.append_nil] at hlast
  | cons t ts ih => cases h with
    | @token p g body rest c kind _ hgap htoken hends hrest =>
        obtain ⟨front, behind, rfl, hfront, hstop⟩ := ih hrest
        refine ⟨g ++ c :: body ++ front, behind, ?_, ?_, ?_⟩
        · rw [List.append_assoc _ front]
        · exact .token hgap htoken
            (fun hatom => endsAtom_of_append (hends hatom)) hfront
        · rw [Position.after_append _ _ front]
          exact hstop

/-- Without the gap in front of the first token. -/
theorem Layout.skip {file : String} {p : Position} {cs : List Char} {t : Token}
    {ts : List Token} (h : Layout file p cs (t :: ts)) :
    ∃ g behind, cs = g ++ behind ∧ t.span.start = p.after g ∧
      Layout file (p.after g) behind (t :: ts) := by
  cases h with
  | @token p g body rest c kind _ hgap htoken hends hrest =>
      refine ⟨g, c :: body ++ rest, List.append_assoc _ _ _, rfl, ?_⟩
      rw [Position.after_append] at hrest
      have hskipped := Layout.token .nil htoken hends hrest
      simpa only [List.nil_append, Position.after_nil, Position.after_append]
        using hskipped

/-- From the start of the first token to the end of the last. -/
def extent (ts : List Token) : Option Span :=
  match ts.head?, ts.getLast? with
  | some first, some last => some (first.span.through last.span)
  | _, _ => none

theorem extract_between (before body behind : List Char) :
    (before ++ body ++ behind).extract before.length (before ++ body).length =
      body := by
  rw [List.extract_eq_take_drop, List.length_append, Nat.add_sub_cancel_left,
    List.append_assoc, List.drop_left, List.take_left]

theorem extent_eq_some {ts : List Token} {a : Span} (h : extent ts = some a) :
    ∃ first last, a = first.span.through last.span ∧ (∃ us, ts = first :: us) ∧
      ∃ us, ts = us ++ [last] := by
  unfold extent at h
  split at h
  · next first last hfirst hlast =>
      cases h
      exact ⟨first, last, rfl, List.head?_eq_some_iff.mp hfirst,
        List.getLast?_eq_some_iff.mp hlast⟩
  · cases h

/-- What tokens that stand one behind the other reach over makes them, as a text
of its own. -/
theorem Layout.part {file : String} {cs : List Char}
    {before ts behind : List Token} {a : Span}
    (h : Layout file .origin cs (before ++ (ts ++ behind)))
    (ha : extent ts = some a) :
    Layout file a.start (cs.extract a.start.index a.stop.index) ts := by
  obtain ⟨first, last, rfl, ⟨us, hus⟩, init, rfl⟩ := extent_eq_some ha
  obtain ⟨x, y, rfl, hy⟩ := h.drop
  rw [List.append_assoc, List.singleton_append] at hy
  obtain ⟨body, z, rfl, hbody, hstop⟩ := hy.take
  rw [hus] at hbody ⊢
  obtain ⟨g, inner, rfl, hstart, hinner⟩ := hbody.skip
  rw [← Position.after_append] at hstart hstop hinner
  have hindex (cs : List Char) :
      (Position.origin.after cs).index = cs.length := by
    rw [Position.after_index]
    exact Nat.zero_add _
  have hslice := extract_between (x ++ g) inner z
  rw [List.append_assoc x g inner] at hslice
  rw [Span.through, hstart, hstop, hindex, hindex, ← List.append_assoc x, hslice]
  exact hinner

end Lexer

end TinyLisp
