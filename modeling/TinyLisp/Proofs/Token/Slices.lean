import Mathlib.Data.List.Induction
import TinyLisp.Proofs.Token.Lines

/-!
# Tokens are slices of the text

A layout says where each token stands. So what a token covers can be cut out of
the text again, and what no token covers is a gap: blanks, and comments that
start between two tokens. Positions count lines and columns along the way; that
these are the ones which the index alone would give is seen by reading the text
from its end.

An error of the scanner points into the text as well. Its span is made from
characters that were read, and these are a part of the text.
-/

namespace TinyLisp

/-! ## Exact positions -/

/-- Line and column are those of the character with this index, or of the end
of the text. -/
structure Position.Exact (cs : List Char) (p : Position) : Prop where
  index : p.index ≤ cs.length
  line : p.line = 1 + (cs.take p.index).count '\n'
  col : p.col = 1 + ((cs.take p.index).reverse.takeWhile (· ≠ '\n')).length

namespace Position

/-- The column counts the characters behind the last line feed. -/
theorem col_after (cs : List Char) :
    (origin.after cs).col = 1 + (cs.reverse.takeWhile (· ≠ '\n')).length := by
  induction cs using List.reverseRecOn with
  | nil => rfl
  | append_singleton cs c ih =>
      rw [after_append, after_cons, after_nil, List.reverse_append,
        List.reverse_singleton, List.singleton_append, advance]
      by_cases h : c = '\n'
      · rw [if_pos h, List.takeWhile_cons_of_neg (by simp [h])]
        rfl
      · rw [if_neg h, List.takeWhile_cons_of_pos (by simp [h]), ih,
          List.length_cons]
        rfl

theorem exact_after {cs ds : List Char} (h : ds <+: cs) :
    (origin.after ds).Exact cs := by
  have hindex : (origin.after ds).index = ds.length := by
    rw [after_index]
    exact Nat.zero_add _
  have htake : cs.take (origin.after ds).index = ds := by
    rw [hindex]
    exact (List.prefix_iff_eq_take.mp h).symm
  refine ⟨by rw [hindex]; exact h.length_le, ?_, ?_⟩
  · rw [htake, after_line]
    rfl
  · rw [htake, col_after]

end Position

/-- The span lies in this text, and its lines and columns are right. -/
structure Span.Exact (file : String) (cs : List Char) (a : Span) : Prop where
  file : a.file = file
  start : a.start.Exact cs
  stop : a.stop.Exact cs

theorem Span.Within.exact {file : String} {cs : List Char} {a : Span}
    (h : a.Within file cs) : a.Exact file cs := by
  obtain ⟨hfile, ⟨before, hbefore, hstart⟩, ⟨upto, hupto, hstop⟩⟩ := h
  exact ⟨hfile, hstart ▸ Position.exact_after hbefore,
    hstop ▸ Position.exact_after hupto⟩

/-- The span reaches over the character with this index. -/
def Span.Covers (a : Span) (i : Nat) : Prop :=
  a.start.index ≤ i ∧ i < a.stop.index

instance (a : Span) (i : Nat) : Decidable (a.Covers i) :=
  inferInstanceAs (Decidable (_ ∧ _))

namespace Lexer

open Text.Quoted (decode Flaw)

/-! ## What no token covers -/

/-- A comment starts at `first` and ends in front of `stop`, where a line feed
is, or the end. -/
def IsComment (cs : List Char) (first stop : Nat) : Prop :=
  ∃ before body behind, cs = before ++ ';' :: (body ++ behind) ∧ '\n' ∉ body ∧
    (∀ c ∈ behind.head?, c = '\n') ∧ first = before.length ∧
      stop = before.length + body.length + 1

/-- The character with this index is blank, or part of a comment which
is `free` throughout. -/
def IsSkipped (free : Nat → Prop) (cs : List Char) (i : Nat) : Prop :=
  (∃ c, cs[i]? = some c ∧ isBlank c = true) ∨
    ∃ first stop, IsComment cs first stop ∧ first ≤ i ∧ i < stop ∧
      ∀ k, first ≤ k → k < stop → free k

theorem IsSkipped.mono {free free' : Nat → Prop} {cs : List Char} {i : Nat}
    (h : IsSkipped free cs i) (hfree : ∀ k, free k → free' k) :
    IsSkipped free' cs i := by
  rcases h with hblank | ⟨first, stop, hcomment, hfirst, hstop, hall⟩
  · exact .inl hblank
  · exact .inr ⟨first, stop, hcomment, hfirst, hstop,
      fun k hk hk' => hfree k (hall k hk hk')⟩

theorem IsComment.behind {cs : List Char} {first stop : Nat}
    (h : IsComment cs first stop) (before : List Char) :
    IsComment (before ++ cs) (before.length + first) (before.length + stop) := by
  obtain ⟨inner, body, behind, rfl, hbody, hbehind, rfl, rfl⟩ := h
  refine ⟨before ++ inner, body, behind, by rw [List.append_assoc], hbody,
    hbehind, ?_, ?_⟩
  · rw [List.length_append]
  · rw [List.length_append]
    omega

theorem IsSkipped.behind {free free' : Nat → Prop} {cs : List Char} {i : Nat}
    (h : IsSkipped free cs i) (before : List Char)
    (hfree : ∀ k, free k → free' (before.length + k)) :
    IsSkipped free' (before ++ cs) (before.length + i) := by
  rcases h with ⟨c, hc, hblank⟩ | ⟨first, stop, hcomment, hfirst, hstop, hall⟩
  · refine .inl ⟨c, ?_, hblank⟩
    rw [List.getElem?_append_right (Nat.le_add_right _ _),
      Nat.add_sub_cancel_left, hc]
  · refine .inr ⟨_, _, hcomment.behind before, by omega, by omega,
      fun k hk hk' => ?_⟩
    obtain ⟨j, rfl⟩ : ∃ j, k = before.length + j :=
      ⟨k - before.length, by omega⟩
    exact hfree j (hall j (by omega) (by omega))

/-- A comment at the start, and what it is made of. -/
theorem isSkipped_comment {free : Nat → Prop} {body behind : List Char}
    {i : Nat} (hbody : '\n' ∉ body) (hbehind : ∀ c ∈ behind.head?, c = '\n')
    (hi : i ≤ body.length) (hfree : ∀ k ≤ body.length, free k) :
    IsSkipped free (';' :: (body ++ behind)) i :=
  .inr ⟨0, body.length +
    1, ⟨[], body, behind, rfl, hbody, hbehind, rfl, by simp⟩, by omega,
    by omega, fun k _ hk => hfree k (by omega)⟩

theorem Gap.isSkipped {g : List Char} (h : Gap g) (rest : List Char) {i : Nat}
    (hi : i < g.length) : IsSkipped (· < g.length) (g ++ rest) i := by
  induction h generalizing i with
  | nil => exact absurd hi (Nat.not_lt_zero i)
  | @blank c cs hc _ ih =>
      cases i with
      | zero => exact .inl ⟨c, rfl, hc⟩
      | succ j =>
          have hskipped : IsSkipped (· < cs.length + 1) ([c] ++ (cs ++ rest))
              ([c].length + j) :=
            (ih (Nat.lt_of_succ_lt_succ hi)).behind [c] fun k hk => by
              rw [List.length_singleton]
              omega
          rw [List.length_singleton, Nat.add_comm 1] at hskipped
          exact hskipped
  | @comment body cs hbody _ ih =>
      have hlength : (';' :: (body ++ '\n' :: cs)).length =
          body.length + cs.length + 2 := by
        simp only [List.length_cons, List.length_append]
        omega
      rw [hlength] at hi ⊢
      rw [List.cons_append, List.append_assoc, List.cons_append]
      rcases Nat.lt_trichotomy i (body.length + 1) with hlt | rfl | hgt
      · exact isSkipped_comment hbody (fun _ hc => (Option.some.inj hc).symm)
          (by omega)
          fun k hk => by omega
      · refine .inl ⟨'\n', ?_, by decide⟩
        rw [List.getElem?_cons_succ, List.getElem?_append_right (Nat.le_refl _),
          Nat.sub_self]
        rfl
      · have hbefore : (';' :: (body ++ ['\n'])).length =
            body.length + 2 := by simp
        obtain ⟨j, rfl⟩ : ∃ j, i = body.length + 2 + j :=
          ⟨i - (body.length + 2), by omega⟩
        have hfree : ∀ k, k < cs.length →
            (';' :: (body ++ ['\n'])).length + k <
              body.length + cs.length + 2 := by
          intro k hk
          rw [hbefore]
          omega
        have hskipped : IsSkipped (· < body.length + cs.length + 2)
            (';' :: (body ++ ['\n']) ++ (cs ++ rest))
            ((';' :: (body ++ ['\n'])).length + j) :=
          (ih (by omega)).behind _ hfree
        rw [hbefore, List.cons_append, List.append_assoc] at hskipped
        exact hskipped

theorem LastGap.isSkipped {cs : List Char} (h : LastGap cs) {i : Nat}
    (hi : i < cs.length) : IsSkipped (fun _ => True) cs i := by
  cases h with
  | closed h =>
      have hskipped := (h.isSkipped [] hi).mono fun k _ => trivial
      rwa [List.append_nil] at hskipped
  | @comment cs body h hbody =>
      rcases Nat.lt_or_ge i cs.length with hlt | hge
      · exact (h.isSkipped (';' :: body) hlt).mono fun k _ => trivial
      · obtain ⟨j, rfl⟩ : ∃ j, i = cs.length + j := ⟨i - cs.length, by omega⟩
        rw [List.length_append, List.length_cons] at hi
        have hskipped : IsSkipped (fun _ => True) (';' :: (body ++ [])) j :=
          isSkipped_comment hbody nofun (by omega) fun k _ => trivial
        rw [List.append_nil] at hskipped
        exact hskipped.behind cs fun k _ => trivial

/-- Each character is part of a token or skipped, and no token
interrupts a comment. -/
theorem Layout.covers_or_isSkipped {file : String} {p : Position}
    {cs : List Char} {ts : List Token} (h : Layout file p cs ts) {i : Nat}
    (hi : i < cs.length) :
    (∃ t ∈ ts, t.span.Covers (p.index + i)) ∨
      IsSkipped (fun k => ∀ t ∈ ts, ¬ t.span.Covers (p.index + k)) cs i := by
  induction h generalizing i with
  | last h => exact .inr ((h.isSkipped hi).mono fun k _ => nofun)
  | @token p g cs rest c kind ts hgap htoken hends hrest ih =>
      have hstart : (p.after g).index = p.index + g.length := p.after_index g
      have hstop : (p.after (g ++ c :: cs)).index =
          p.index + (g ++ c :: cs).length :=
        p.after_index _
      have hbehind : ∀ t ∈ ts,
          p.index + (g ++ c :: cs).length ≤ t.span.start.index :=
        fun t ht => hstop ▸ (hrest.stands t ht).le_start
      rw [List.length_append] at hi
      rcases Nat.lt_or_ge i g.length with hlt | hge
      · refine .inr ?_
        rw [List.append_assoc]
        refine (hgap.isSkipped _ hlt).mono fun k hk t ht hcovers => ?_
        rcases List.mem_cons.mp ht with rfl | ht
        · have hfirst : (p.after g).index ≤ p.index + k := hcovers.1
          omega
        · have hle := hbehind t ht
          have hfirst := hcovers.1
          rw [List.length_append] at hle
          omega
      · rcases Nat.lt_or_ge i (g ++ c :: cs).length with hlt | hge
        · refine .inl ⟨_, List.mem_cons_self, ?_, ?_⟩
          · show (p.after g).index ≤ p.index + i
            omega
          · show p.index + i < (p.after (g ++ c :: cs)).index
            omega
        · obtain ⟨j, rfl⟩ : ∃ j, i = (g ++ c :: cs).length + j :=
            ⟨i - (g ++ c :: cs).length, by omega⟩
          have hshift (k : Nat) : (p.after (g ++ c :: cs)).index + k =
              p.index + ((g ++ c :: cs).length + k) := by
            rw [hstop, Nat.add_assoc]
          rcases ih (show j < rest.length by omega) with ⟨t, ht, hcovers⟩
            | hskipped
          · exact .inl ⟨t, List.mem_cons_of_mem _ ht, hshift j ▸ hcovers⟩
          · refine .inr (hskipped.behind _ fun k hk t ht hcovers => ?_)
            rcases List.mem_cons.mp ht with rfl | ht
            · have hlast : p.index + ((g ++ c :: cs).length + k) <
                  (p.after (g ++ c :: cs)).index :=
                hcovers.2
              omega
            · exact hk t ht ((hshift k).symm ▸ hcovers)

/-! ## Where errors point -/

/-- The characters behind the quote as far as the flaw concerns them. -/
def flawed : Flaw → List Char
  | .unterminated seen => seen
  | .badEscape seen letter => seen ++ ['\\', letter]

theorem flawed_behind (cs : List Char) (flaw : Flaw) :
    flawed (flaw.behind cs) = cs ++ flawed flaw := by
  cases flaw with
  | unterminated seen => rfl
  | badEscape seen letter => exact List.append_assoc cs seen _

/-- A flaw is told from what is there. -/
theorem flawed_prefix {cs : List Char} {flaw : Flaw}
    (h : decode cs = .error flaw) : flawed flaw <+: cs := by
  fun_induction decode cs generalizing flaw with
  | case1 =>
      cases h
      exact List.prefix_rfl
  | case2 => cases h
  | case3 =>
      cases h
      exact List.prefix_rfl
  | case4 c cs d hd ih =>
      cases hcs : decode cs with
      | ok b => rw [hcs] at h; cases h
      | error flaw' =>
          rw [hcs] at h
          cases h
          rw [flawed_behind]
          exact (List.prefix_append_right_inj _).mpr (ih hcs)
  | case5 cs hd =>
      cases h
      exact ⟨'\n' :: cs, rfl⟩
  | case6 c cs hd hline =>
      cases h
      exact ⟨cs, rfl⟩
  | case7 cs hquote hend hescape =>
      cases h
      exact List.nil_prefix
  | case8 c cs hquote hend hescape hline ih =>
      cases hcs : decode cs with
      | ok b => rw [hcs] at h; cases h
      | error flaw' =>
          rw [hcs] at h
          cases h
          rw [flawed_behind]
          exact (List.prefix_append_right_inj _).mpr (ih hcs)

theorem lexeme_error {c : Char} {ds : List Char} {flaw : Flaw}
    (h : lexeme c ds = .error flaw) : c = '"' ∧ decode ds = .error flaw := by
  unfold lexeme at h
  split at h
  · cases h
  · split at h
    · next hquote =>
        cases hd : decode ds with
        | ok body => rw [hd] at h; cases h
        | error flaw' =>
            rw [hd] at h
            cases h
            exact ⟨hquote, rfl⟩
    · cases h

/-- The scanner fails only in a string. -/
theorem exists_flaw_of_tokensFrom {file : String} {p : Position}
    {cs : List Char} {e : LexError} (h : tokensFrom file p cs = .error e) :
    ∃ before ds flaw, cs = before ++ '"' :: ds ∧ decode ds = .error flaw ∧
      e = .ofFlaw file (p.after before) flaw := by
  fun_induction tokensFrom file p cs with
  | case1 p cs hgap => cases h
  | case2 p cs c ds hgap start flaw hl =>
      cases h
      obtain ⟨rfl, hd⟩ := lexeme_error hl
      exact ⟨(gap cs).1, ds, flaw, by rw [← hgap, gap_append], hd, rfl⟩
  | case3 p cs c ds hgap start l hl stop ih =>
      cases hfail : tokensFrom file stop l.rest with
      | ok ts => rw [hfail] at h; cases h
      | error e' =>
          rw [hfail] at h
          cases h
          obtain ⟨before, ds', flaw, hrest, hd, rfl⟩ := ih hfail
          refine ⟨(gap cs).1 ++ l.text ++ before, ds', flaw, ?_, hd, ?_⟩
          · rw [List.append_assoc, List.append_assoc, ← hrest]
            rw [lexeme_append hl, ← hgap, gap_append]
          · rw [Position.after_append, Position.after_append]

/-- The span of an error reaches over what was read of a string, or over an
escape in it. -/
theorem within_ofFlaw {before ds : List Char} {flaw : Flaw}
    (h : decode ds = .error flaw) (file : String) :
    (LexError.ofFlaw file (Position.origin.after before) flaw).span.Within file
      (before ++ '"' :: ds) := by
  have hread := flawed_prefix h
  have hprefix {seen : List Char} (hseen : seen <+: ds) :
      before ++ '"' :: seen <+: before ++ '"' :: ds :=
    (List.prefix_append_right_inj _).mpr (List.cons_prefix_cons.mpr ⟨rfl, hseen⟩)
  cases flaw with
  | unterminated seen =>
      exact ⟨rfl, ⟨before, List.prefix_append _ _, rfl⟩,
        ⟨_, hprefix hread, (Position.after_append _ _ _).symm⟩⟩
  | badEscape seen letter =>
      have hstart := Position.after_append .origin before ('"' :: seen)
      refine ⟨rfl, ⟨_, hprefix ((List.prefix_append _ _).trans hread),
        hstart.symm⟩, ⟨_, hprefix hread, ?_⟩⟩
      have hstop :=
        Position.after_append .origin (before ++ '"' :: seen) ['\\', letter]
      rw [hstart, List.append_assoc] at hstop
      exact hstop.symm

end Lexer

open Lexer

/-! ## The text is made of its tokens -/

/-- The token is not empty, and it is what its span covers; an atom is all
of a word. -/
structure Token.IsSlice (cs : List Char) (t : Token) : Prop where
  nonempty : t.span.start.index < t.span.stop.index
  bounded : t.span.stop.index ≤ cs.length
  text : t.text = String.ofList (cs.extract t.span.start.index t.span.stop.index)
  ends : t.kind = .atom →
  ∀ c, cs[t.span.stop.index]? = some c → inAtom c = false

theorem Lexer.Stands.isSlice {file : String} {cs : List Char} {t : Token}
    (h : Stands file .origin cs t) : t.IsSlice cs := by
  obtain ⟨before, body, behind, rfl, hbody, htext, hspan, hends⟩ := h.place
  have hstart : t.span.start.index = before.length := by
    rw [hspan, Position.after_index]
    exact Nat.zero_add _
  have hstop : t.span.stop.index = (before ++ body).length := by
    rw [hspan, Position.after_index]
    exact Nat.zero_add _
  have hlength := List.length_pos_iff.mpr hbody
  refine ⟨?_, ?_, ?_, fun hatom c hc => hends hatom c ?_⟩
  · rw [hstart, hstop, List.length_append]
    omega
  · rw [hstop]
    exact (List.prefix_append _ _).length_le
  · rw [htext, hstart, hstop, extract_between]
  · rw [hstop, List.getElem?_append_right (Nat.le_refl _), Nat.sub_self] at hc
    rw [List.head?_eq_getElem?]
    exact hc

/-- The tokens of a text are slices of it, in order, and what is between them is
skipped: blanks, and comments that no token interrupts. The positions in tokens
and in errors are right. -/
theorem tokenize_lossless (source file : String) :
    (∀ ts, tokenize source file = .ok ts →
      (∀ t ∈ ts, t.IsSlice source.toList ∧ t.span.Exact file source.toList) ∧
      ts.Pairwise (fun t u => t.span.stop.index ≤ u.span.start.index) ∧
      ∀ i < source.toList.length, (∀ t ∈ ts, ¬ t.span.Covers i) →
        IsSkipped (fun k => ∀ t ∈ ts, ¬ t.span.Covers k) source.toList i) ∧
    ∀ e, tokenize source file = .error e → e.span.Exact file source.toList := by
  refine ⟨fun ts h => ?_, fun e h => ?_⟩
  · have hlayout := layout_of_tokensFrom h
    refine ⟨fun t ht =>
      ⟨(hlayout.stands t ht).isSlice, (within_of_tokenize h t ht).exact⟩,
        hlayout.pairwise, fun i hi huncovered => ?_⟩
    have hskipped := hlayout.covers_or_isSkipped hi
    simp only [Position.origin, Nat.zero_add] at hskipped
    rcases hskipped with ⟨t, ht, hcovers⟩ | hskipped
    · exact absurd hcovers (huncovered t ht)
    · exact hskipped
  · obtain ⟨before, ds, flaw, htext, hflaw, rfl⟩ := exists_flaw_of_tokensFrom h
    rw [htext]
    exact (within_ofFlaw hflaw file).exact

/-- An atom with a semicolon in it, a comment that holds a quote, and a string
behind it; and a bad escape on a second line. -/
theorem tokenize_lossless_comment :
    let source := "é;x ; \"\n\"\\n,ü\"b"
    let tokens : List Token := [
      ⟨.atom, "é;x", ⟨"a", ⟨1, 1, 0⟩, ⟨1, 4, 3⟩⟩⟩,
      ⟨.string "\n,ü", "\"\\n,ü\"", ⟨"a", ⟨2, 1, 8⟩, ⟨2, 7, 14⟩⟩⟩,
      ⟨.atom, "b", ⟨"a", ⟨2, 7, 14⟩, ⟨2, 8, 15⟩⟩⟩]
    let escape : Span := ⟨"a", ⟨2, 3, 4⟩, ⟨2, 5, 6⟩⟩
    tokenize source "a" = .ok tokens ∧
      (∀ t ∈ tokens, t.IsSlice source.toList ∧ t.span.Exact "a" source.toList) ∧
      tokens.Pairwise (fun t u => t.span.stop.index ≤ u.span.start.index) ∧
      IsSkipped (fun k => ∀ t ∈ tokens, ¬ t.span.Covers k) source.toList 6 ∧
      tokenize "é\n\"ü\\q\n\"" "a" = .error ⟨.invalidEscape 'q', escape⟩ ∧
      escape.Exact "a" "é\n\"ü\\q\n\"".toList := by
  intro source tokens escape
  have htokens : tokenize source "a" = .ok tokens := by decide +kernel
  have hescape : tokenize "é\n\"ü\\q\n\"" "a" =
      .error ⟨.invalidEscape 'q', escape⟩ := by
    decide +kernel
  obtain ⟨hslices, hordered, hskipped⟩ :=
    (tokenize_lossless source "a").1 tokens htokens
  exact ⟨htokens, hslices, hordered, hskipped 6 (by decide) (by decide), hescape,
    (tokenize_lossless _ "a").2 _ hescape⟩

end TinyLisp
