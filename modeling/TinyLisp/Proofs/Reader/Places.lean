import TinyLisp.Proofs.Reader.Grammar
import TinyLisp.Proofs.Store.Places

/-!
# Reading tokens that stand elsewhere

The reader copies the places of tokens into forms and errors, and decides
nothing by them. So tokens that are the same but for their places are read to
forms that are the same but for theirs, and the reading stops at the same token,
with the same fault.

Tokens in front of others are read to the same forms as without them, provided
that they are forms one by one and leave nothing open.
-/

namespace TinyLisp

/-- Tokens at places that correspond by `S` make forms at places that
correspond by `R`: the place of a form is that of a token, or reaches from one
token to another. -/
structure Places.Covers (R : Places) (S : Span → Span → Prop) : Prop where
  rel : ∀ {a b : Span}, S a b → R.rel (some a) (some b)
  through : ∀ {a a' b b' : Span}, S a a' → S b b' →
    S (a.through b) (a'.through b')

/-- The same token at a place that corresponds. -/
structure Token.Matches (S : Span → Span → Prop) (t t' : Token) : Prop where
  kind : t.kind = t'.kind
  text : t.text = t'.text
  place : S t.span t'.span

/-- The same fault at a place that corresponds. -/
structure ReadError.Matches (S : Span → Span → Prop) (e e' : ReadError) :
    Prop where
  fault : e.fault = e'.fault
  place : S e.span e'.span

/-- Forms that match, and errors that do behind them. -/
structure Program.Matches (R : Places) (S : Span → Span → Prop)
    (p p' : Program) : Prop where
  forms : AllMatch R p.forms p'.forms
  error : Option.Rel (ReadError.Matches S) p.error p'.error

namespace Reader

variable {R : Places} {S : Span → Span → Prop}

inductive Pending.Matches (R : Places) (S : Span → Span → Prop) :
    Pending → Pending → Prop where
  | list {opener opener' : Token} {items items' : List Value}
      (ho : opener.Matches S opener') (hitems : AllMatch R items items') :
      Matches R S (.list opener items) (.list opener' items')
  | vector {opener opener' : Token} {items items' : List Value}
      (ho : opener.Matches S opener') (hitems : AllMatch R items items') :
      Matches R S (.vector opener items) (.vector opener' items')
  | map {opener opener' : Token} {pairs pairs' : List (Value × Value)}
      {key key' : Option Value} (ho : opener.Matches S opener')
      (hpairs : PairsMatch R pairs pairs')
      (hkey : Option.Rel (Value.Matches R) key key') :
      Matches R S (.map opener pairs key) (.map opener' pairs' key')
  | mark {m : Mark} {token token' : Token} (ht : token.Matches S token') :
      Matches R S (.mark m token) (.mark m token')

inductive Progress.Matches (R : Places) (S : Span → Span → Prop) :
    Progress → Progress → Prop where
  | done {form form' : Value} (h : form.Matches R form') :
      Matches R S (.done form) (.done form')
  | more {top top' : Pending} {stack stack' : List Pending}
      (htop : top.Matches R S top')
      (hstack : List.Forall₂ (Pending.Matches R S) stack stack') :
      Matches R S (.more top stack) (.more top' stack')
  | stuck {e e' : ReadError} (h : e.Matches S e') :
      Matches R S (.stuck e) (.stuck e')

inductive Result.Matches (R : Places) (S : Span → Span → Prop) :
    Result → Result → Prop where
  | form {v v' : Value} {rest rest' : List Token} (h : v.Matches R v')
      (hrest : List.Forall₂ (Token.Matches S) rest rest') :
      Matches R S (.form v rest) (.form v' rest')
  | error {e e' : ReadError} {rest rest' : List Token} (h : e.Matches S e')
      (hrest : List.Forall₂ (Token.Matches S) rest rest') :
      Matches R S (.error e rest) (.error e' rest')

section

variable (hS : R.Covers S) {t t' : Token} {ts ts' : List Token}
  {stack stack' : List Pending} {form form' : Value} {top top' : Pending}
include hS

theorem matches_classify (text : String) {a b : Span} (h : S a b) :
    (classify text a).Matches R (classify text b) := by
  unfold classify
  split
  · exact .keyword
  · split
    · exact .number
    · split
      · exact .bool
      · split
        · exact .bool
        · split
          · exact .nil
          · exact .symbol (hS.rel h)

theorem matches_marked (m : Mark) (ht : t.Matches S t')
    (hform : form.Matches R form') :
    (marked m t form).Matches R (marked m t' form') :=
  .list (.cons (.symbol (hS.rel ht.place)) (.cons hform .nil)) (hS.rel ht.place)

theorem rel_between (ht : t.Matches S t') {u u' : Token} (hu : u.Matches S u') :
    R.rel (between t u) (between t' u') :=
  hS.rel (hS.through ht.place hu.place)

theorem deliver_matches
    (hstack : List.Forall₂ (Pending.Matches R S) stack stack')
    (hform : form.Matches R form') :
    (deliver form stack).Matches R S (deliver form' stack') := by
  induction hstack generalizing form form' with
  | nil => exact .done hform
  | cons htop hstack ih => cases htop with
    | list ho hitems => exact .more (.list ho (.cons hform hitems)) hstack
    | vector ho hitems => exact .more (.vector ho (.cons hform hitems)) hstack
    | map ho hpairs hkey => cases hkey with
      | none => exact .more (.map ho hpairs (.some hform)) hstack
      | some hkey =>
          exact .more (.map ho (.cons (.mk hkey hform) hpairs) .none) hstack
    | mark ht => exact ih (matches_marked hS _ ht hform)

theorem close_matches (b : Bracket) (ht : t.Matches S t')
    (hstack : List.Forall₂ (Pending.Matches R S) stack stack') :
    (close b t stack).Matches R S (close b t' stack') := by
  have hunexpected : Progress.Matches R S (.stuck ⟨.unexpected t.text, t.span⟩)
      (.stuck ⟨.unexpected t'.text, t'.span⟩) :=
    .stuck ⟨congrArg Fault.unexpected ht.text, ht.place⟩
  cases hstack with
  | nil => cases b <;> exact hunexpected
  | cons htop hstack => cases htop with
    | list ho hitems => cases b with
      | round =>
          exact deliver_matches hS hstack
            (.list (List.rel_reverse hitems) (rel_between hS ho ht))
      | square => exact hunexpected
      | curly => exact hunexpected
    | vector ho hitems => cases b with
      | round => exact hunexpected
      | square =>
          refine deliver_matches hS hstack (.vector ?_ (rel_between hS ho ht))
          rw [Items.toList_ofList, Items.toList_ofList]
          exact List.rel_reverse hitems
      | curly => exact hunexpected
    | map ho hpairs hkey => cases b with
      | round => exact hunexpected
      | square => exact hunexpected
      | curly => cases hkey with
        | none =>
            exact deliver_matches hS hstack
              (.mapForm (List.rel_reverse hpairs) (rel_between hS ho ht))
        | some _ => exact .stuck ⟨rfl, ho.place⟩
    | mark _ => cases b <;> exact hunexpected

theorem feed_matches (hstack : List.Forall₂ (Pending.Matches R S) stack stack')
    (ht : t.Matches S t') : (feed stack t).Matches R S (feed stack' t') := by
  rw [feed, feed, ← ht.kind]
  split
  · next b _ =>
      refine .more ?_ hstack
      cases b with
      | round => exact .list ht .nil
      | square => exact .vector ht .nil
      | curly => exact .map ht .nil .none
  · exact close_matches hS _ ht hstack
  · exact .more (.mark ht) hstack
  · exact deliver_matches hS hstack .string
  · rw [← ht.text]
    exact deliver_matches hS hstack (matches_classify hS _ ht.place)

omit hS in
theorem unfinished_matches (h : top.Matches R S top') :
    top.unfinished.Matches S top'.unfinished := by
  cases h with
  | list ho _ => exact ⟨rfl, ho.place⟩
  | vector ho _ => exact ⟨rfl, ho.place⟩
  | map ho _ hkey => cases hkey with
    | none => exact ⟨rfl, ho.place⟩
    | some _ => exact ⟨rfl, ho.place⟩
  | mark ht => exact ⟨congrArg Fault.missingForm ht.text, ht.place⟩

omit hS in
theorem leftAfter_matches {e e' : ReadError} (he : e.Matches S e')
    (ht : t.Matches S t') (hts : List.Forall₂ (Token.Matches S) ts ts') :
    List.Forall₂ (Token.Matches S) (leftAfter e t ts) (leftAfter e' t' ts') := by
  rw [leftAfter, leftAfter, ← he.fault]
  split
  · exact .cons ht hts
  · exact hts

theorem readWith_matches (hts : List.Forall₂ (Token.Matches S) ts ts')
    (hstack : List.Forall₂ (Pending.Matches R S) stack stack')
    (ht : t.Matches S t') :
    (readWith stack t ts).Matches R S (readWith stack' t' ts') := by
  induction hts generalizing stack stack' t t' with
  | nil =>
      have hfeed := feed_matches hS hstack ht
      unfold readWith
      generalize feed stack t = p at hfeed
      generalize feed stack' t' = p' at hfeed
      cases hfeed with
      | done hform => exact .form hform .nil
      | more htop _ => exact .error (unfinished_matches htop) .nil
      | stuck he => exact .error he (leftAfter_matches he ht .nil)
  | cons hnext hts ih =>
      have hfeed := feed_matches hS hstack ht
      unfold readWith
      generalize feed stack t = p at hfeed
      generalize feed stack' t' = p' at hfeed
      cases hfeed with
      | done hform => exact .form hform (.cons hnext hts)
      | more htop hstack => exact ih (.cons htop hstack) hnext
      | stuck he => exact .error he (leftAfter_matches he ht (.cons hnext hts))

theorem next?_matches (hts : List.Forall₂ (Token.Matches S) ts ts') :
    Option.Rel (Result.Matches R S) (next? ts) (next? ts') := by
  cases hts with
  | nil => exact .none
  | cons ht hts => exact .some (readWith_matches hS hts .nil ht)

theorem ofTokens_matches (hts : List.Forall₂ (Token.Matches S) ts ts') :
    (Program.ofTokens ts).Matches R S (Program.ofTokens ts') := by
  have hnext := next?_matches hS hts
  rw [show Program.ofTokens ts' = _ from ofTokens_of_next?]
  fun_induction Program.ofTokens ts generalizing ts' with
  | case1 ts h =>
      rw [h] at hnext
      generalize next? ts' = r? at hnext
      cases hnext
      exact ⟨.nil, .none⟩
  | case2 ts e rest h =>
      rw [h] at hnext
      generalize next? ts' = r? at hnext
      cases hnext with
      | some hr => cases hr with
        | error he _ => exact ⟨.nil, .some he⟩
  | case3 ts form rest h ih =>
      rw [h] at hnext
      generalize next? ts' = r? at hnext
      cases hnext with
      | some hr => cases hr with
        | form hform hrest =>
            have hbehind := ih hrest (next?_matches hS hrest)
            rw [← ofTokens_of_next?] at hbehind
            exact ⟨.cons hform hbehind.forms, hbehind.error⟩

end

theorem DerivesAll.ofTokens_append {ts : List Token} {forms : List Value}
    (h : DerivesAll ts forms) (us : List Token) :
    Program.ofTokens (ts ++ us) =
      ⟨forms ++ (Program.ofTokens us).forms, (Program.ofTokens us).error⟩ := by
  induction forms generalizing ts with
  | nil =>
      cases h
      rfl
  | cons form forms ih => cases h with
    | cons hform hrest =>
        rw [List.append_assoc, ofTokens_of_next?, hform.next?]
        simp only [ih hrest, Program.cons, List.cons_append]

end Reader

end TinyLisp
