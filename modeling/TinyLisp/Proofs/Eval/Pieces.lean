import TinyLisp.Proofs.Eval.Places
import TinyLisp.Proofs.Reader.Places
import TinyLisp.Proofs.Token.Lines

/-!
# Loading a text in pieces

A text may be loaded at once or line by line, cut anywhere between two forms.
Loaded at once, it falls into the tokens of the piece above and then those of
the piece below, which have been moved down. If those above are forms one by
one, the program is the one program followed by the other: an error among the
tokens below stops the run no earlier than it would if the pieces were loaded
one after the other, and a failure above hides it either way.

So the two runs do the same, up to the places of what is read from the
piece below. It takes a host that looks at no place to keep that
difference from spreading.
-/

namespace TinyLisp

open Value (Matches)
open TinyLisp.Action (Mirrors mirrors_pure mirrors_rethrow)

/-! ## Places in the piece below -/

/-- The first span lies in the text `cs` of this file, and the second is where
it lies when the text has been moved. -/
structure Span.Moves (file : String) (cs : List Char) (d : Offset)
    (a b : Span) : Prop where
  within : a.Within file cs
  moved : b = a.moved d

theorem Span.Moves.through {file : String} {cs : List Char} {d : Offset}
    {a a' b b' : Span} (h : a.Moves file cs d a') (h' : b.Moves file cs d b') :
    (a.through b).Moves file cs d (a'.through b') :=
  ⟨h.within.through h'.within, by rw [h.moved, h'.moved, Span.through_moved]⟩

/-- The place is left by a run: in its value or as that of its failure, or
in the store. -/
def Outcome.Bears (a : Span) : Outcome Value → Prop
  | .result v s => v.Bears a ∨ s.Bears a
  | .failure e s => e.span = some a ∨ s.Bears a
  | .exhausted => False

/-- Behind one and the same run, two runs match if they do from all that
it has left. -/
theorem Action.bind_matches {R : Places} {x : Action Value}
    {f g : Value → Action Value} {s : Store}
    (hx : ∀ a, (x s).Bears a → R.rel (some a) (some a))
    (hfg : ∀ v, v.Matches R v → (f v).Mirrors R (Matches R) (g v)) :
    ((x >>= f) s).Matches R (Matches R) ((x >>= g) s) := by
  rw [bind_apply, bind_apply]
  cases hxs : x s with
  | result v t =>
      rw [hxs] at hx
      have hv := Value.matches_self v fun a ha => hx a (.inl ha)
      exact hfg v hv t t (Store.matches_self fun a ha => hx a (.inr ha))
  | failure e t =>
      rw [hxs] at hx
      refine .failure ⟨rfl, ?_⟩ (Store.matches_self fun a ha => hx a (.inr ha))
      cases he : e.span with
      | none => exact R.none
      | some a => exact hx a (.inl he)
  | exhausted => exact .exhausted

theorem forall₂_moved {file : String} {cs : List Char} {ts : List Token}
    (h : ∀ t ∈ ts, t.span.Within file cs) (d : Offset) :
    List.Forall₂ (Token.Matches (Span.Moves file cs d)) ts
      (ts.map (Token.moved d)) := by
  rw [List.forall₂_map_right_iff]
  exact List.forall₂_same.mpr fun t ht => ⟨rfl, rfl, h t ht, rfl⟩

/-! ## Running one program behind another -/

namespace Engine

variable {engine : Engine} {file above source : String}

/-- Run a program behind others, with the value of those. -/
def runBehind (engine : Engine) (last : Value) (p : Program) :
    Action Value := do
  let v ← engine.evalForms last p.forms
  match p.error with
  | none => pure v
  | some e => Action.rethrow (.ofReadError e)

theorem evalForms_append (last : Value) (forms forms' : List Value) :
    engine.evalForms last (forms ++ forms') =
      engine.evalForms last forms >>= (engine.evalForms · forms') := by
  induction forms generalizing last with
  | nil => exact (pure_bind _ _).symm
  | cons form forms ih =>
      show (engine.eval form >>= fun v => engine.evalForms v (forms ++ forms')) =
        (engine.eval form >>= (engine.evalForms · forms)) >>= _
      rw [bind_assoc]
      exact congrArg _ (funext ih)

/-- The value before counts only if there is no form behind it. -/
theorem runBehind_eq (last : Value) (p : Program) :
    engine.runBehind last p = do
      let v ← engine.run p
      return if p.forms.isEmpty then last else v := by
  obtain ⟨forms, error⟩ := p
  cases forms with
  | nil => cases error <;> rfl
  | cons form forms => exact (bind_pure _).symm

theorem load_eq_run {ts : List Token} (h : tokenize source file = .ok ts) :
    engine.load source file = engine.run (Program.ofTokens ts) := by
  rw [load, h]

theorem run_eq_evalForms (forms : List Value) :
    engine.run ⟨forms, none⟩ = engine.evalForms .nil forms :=
  bind_pure _

/-- The text below is run behind the text above, from where it stands. -/
theorem load_below {forms : List Value} {us : List Token}
    (habove : readAll above file = .ok forms)
    (hsource : tokenize source file = .ok us) :
    engine.load (above ++ "\n" ++ source) file =
      engine.load above file >>= fun v => engine.runBehind v
        (Program.ofTokens (us.map (Token.moved (.behind above.toList)))) := by
  obtain ⟨ts, htokens, hforms⟩ := Reader.readAll_eq_ok_iff.mp habove
  have hline := tokenize_line htokens source
  rw [hsource] at hline
  rw [load_eq_run hline, load_eq_run htokens, hforms.ofTokens, run_eq_evalForms,
    hforms.ofTokens_append]
  show engine.evalForms .nil (forms ++ _) >>= _ = _
  rw [evalForms_append, bind_assoc]
  rfl

section

variable {R : Places} (hh : engine.host.Mirrors R)
include hh

theorem evalForms_mirrors {last last' : Value} (hlast : last.Matches R last')
    {forms forms' : List Value} (hforms : AllMatch R forms forms') :
    (engine.evalForms last forms).Mirrors R (Matches R)
      (engine.evalForms last' forms') := by
  induction hforms generalizing last last' with
  | nil => exact mirrors_pure hlast
  | cons hform _ ih =>
      have heval := (Machine.mirrors_inner hh .deferring engine.budget).eval
        Store.root hform
      exact heval.bind fun v w hv => ih hv

theorem runBehind_mirrors {last last' : Value} (hlast : last.Matches R last')
    {S : Span → Span → Prop} (hS : R.Covers S) {p p' : Program}
    (hp : p.Matches R S p') :
    (engine.runBehind last p).Mirrors R (Matches R)
      (engine.runBehind last' p') := by
  refine (evalForms_mirrors hh hlast hp.forms).bind fun v w hv => ?_
  have herror := hp.error
  generalize p.error = e? at herror
  generalize p'.error = e?' at herror
  cases herror with
  | none => exact mirrors_pure hv
  | some he =>
      exact mirrors_rethrow ⟨congrArg Fault.reading he.fault, hS.rel he.place⟩

end

/-- If all of the text above can be read, and the one below falls into tokens,
loading both at once is loading the one above and then running the one below,
with every place in it moved. On a host that looks at no place, and the
standard host is one, this and loading the two one after the other print the
same, leave the same in frames and cells and end with the same value or fault,
up to places in the text below, which are moved; those that the text above has
left are the same. The value is that of the text above if there is no form
below it. A text that does not fall into tokens fails where it does not, and
nothing is changed. -/
theorem load_in_pieces :
    Host.standard.Blind ∧ ∀ (engine : Engine) (file above source : String),
      (∀ forms us, readAll above file = .ok forms →
        tokenize source file = .ok us →
        let below := Program.ofTokens us
        let S := Span.Moves file source.toList (.behind above.toList)
        (∃ p, below.Matches (.lift S) S p ∧
          engine.load (above ++ "\n" ++ source) file =
            engine.load above file >>= (engine.runBehind · p)) ∧
        (engine.host.Blind → ∀ s,
          let R := Places.lift fun a b =>
            S a b ∨ (engine.load above file s).Bears a ∧ a = b
          Outcome.Matches R (Matches R)
            ((do
              let v ← engine.load above file
              let w ← engine.load source file
              return if below.forms.isEmpty then v else w : Action Value) s)
            (engine.load (above ++ "\n" ++ source) file s))) ∧
      ∀ e s, tokenize (above ++ "\n" ++ source) file = .error e →
        engine.load (above ++ "\n" ++ source) file s =
          .failure ⟨.lexical e.fault, some e.span⟩ s := by
  refine ⟨StandardHost.blind, fun engine file above source => ⟨?_, ?_⟩⟩
  · intro forms us habove hsource below S
    have hmoved :=
      forall₂_moved (within_of_tokenize hsource) (.behind above.toList)
    refine ⟨⟨_,
      Reader.ofTokens_matches ⟨Option.Rel.some, Span.Moves.through⟩ hmoved,
      load_below habove hsource⟩, ?_⟩
    intro hh s R
    have hS : R.Covers S :=
      ⟨fun h => Option.Rel.some (.inl h), Span.Moves.through⟩
    have hsame (a : Span) (ha : (engine.load above file s).Bears a) :
        R.rel (some a) (some a) :=
      Option.Rel.some (.inr ⟨ha, rfl⟩)
    rw [load_below habove hsource, load_eq_run hsource]
    refine Action.bind_matches hsame fun v hv => ?_
    have hrun :=
      runBehind_mirrors (hh R) hv hS (Reader.ofTokens_matches hS hmoved)
    rw [runBehind_eq] at hrun
    exact hrun
  · intro e s h
    rw [load, h]
    rfl

/-- A comment is open at the end of the text above, and the text below fails.
With a string that is not closed below, nothing is run. -/
theorem load_in_pieces_comment :
    let engine : Engine := ⟨Host.standard, 9⟩
    let moved : Places := .lift fun a b =>
      Span.Moves "a" "y".toList (.behind ":k ; x".toList) a b ∨
        (engine.load ":k ; x" "a" Store.bare).Bears a ∧ a = b
    let joined : Outcome Value :=
      engine.load (":k ; x" ++ "\n" ++ "y") "a" Store.bare
    joined = .failure ⟨.unbound "y", some ⟨"a", ⟨2, 1, 7⟩, ⟨2, 2, 8⟩⟩⟩
      Store.bare ∧
      Outcome.Matches moved (Matches moved)
        ((do
          let _ ← engine.load ":k ; x" "a"
          engine.load "y" "a" : Action Value) Store.bare) joined ∧
      engine.load (":k ; x" ++ "\n" ++ "\"y") "a" Store.bare =
        .failure ⟨.lexical .unterminatedString,
          some ⟨"a", ⟨2, 1, 7⟩, ⟨2, 3, 9⟩⟩⟩ Store.bare := by
  intro engine moved joined
  have hkeyword : tokenize ":k ; x" "a" =
      .ok [⟨.atom, ":k", ⟨"a", ⟨1, 1, 0⟩, ⟨1, 3, 2⟩⟩⟩] := by
    decide +kernel
  have hsymbol : tokenize "y" "a" =
      .ok [⟨.atom, "y", ⟨"a", ⟨1, 1, 0⟩, ⟨1, 2, 1⟩⟩⟩] := by
    decide +kernel
  have hstring : tokenize (":k ; x" ++ "\n" ++ "\"y") "a" =
      .error ⟨.unterminatedString, ⟨"a", ⟨2, 1, 7⟩, ⟨2, 3, 9⟩⟩⟩ := by
    decide +kernel
  have habove := Reader.ofTokens_of_delivers
    (Reader.delivers_atom ":k" ⟨"a", ⟨1, 1, 0⟩, ⟨1, 3, 2⟩⟩)
  have hbelow := Reader.ofTokens_of_delivers
    (Reader.delivers_atom "y" ⟨"a", ⟨1, 1, 0⟩, ⟨1, 2, 1⟩⟩)
  have hread : readAll ":k ; x" "a" = .ok [.keyword "k"] := by
    rw [readAll, hkeyword]
    dsimp only
    rw [habove]
    rfl
  obtain ⟨⟨p, hp, hload⟩, hpieces⟩ :=
    (load_in_pieces.2 engine "a" ":k ; x" "y").1 _ _ hread hsymbol
  have hrun := hpieces load_in_pieces.1 Store.bare
  refine ⟨?_, ?_,
    (load_in_pieces.2 engine "a" ":k ; x" "\"y").2 _ Store.bare hstring⟩
  · rw [hbelow] at hp
    obtain ⟨forms, error⟩ := p
    obtain ⟨hforms, herror⟩ := hp
    cases herror
    cases hforms with
    | cons hform hnil =>
      cases hnil
      cases hform with
      | symbol place =>
        cases place with
        | some hmoves =>
          show engine.load (":k ; x" ++ "\n" ++ "y") "a" Store.bare = _
          rw [hload, hmoves.moved, load_eq_run hkeyword, habove]
          rfl
  · have hlast : engine.load "y" "a" >>= pure = engine.load "y" "a" :=
      bind_pure _
    rw [hbelow] at hrun
    show Outcome.Matches moved _
      ((engine.load ":k ; x" "a" >>= fun _ => _) Store.bare) _
    rw [← hlast]
    exact hrun

end Engine

end TinyLisp
