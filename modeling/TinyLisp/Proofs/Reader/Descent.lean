import TinyLisp.Proofs.Reader.Grammar

/-!
# Reading by descent

The reader keeps what is open on a stack. It can as well be written as functions
that call each other: one that reads a form, and one for each kind of brackets,
which look at the next token to see whether the bracket closes, call for a form
if it does not, and fail when there is no token. A caller always looks first, so
the function for a form finds a token, and the closing bracket that was seen is
there to be taken.

In the functions below a token that is missing all the same is a `Lapse`, and
the only outcome from there on. They agree with the reader on all tokens, down
to the tokens that are left, and the reader knows no lapse. The induction is on
the number of tokens. What is open in front of a call is all the same to it: its
outcome says how the reader goes on from any stack.
-/

namespace TinyLisp.Reader

namespace Descent

/-- A token is missing. -/
inductive Lapse where
  /-- Where a form is to be read. -/
  | noForm
  /-- Where the closing bracket is to be taken. -/
  | noCloser (opener : Token)
deriving DecidableEq, Repr

/-- What a call on `n` tokens comes to. A form takes at least one of them. -/
inductive Outcome (n : Nat) where
  | form (value : Value) (rest : List Token) (h : rest.length < n)
  | error (e : ReadError) (rest : List Token)
  | lapse (l : Lapse)

namespace Outcome

variable {n m : Nat}

/-- Go on behind a form. -/
def andThen (o : Outcome n)
    (next : (value : Value) → (rest : List Token) → rest.length < n →
      Outcome m) :
    Outcome m :=
  match o with
  | form value rest h => next value rest h
  | error e rest => error e rest
  | lapse l => lapse l

/-- The outcome of a call on more tokens that comes to the same. -/
def weaken (h : n ≤ m) (o : Outcome n) : Outcome m :=
  o.andThen fun value rest hrest => form value rest (Nat.lt_of_lt_of_le hrest h)

def result : Outcome n → Except Lapse Result
  | form value rest _ => .ok (.form value rest)
  | error e rest => .ok (.error e rest)
  | lapse l => .error l

end Outcome

/-- The kind of the next token, which stays where it is. -/
def peek (ts : List Token) : Option TokenKind :=
  ts.head?.map Token.kind

/-- Take the closing bracket and make the form that it ends. -/
def close (opener : Token) (make : Option Span → Value) :
    (ts : List Token) → Outcome ts.length
  | [] => .lapse (.noCloser opener)
  | token :: rest =>
    .form (make (between opener token)) rest (Nat.lt_succ_self _)

mutual

def form (ts : List Token) : Outcome ts.length :=
  match ts with
  | [] => .lapse .noForm
  | token :: rest =>
    match token.kind with
    | .opening .round =>
      (items token .round .list [] rest).weaken (Nat.le_succ _)
    | .opening .square =>
      (items token .square (fun xs => .vector (.ofList xs)) [] rest).weaken
        (Nat.le_succ _)
    | .opening .curly => (pairs token [] rest).weaken (Nat.le_succ _)
    | .closing _ => .error ⟨.unexpected token.text, token.span⟩ rest
    | .mark m =>
      if rest.isEmpty then .error ⟨.missingForm token.text, token.span⟩ rest
      else (form rest).andThen fun value rest' h =>
        .form (marked m token value) rest' (Nat.lt_succ_of_lt h)
    | .string content => .form (.string content) rest (Nat.lt_succ_self _)
    | .atom => .form (classify token.text token.span) rest (Nat.lt_succ_self _)
termination_by (ts.length, 0)

/-- The forms up to a closing bracket. Those before `ts` stand in reverse. -/
def items (opener : Token) (b : Bracket)
    (make : List Value → Option Span → Value) (before : List Value)
    (ts : List Token) : Outcome ts.length :=
  match peek ts with
  | none => .error ⟨.unclosed b, opener.span⟩ ts
  | some kind =>
    if kind = .closing b then close opener (make before.reverse) ts
    else (form ts).andThen fun value rest h =>
      (items opener b make (value :: before) rest).weaken (Nat.le_of_lt h)
termination_by (ts.length, 1)

/-- The pairs of a map literal. Those before `ts` stand in reverse. -/
def pairs (opener : Token) (before : List (Value × Value)) (ts : List Token) :
    Outcome ts.length :=
  match peek ts with
  | none => .error ⟨.unclosed .curly, opener.span⟩ ts
  | some kind =>
    if kind = .closing .curly then close opener (.mapForm before.reverse) ts
    else (form ts).andThen fun key rest h =>
      match peek rest with
      | none => .error ⟨.missingValue, opener.span⟩ rest
      | some kind =>
        if kind = .closing .curly then .error ⟨.missingValue, opener.span⟩ rest
        else (form rest).andThen fun value rest' h' =>
          (pairs opener ((key, value) :: before) rest').weaken
            (Nat.le_of_lt (Nat.lt_trans h' h))
termination_by (ts.length, 1)

end

/-- Read the next form, if there are tokens. -/
def next? (ts : List Token) : Option (Except Lapse Result) :=
  if ts.isEmpty then none else some (form ts).result

end Descent

/-! ## One token -/

theorem readWith_of_more {stack stack' : List Pending} {token : Token}
    {top : Pending} (h : feed stack token = .more top stack')
    (rest : List Token) :
    readWith stack token rest = resume (.more top stack') rest := by
  unfold readWith
  rw [h]
  cases rest <;> rfl

theorem readWith_of_stuck {stack : List Pending} {token : Token} {e : ReadError}
    (h : feed stack token = .stuck e) (rest : List Token) :
    readWith stack token rest = .error e (leftAfter e token rest) := by
  unfold readWith
  rw [h]

theorem feed_opening {token : Token} {b : Bracket} (h : token.kind = .opening b)
    (stack : List Pending) :
    feed stack token = .more (.ofOpener b token) stack := by
  rw [feed, h]

theorem feed_mark {token : Token} {m : Mark} (h : token.kind = .mark m)
    (stack : List Pending) :
    feed stack token = .more (.mark m token) stack := by
  rw [feed, h]

namespace Descent

/-! ## The stack in front of a call -/

/-- The call comes to what the reader does with this on the stack: a form is
handed to the innermost of what is open, and an error is the end. -/
inductive Outcome.Leads {n : Nat} :
    Outcome n → List Pending → Result → Prop where
  | form {value : Value} {rest : List Token} {h : rest.length < n}
      {stack : List Pending} :
      Leads (.form value rest h) stack (resume (deliver value stack) rest)
  | error {e : ReadError} {rest : List Token} {stack : List Pending} :
      Leads (.error e rest) stack (.error e rest)

namespace Outcome.Leads

variable {n m : Nat} {o : Outcome n} {stack stack' : List Pending} {r : Result}

theorem andThen (h : o.Leads stack r)
    {next : (value : Value) → (rest : List Token) → rest.length < n → Outcome m}
    (hnext : ∀ value rest hrest, r = resume (deliver value stack) rest →
      (next value rest hrest).Leads stack' r) :
    (o.andThen next).Leads stack' r := by
  cases h with
  | form => exact hnext _ _ _ rfl
  | error => exact .error

theorem weaken (h : o.Leads stack r) (hle : n ≤ m) :
    (o.weaken hle).Leads stack r := by
  cases h with
  | form => exact .form
  | error => exact .error

end Outcome.Leads

/-- The token closes nothing here. -/
def Refuses (stack : List Pending) (token : Token) : Prop :=
  ∀ b, token.kind = .closing b →
    Reader.close b token stack = .stuck ⟨.unexpected token.text, token.span⟩

theorem refuses_mark (m : Mark) (mark token : Token) (stack : List Pending) :
    Refuses (.mark m mark :: stack) token := by
  intro b _
  cases b <;> rfl

theorem refuses_map {token : Token} (h : token.kind ≠ .closing .curly)
    (opener : Token) (before : List (Value × Value)) (key : Option Value)
    (stack : List Pending) :
    Refuses (.map opener before key :: stack) token := by
  intro b hb
  cases b with
  | round => rfl
  | square => rfl
  | curly => exact absurd hb h

/-- What the reader keeps open while items are read up to a closing bracket. -/
structure Keeps (opener : Token) (b : Bracket)
    (make : List Value → Option Span → Value) (top : List Value → Pending) :
    Prop where
  deliver : ∀ form before stack,
    deliver form (top before :: stack) = .more (top (form :: before)) stack
  close : ∀ before token stack, Reader.close b token (top before :: stack) =
    Reader.deliver (make before.reverse (between opener token)) stack
  refuses : ∀ before token stack, token.kind ≠ .closing b →
    Refuses (top before :: stack) token
  unfinished : ∀ before, (top before).unfinished = ⟨.unclosed b, opener.span⟩

theorem keeps_list (opener : Token) :
    Keeps opener .round .list (.list opener) := by
  refine ⟨fun _ _ _ => rfl, fun _ _ _ => rfl, fun _ _ _ hne b hb => ?_,
    fun _ => rfl⟩
  cases b with
  | round => exact absurd hb hne
  | square => rfl
  | curly => rfl

theorem keeps_vector (opener : Token) :
    Keeps opener .square (fun xs => .vector (.ofList xs)) (.vector opener) := by
  refine ⟨fun _ _ _ => rfl, fun _ _ _ => rfl, fun _ _ _ hne b hb => ?_,
    fun _ => rfl⟩
  cases b with
  | round => rfl
  | square => exact absurd hb hne
  | curly => rfl

/-! ## The two readers agree -/

mutual

theorem form_leads {stack : List Pending} {token : Token}
    (hstack : Refuses stack token) (ts : List Token) :
    (form (token :: ts)).Leads stack (readWith stack token ts) := by
  rw [form]
  split
  · next hkind =>
      rw [readWith_of_more (feed_opening hkind stack)]
      exact (items_leads (keeps_list token) [] stack ts).weaken _
  · next hkind =>
      rw [readWith_of_more (feed_opening hkind stack)]
      exact (items_leads (keeps_vector token) [] stack ts).weaken _
  · next hkind =>
      rw [readWith_of_more (feed_opening hkind stack)]
      exact (pairs_leads token [] stack ts).weaken _
  · next b hkind =>
      rw [readWith_of_stuck ((feed_closing hkind stack).trans (hstack b hkind))]
      exact .error
  · next m hkind =>
      rw [readWith_of_more (feed_mark hkind stack)]
      cases ts with
      | nil => exact .error
      | cons next ts =>
          refine (form_leads (refuses_mark m token next stack) ts).andThen ?_
          intro value rest hrest hr
          rw [hr, deliver]
          exact .form
  · next content hkind =>
      have hfeed : feed stack token = deliver (.string content) stack := by
        rw [feed, hkind]
      rw [readWith_of_feed hfeed]
      exact .form
  · next hkind =>
      have hfeed : feed stack token =
          deliver (classify token.text token.span) stack := by
        rw [feed, hkind]
      rw [readWith_of_feed hfeed]
      exact .form
termination_by (ts.length + 1, 0)

theorem items_leads {opener : Token} {b : Bracket}
    {make : List Value → Option Span → Value} {top : List Value → Pending}
    (hk : Keeps opener b make top) (before : List Value) (stack : List Pending)
    (ts : List Token) :
    (items opener b make before ts).Leads stack
      (resume (.more (top before) stack) ts) := by
  rw [items]
  cases ts with
  | nil =>
      rw [resume, hk.unfinished]
      exact .error
  | cons token ts =>
      show Outcome.Leads (if token.kind = .closing b then _ else _) _
        (readWith _ token ts)
      split
      · next hclosing =>
          rw [readWith_of_feed ((feed_closing hclosing _).trans
            (hk.close before token stack))]
          exact .form
      · next hother =>
          refine (form_leads (hk.refuses before token stack hother) ts).andThen ?_
          intro value rest hrest hr
          rw [hr, hk.deliver]
          exact (items_leads hk (value :: before) stack rest).weaken _
termination_by (ts.length, 1)

theorem pairs_leads (opener : Token) (before : List (Value × Value))
    (stack : List Pending) (ts : List Token) :
    (pairs opener before ts).Leads stack
      (resume (.more (.map opener before none) stack) ts) := by
  rw [pairs]
  cases ts with
  | nil => exact .error
  | cons token ts =>
      show Outcome.Leads (if token.kind = .closing .curly then _ else _) _
        (readWith _ token ts)
      split
      · next hclosing =>
          have hfeed : feed (.map opener before none :: stack) token =
              deliver (.mapForm before.reverse (between opener token)) stack :=
            feed_closing hclosing _
          rw [readWith_of_feed hfeed]
          exact .form
      · next hother =>
          refine (form_leads (refuses_map hother opener before none stack)
            ts).andThen ?_
          intro key rest hrest hr
          rw [hr, deliver]
          cases rest with
          | nil => exact .error
          | cons token' rest =>
              show Outcome.Leads
                (if token'.kind = .closing .curly then _ else _) _
                (readWith _ token' rest)
              split
              · next hclosing =>
                  have hfeed :
                      feed (.map opener before (some key) :: stack) token' =
                        .stuck ⟨.missingValue, opener.span⟩ :=
                          feed_closing hclosing _
                  rw [readWith_of_stuck hfeed]
                  exact .error
              · next hother =>
                  have hrefuses :=
                    refuses_map hother opener before (some key) stack
                  refine (form_leads hrefuses rest).andThen ?_
                  intro value rest' hrest' hr'
                  have hlt : rest'.length < (token :: ts).length :=
                    Nat.lt_trans hrest' hrest
                  rw [hr', deliver]
                  exact (pairs_leads opener ((key, value) :: before) stack
                    rest').weaken _
termination_by (ts.length, 1)

end

theorem Outcome.Leads.result {n : Nat} {o : Outcome n} {r : Result}
    (h : o.Leads [] r) : o.result = .ok r := by
  cases h with
  | form => rfl
  | error => rfl

/-- On all tokens, reading by descent meets no lapse and comes to what
the reader does. -/
theorem next?_eq (ts : List Token) :
    Descent.next? ts = (Reader.next? ts).map .ok := by
  cases ts with
  | nil => rfl
  | cons token ts =>
      have hstack : Refuses [] token := fun b _ => by cases b <;> rfl
      exact congrArg some (form_leads hstack ts).result

end Descent

end TinyLisp.Reader
