import Mathlib.Order.MinMax
import StagedScript.Proofs.Reading.Hanging

/-!
# Reading the same line twice

What is read from a line does not depend on what is below it, nor on where the line stands.  Two
readers mirror each other on a line if what the first reads from it, the second reads alike where
the line stands in another text; they stop at the same token, and have taken as many opening
brackets as closing ones.
-/

namespace StagedScript

open Token (Kind)

/-! ## Brackets -/

namespace Token

/-- The token takes one count of open brackets to another.  A bracket is only closed if one is
open. -/
def Kind.Counts (n : Nat) (k : Kind) (m : Nat) : Prop :=
  match k with
  | .symbol s => if s.opens then m = n + 1 else if s.closes then n = m + 1 else m = n
  | _ => m = n

/-- The tokens take one count of open brackets to another, one after the other. -/
inductive Counts : Nat → List Kind → Nat → Prop
  | nil (n : Nat) : Counts n [] n
  | cons {n l m : Nat} {k : Kind} {ks : List Kind} : k.Counts n l → Counts l ks m →
      Counts n (k :: ks) m

theorem Counts.append {n l m : Nat} {ks ls : List Kind} (hks : Counts n ks l)
    (hls : Counts l ls m) :
    Counts n (ks ++ ls) m := by
  induction hks with
  | nil => exact hls
  | cons hk _ ih => exact .cons hk (ih hls)

end Token

/-! ## Places in two texts -/

/-- How places in two texts are compared: two of them correspond if they are sent to the same
one. -/
structure Places where
  /-- Where the places of the first text are sent. -/
  left : Nat → Nat
  /-- Where the places of the second text are sent. -/
  right : Nat → Nat
  left_mono : Monotone left
  right_mono : Monotone right

/-- All places correspond to each other. -/
def Places.nowhere : Places := ⟨fun _ => 0, fun _ => 0, monotone_const, monotone_const⟩

/-- The span with its ends sent elsewhere. -/
def Span.sent (f : Nat → Nat) (s : Span) : Span := ⟨f s.start, f s.stop⟩

/-- Spans correspond if their ends do. -/
def Span.Same (π : Places) (s t : Span) : Prop := t.sent π.right = s.sent π.left

namespace Span.Same

variable {π : Places} {s t s' t' : Span}

theorem start (h : s.Same π t) : π.right t.start = π.left s.start := congrArg Span.start h

theorem stop (h : s.Same π t) : π.right t.stop = π.left s.stop := congrArg Span.stop h

theorem mk {a b a' b' : Nat} (ha : π.right a' = π.left a) (hb : π.right b' = π.left b) :
    Span.Same π ⟨a, b⟩ ⟨a', b'⟩ := congrArg₂ Span.mk ha hb

theorem cover (h : s.Same π t) (h' : s'.Same π t') : (s.cover s').Same π (t.cover t') := by
  refine mk ?_ ?_
  · rw [π.left_mono.map_min, π.right_mono.map_min, h.start, h'.start]
  · rw [π.left_mono.map_max, π.right_mono.map_max, h.stop, h'.stop]

end Span.Same

/-! ## Two cursors on one line -/

/-- The cursor behind so many tokens. -/
def Cursor.after : Nat → Cursor → Cursor
  | 0, c => c
  | n + 1, c => after n c.advance

theorem Cursor.after_add (m n : Nat) (c : Cursor) : c.after (m + n) = (c.after m).after n := by
  induction m generalizing c with
  | zero => rw [Nat.zero_add, after]
  | succ m ih => rw [Nat.add_right_comm, after, ih, after]

/-- What a cursor keeps of the token that it moves past. -/
theorem Cursor.advance_of_rest {c : Cursor} {t : Token} {ts : List Token} (h : c.rest = t :: ts)
    (ht : t.kind ≠ .eof) : c.advance.rest = ts ∧ c.advance.lastStop = t.span.stop ∧
      c.advance.lastWordStop = if t.kind.isLayout then c.lastWordStop else t.span.stop := by
  obtain ⟨_, lastStop, lastWordStop, bound, hbound⟩ := c
  cases h
  unfold advance
  dsimp only
  split
  · next heof => exact absurd heof ht
  · exact ⟨rfl, rfl, rfl⟩

/-- Both cursors have these tokens ahead up to the end of the line, at corresponding places.  Where
the line ends may be elsewhere, since it tells of no expression where it is. -/
structure OnLine (π : Places) (ks rest rest' : List Kind) (c d : Cursor) : Prop where
  inner : ∀ k ∈ ks, k.Inner
  left : c.ahead = ks ++ .newline :: rest
  right : d.ahead = ks ++ .newline :: rest'
  spans : List.Forall₂ (Span.Same π) ((c.rest.take ks.length).map Token.span)
    ((d.rest.take ks.length).map Token.span)
  lastStop : π.right d.lastStop = π.left c.lastStop

namespace Token

/-- The next token of a line, or its end. -/
def next (ks : List Kind) : Kind := ks.headD .newline

/-- The next token is the one that is asked for, or it is not like it. -/
theorem next_cases {k : Kind} (hk : k.Fixed) (hnewline : k ≠ .newline) (ks : List Kind) :
    (next ks).alike k = false ∨ ∃ ls, ks = k :: ls := by
  cases h : (next ks).alike k with
  | false => exact .inl rfl
  | true =>
    have heq : next ks = k := (Kind.alike_iff hk).1 h
    cases ks with
    | nil => exact absurd heq.symm hnewline
    | cons j ls => exact .inr ⟨ls, by rw [← heq]; rfl⟩

end Token

namespace OnLine

variable {π : Places} {ks rest rest' : List Kind} {c d : Cursor} {k : Kind}

/-- Where the line stands need not matter. -/
theorem nowhere (hinner : ∀ k ∈ ks, k.Inner) (hc : c.ahead = ks ++ .newline :: rest)
    (hd : d.ahead = ks ++ .newline :: rest') : OnLine .nowhere ks rest rest' c d where
  inner := hinner
  left := hc
  right := hd
  spans := by
    have hlength {c : Cursor} {rest : List Kind} (hc : c.ahead = ks ++ .newline :: rest) :
        ((c.rest.take ks.length).map Token.span).length = ks.length := by
      have hahead := congrArg List.length hc
      rw [Cursor.ahead, List.length_map, List.length_append] at hahead
      rw [List.length_map, List.length_take, hahead]
      omega
    exact List.forall₂_iff_zip.2 ⟨(hlength hc).trans (hlength hd).symm, fun _ => rfl⟩
  lastStop := rfl

theorem kind_of_ahead {c : Cursor} (h : c.ahead = ks ++ .newline :: rest) :
    c.kind = Token.next ks := by
  cases ks with
  | nil => exact Cursor.kind_of_ahead h
  | cons k ks => exact Cursor.kind_of_ahead h

theorem following_of_ahead {c : Cursor} (h : c.ahead = k :: ks ++ .newline :: rest) :
    c.following = Token.next ks := by
  cases ks with
  | nil => exact Cursor.following_of_ahead h
  | cons l ks => exact Cursor.following_of_ahead h

theorem rest_ne_nil {c : Cursor} (h : c.ahead = ks ++ .newline :: rest) :
    ∃ t ts, c.rest = t :: ts := by
  refine List.exists_cons_of_ne_nil fun hnil => ?_
  rw [Cursor.ahead, hnil] at h
  simp at h

/-- The next tokens of the line stand at corresponding places. -/
theorem token (h : OnLine π (k :: ks) rest rest' c d) : c.token.span.Same π d.token.span := by
  obtain ⟨t, ts, ht⟩ := rest_ne_nil h.left
  obtain ⟨u, us, hu⟩ := rest_ne_nil h.right
  have hspans := h.spans
  rw [ht, hu, List.length_cons, List.take_succ_cons, List.take_succ_cons, List.map_cons,
    List.map_cons, List.forall₂_cons] at hspans
  unfold Cursor.token
  rw [ht, hu]
  exact hspans.1

theorem advance (h : OnLine π (k :: ks) rest rest' c d) :
    OnLine π ks rest rest' c.advance d.advance := by
  have hk := h.inner k List.mem_cons_self
  have hadvance {c : Cursor} {rest : List Kind} (hc : c.ahead = k :: ks ++ .newline :: rest) :
      ∃ t, c.rest = t :: c.advance.rest ∧ c.advance.lastStop = t.span.stop := by
    obtain ⟨t, ts, hrest, rfl, -⟩ := Cursor.rest_of_ahead hc
    obtain ⟨hts, hstop, -⟩ := Cursor.advance_of_rest hrest hk.2.2
    exact ⟨t, by rw [hrest, hts], hstop⟩
  obtain ⟨t, ht, htstop⟩ := hadvance h.left
  obtain ⟨u, hu, hustop⟩ := hadvance h.right
  have hspans := h.spans
  rw [ht, hu, List.length_cons, List.take_succ_cons, List.take_succ_cons, List.map_cons,
    List.map_cons, List.forall₂_cons] at hspans
  exact {
    inner := fun l hl => h.inner l (List.mem_cons_of_mem k hl)
    left := Cursor.ahead_advance h.left hk.2.2
    right := Cursor.ahead_advance h.right hk.2.2
    spans := hspans.2
    lastStop := by rw [htstop, hustop, hspans.1.stop] }

/-- Behind the line there is what is below it. -/
theorem ahead_after (h : OnLine π ks rest rest' c d) : (d.after (ks.length + 1)).ahead = rest' := by
  induction ks generalizing c d with
  | nil => exact Cursor.ahead_advance h.right (by simp)
  | cons k ks ih => exact ih h.advance

theorem length_lt (h : OnLine π ks rest rest' c d) :
    ks.length < c.bound + 1 ∧ ks.length < d.bound + 1 := by
  have hc := c.length_ahead_le
  have hd := d.length_ahead_le
  rw [h.left, List.length_append] at hc
  rw [h.right, List.length_append] at hd
  omega

end OnLine

/-! ## Two readers on one line -/

/-- Whatever `x` reads from the line `ks`, `y` reads the like of it where the line stands in the
other text; the tokens that are taken lead from `n` open brackets to `m`. -/
def Mirrors {α : Type} (π : Places) (n : Nat) (ks : List Kind) (x y : Parse α) (R : α → α → Prop)
    (m : Nat) : Prop :=
  ∀ ⦃rest rest' : List Kind⦄ ⦃c d : Cursor⦄, OnLine π ks rest rest' c d → ∀ ⦃a : α⦄ ⦃c' : Cursor⦄,
    x c = .ok a c' → ∃ b d' used left, y d = .ok b d' ∧ R a b ∧ ks = used ++ left ∧
      Token.Counts n used m ∧ OnLine π left rest rest' c' d' ∧ c' = c.after used.length ∧
      d' = d.after used.length

namespace Mirrors

variable {π : Places} {α β : Type} {R : α → α → Prop} {S : β → β → Prop} {n l m : Nat}
    {ks : List Kind} {k : Kind}

theorem pure {a b : α} (h : R a b) : Mirrors π n ks (Pure.pure a) (Pure.pure b) R n := by
  rintro rest rest' c d hline _ _ ⟨⟩
  exact ⟨b, d, [], ks, rfl, h, rfl, .nil n, hline, rfl, rfl⟩

theorem throw {e : SyntaxError} {y : Parse α} : Mirrors π n ks (MonadExcept.throw e) y R m := by
  rintro _ _ _ _ _ _ _ ⟨⟩

theorem failAt {span : Span} {cause : SyntaxError.Cause} {y : Parse α} :
    Mirrors π n ks (Parse.failAt span cause) y R m := throw

theorem bind {x y : Parse α} {f g : α → Parse β} (hx : Mirrors π n ks x y R l)
    (hf : ∀ a b left, R a b → left.length ≤ ks.length → Mirrors π l left (f a) (g b) S m) :
    Mirrors π n ks (x >>= f) (y >>= g) S m := by
  intro rest rest' c d hline b c'' h
  obtain ⟨a, c', hxa, hfb⟩ := EStateM.bind_eq_ok.1 h
  obtain ⟨a', d', used, left, hya, hR, rfl, hused, hline', hc', hd'⟩ := hx hline hxa
  obtain ⟨b', d'', more, left', hgb, hS, rfl, hmore, hline'', hc'', hd''⟩ :=
    hf a a' left hR (by simp) hline' hfb
  refine ⟨b', d'', used ++ more, left', ?_, hS, (List.append_assoc ..).symm, hused.append hmore,
    hline'', ?_, ?_⟩
  · rw [EStateM.bind_ok hya, hgb]
  · rw [List.length_append, Cursor.after_add, ← hc', hc'']
  · rw [List.length_append, Cursor.after_add, ← hd', hd'']

/-- A reader that reads nothing from the line is like any other. -/
theorem of_false {x y : Parse α} (h : Mirrors π n ks x y (fun _ _ => False) l) :
    Mirrors π n ks x y R m := by
  intro _ _ _ _ hline _ _ hx
  obtain ⟨-, -, -, -, -, hfalse, -⟩ := h hline hx
  exact hfalse.elim

/-- What is read depends on the cursor alone. -/
theorem get {f g : Cursor → Parse α} (hf : ∀ rest rest' c d, OnLine π ks rest rest' c d →
      Mirrors π n ks (f c) (g d) R m) :
    Mirrors π n ks (MonadState.get >>= f) (MonadState.get >>= g) R m :=
  fun _ _ c d hline => hf _ _ c d hline hline

theorem kind {f g : Kind → Parse α}
    (hf : Mirrors π n ks (f (Token.next ks)) (g (Token.next ks)) R m) :
    Mirrors π n ks (Parse.kind >>= f) (Parse.kind >>= g) R m := by
  refine get fun rest rest' c d hline => ?_
  rw [OnLine.kind_of_ahead hline.left, OnLine.kind_of_ahead hline.right]
  exact hf

theorem here {f g : Span → Parse α}
    (hf : ∀ span span', span.Same π span' → Mirrors π n (k :: ks) (f span) (g span') R m) :
    Mirrors π n (k :: ks) (Parse.here >>= f) (Parse.here >>= g) R m :=
  get fun _ _ _ _ hline => hf _ _ hline.token

/-- It does not matter where the next token is. -/
theorem elsewhere {f g : Span → Parse α}
    (hf : ∀ span span', Mirrors π n ks (f span) (g span') R m) :
    Mirrors π n ks (Parse.here >>= f) (Parse.here >>= g) R m :=
  get fun _ _ _ _ _ => hf _ _

theorem spanFrom {f g : Span → Parse α} {start start' : Nat}
    (hstart : π.right start' = π.left start)
    (hf : ∀ span span', span.Same π span' → Mirrors π n ks (f span) (g span') R m) :
    Mirrors π n ks (Parse.spanFrom start >>= f) (Parse.spanFrom start' >>= g) R m :=
  get fun _ _ _ _ hline => hf _ _ (.mk hstart hline.lastStop)

theorem rounds {f g : Nat → Parse α}
    (hf : ∀ i j, ks.length < i → ks.length < j → Mirrors π n ks (f i) (g j) R m) :
    Mirrors π n ks (Parse.rounds >>= f) (Parse.rounds >>= g) R m :=
  get fun _ _ _ _ hline => hf _ _ hline.length_lt.1 hline.length_lt.2

theorem advance {f g : Unit → Parse α} (hk : k.Counts n l) (hf : Mirrors π l ks (f ()) (g ()) R m) :
    Mirrors π n (k :: ks) (Parse.advance >>= f) (Parse.advance >>= g) R m := by
  intro rest rest' c d hline a c' h
  obtain ⟨b, d', used, left, hb, hR, rfl, hused, hline', hc', hd'⟩ := hf hline.advance h
  exact ⟨b, d', k :: used, left, hb, hR, rfl, .cons hk hused, hline', hc', hd'⟩

theorem sees {f g : Bool → Parse α} {k : Kind}
    (hf : Mirrors π n ks (f ((Token.next ks).alike k)) (g ((Token.next ks).alike k)) R m) :
    Mirrors π n ks (Parse.sees k >>= f) (Parse.sees k >>= g) R m := by
  refine get fun rest rest' c d hline => ?_
  change Mirrors π n ks (f (c.kind.alike k)) (g (d.kind.alike k)) R m
  rw [OnLine.kind_of_ahead hline.left, OnLine.kind_of_ahead hline.right]
  exact hf

theorem accept {f g : Bool → Parse α} (hk : k.Fixed)
    (hnewline : k ≠ .newline) (hcounts : k.Counts n l)
    (hyes : ∀ ls, ks = k :: ls → Mirrors π l ls (f true) (g true) R m)
    (hno : Mirrors π n ks (f false) (g false) R m) :
    Mirrors π n ks (Parse.accept k >>= f) (Parse.accept k >>= g) R m := by
  unfold Parse.accept
  rw [bind_assoc, bind_assoc]
  refine sees ?_
  rcases Token.next_cases hk hnewline ks with h | ⟨ls, rfl⟩
  · rw [h, if_neg Bool.false_ne_true, pure_bind, pure_bind]
    exact hno
  · rw [show (Token.next (k :: ls)).alike k = true from (Token.Kind.alike_iff hk).2 rfl,
      if_pos rfl, bind_assoc, bind_assoc]
    exact advance hcounts (hyes ls rfl)

theorem missing {what : SyntaxError.Expected} {y : Parse α} :
    Mirrors π n ks (Parse.missing what) y R m := fun _ _ _ _ _ _ _ h => by cases h

theorem expect {f g : Unit → Parse α} (hk : k.Fixed)
    (hnewline : k ≠ .newline) (hcounts : k.Counts n l)
    (hf : ∀ ls, ks = k :: ls → Mirrors π l ls (f ()) (g ()) R m) :
    Mirrors π n ks (Parse.expect k >>= f) (Parse.expect k >>= g) R m := by
  unfold Parse.expect
  rw [bind_assoc, bind_assoc]
  refine sees ?_
  rcases Token.next_cases hk hnewline ks with h | ⟨ls, rfl⟩
  · rw [h, if_neg Bool.false_ne_true]
    rintro _ _ _ _ _ _ _ ⟨⟩
  · rw [show (Token.next (k :: ls)).alike k = true from (Token.Kind.alike_iff hk).2 rfl,
      if_pos rfl]
    exact advance hcounts (hf ls rfl)

theorem name {f g : String → Parse α} (hf : ∀ x ls, ks = .ident x :: ls →
      Mirrors π n ls (f x) (g x) R m) : Mirrors π n ks (Parse.name >>= f)
      (Parse.name >>= g) R m := by
  unfold Parse.name
  rw [bind_assoc, bind_assoc]
  refine kind ?_
  cases ks with
  | nil => exact fun _ _ _ _ _ _ _ h => by cases h
  | cons k ls =>
    rw [Token.next, List.headD_cons]
    split
    · rw [bind_assoc, bind_assoc]
      exact advance rfl (hf _ ls rfl)
    · exact fun _ _ _ _ _ _ _ h => by cases h

/-- A check that fails on one side only if it fails on the other. -/
theorem check {b b' : Bool} (hb : b = b') {span span' : Span} {cause cause' : SyntaxError.Cause}
    {x y : Parse β} (hx : Mirrors π n ks x y S m) :
    Mirrors π n ks (if b = true then (Parse.failAt span cause : Parse α) >>= fun _ => x else x)
      (if b' = true then (Parse.failAt span' cause' : Parse α) >>= fun _ => y else y) S m := by
  subst hb
  cases b with
  | true => rintro _ _ _ _ _ _ _ ⟨⟩
  | false => exact hx

end Mirrors

end StagedScript
