import StagedScript.Proofs.Basic
import StagedScript.Syntax.Stmt

/-!
# What is read from given tokens

How tokens are read depends on their kinds.  Given these, what a parser reads from them follows from
what its parts read, one after the other.
-/

namespace StagedScript

namespace Cursor

/-- The kinds of the tokens that are still to be read. -/
def ahead (c : Cursor) : List Token.Kind := c.rest.map Token.kind

variable {c : Cursor} {k : Token.Kind} {ks : List Token.Kind}

theorem rest_of_ahead (h : c.ahead = k :: ks) :
    ∃ t ts, c.rest = t :: ts ∧ t.kind = k ∧ ts.map Token.kind = ks := by
  obtain ⟨t, ts, hrest, hk, hks⟩ := List.map_eq_cons_iff.1 h
  exact ⟨t, ts, hrest, hk, hks⟩

theorem kind_of_ahead (h : c.ahead = k :: ks) : c.kind = k := by
  obtain ⟨t, ts, hrest, hk, -⟩ := rest_of_ahead h
  rw [kind, token, hrest]
  exact hk

theorem following_of_ahead {l : Token.Kind} (h : c.ahead = k :: l :: ks) : c.following = l := by
  obtain ⟨t, ts, hrest, -, hks⟩ := rest_of_ahead h
  obtain ⟨u, us, rfl, hl, -⟩ := List.map_eq_cons_iff.1 hks
  rw [following, hrest]
  exact hl

theorem sees_of_ahead (h : c.ahead = k :: ks) (l : Token.Kind) : c.sees l = k.alike l := by
  rw [sees, kind_of_ahead h]

theorem ahead_advance (h : c.ahead = k :: ks) (hk : k ≠ .eof) : c.advance.ahead = ks := by
  obtain ⟨t, ts, hrest, rfl, hks⟩ := rest_of_ahead h
  obtain ⟨rest, lastStop, lastWordStop, bound, hbound⟩ := c
  cases hrest
  unfold advance
  dsimp only
  split
  · next heq => exact absurd heq hk
  · exact hks

theorem length_ahead_le (c : Cursor) : c.ahead.length ≤ c.bound := by
  rw [ahead, List.length_map]
  exact c.length_rest_le

end Cursor

/-- From the cursor the parser reads something with a property, up to tokens of these kinds. -/
def Yields {α : Type} (x : Parse α) (c : Cursor) (P : α → Prop) (ks : List Token.Kind) : Prop :=
  ∃ a c', x c = .ok a c' ∧ P a ∧ c'.ahead = ks

namespace Yields

variable {α β : Type} {P : α → Prop} {Q : β → Prop} {c : Cursor} {k : Token.Kind}
  {ks ls : List Token.Kind}

theorem pure {a : α} (ha : P a) (h : c.ahead = ks) : Yields (Pure.pure a) c P ks :=
  ⟨a, c, rfl, ha, h⟩

theorem mono {P' : α → Prop} {x : Parse α} (hx : Yields x c P ks) (h : ∀ a, P a → P' a) :
    Yields x c P' ks :=
  let ⟨a, c', hx, ha, hks⟩ := hx
  ⟨a, c', hx, h a ha, hks⟩

theorem bind {x : Parse α} {f : α → Parse β} (hx : Yields x c P ks)
    (hf : ∀ a c', P a → c'.ahead = ks → Yields (f a) c' Q ls) : Yields (x >>= f) c Q ls := by
  obtain ⟨a, c', hx, ha, hks⟩ := hx
  obtain ⟨b, c'', hb, hQ, hls⟩ := hf a c' ha hks
  refine ⟨b, c'', ?_, hQ, hls⟩
  change EStateM.bind x f c = _
  unfold EStateM.bind
  rw [hx]
  exact hb

/-- What is read depends on the cursor alone. -/
theorem get {f : Cursor → Parse α} (hf : Yields (f c) c P ks) :
    Yields (MonadState.get >>= f) c P ks := hf

theorem kind {f : Token.Kind → Parse α} (h : c.ahead = k :: ls) (hf : Yields (f k) c P ks) :
    Yields (Parse.kind >>= f) c P ks := by
  rw [← Cursor.kind_of_ahead h] at hf
  exact hf

theorem here {f : Span → Parse α} (hf : ∀ span, Yields (f span) c P ks) :
    Yields (Parse.here >>= f) c P ks := hf _

theorem spanFrom {f : Span → Parse α} (start : Nat) (hf : ∀ span, Yields (f span) c P ks) :
    Yields (Parse.spanFrom start >>= f) c P ks := hf _

theorem blockSpanFrom {f : Span → Parse α} (start : Nat) (hf : ∀ span, Yields (f span) c P ks) :
    Yields (Parse.blockSpanFrom start >>= f) c P ks := hf _

theorem rounds {f : Nat → Parse α} (hf : ∀ n, c.ahead.length < n → Yields (f n) c P ks) :
    Yields (Parse.rounds >>= f) c P ks := hf _ (Nat.lt_succ_of_le c.length_ahead_le)

theorem advance {f : Unit → Parse α} (h : c.ahead = k :: ls) (hk : k ≠ .eof)
    (hf : ∀ c' : Cursor, c'.ahead = ls → Yields (f ()) c' P ks) :
    Yields (Parse.advance >>= f) c P ks := hf _ (Cursor.ahead_advance h hk)

theorem sees {f : Bool → Parse α} {l : Token.Kind} (h : c.ahead = k :: ls)
    (hf : Yields (f (k.alike l)) c P ks) : Yields (Parse.sees l >>= f) c P ks := by
  rw [← Cursor.sees_of_ahead h] at hf
  exact hf

/-- The next token is read if it is of the kind that is asked for. -/
theorem accept {f : Bool → Parse α} {l : Token.Kind} (h : c.ahead = k :: ls)
    (hkl : k.alike l = true)
    (hk : k ≠ .eof) (hf : ∀ c' : Cursor, c'.ahead = ls → Yields (f true) c' P ks) :
    Yields (Parse.accept l >>= f) c P ks := by
  unfold Parse.accept
  rw [bind_assoc]
  refine sees h ?_
  rw [hkl, if_pos rfl, bind_assoc]
  exact advance h hk fun c' hc' => hf c' hc'

/-- The next token stays if it is of another kind than the one that is asked for. -/
theorem reject {f : Bool → Parse α} {l : Token.Kind} (h : c.ahead = k :: ls)
    (hkl : k.alike l = false) (hf : Yields (f false) c P ks) :
    Yields (Parse.accept l >>= f) c P ks := by
  unfold Parse.accept
  rw [bind_assoc]
  refine sees h ?_
  rw [hkl]
  exact hf

theorem expect {f : Unit → Parse α} {l : Token.Kind} (h : c.ahead = k :: ls)
    (hkl : k.alike l = true)
    (hk : k ≠ .eof) (hf : ∀ c' : Cursor, c'.ahead = ls → Yields (f ()) c' P ks) :
    Yields (Parse.expect l >>= f) c P ks := by
  unfold Parse.expect
  rw [bind_assoc]
  refine sees h ?_
  rw [hkl, if_pos rfl]
  exact advance h hk hf

theorem name {f : String → Parse α} {x : String} (h : c.ahead = .ident x :: ls)
    (hf : ∀ c' : Cursor, c'.ahead = ls → Yields (f x) c' P ks) :
    Yields (Parse.name >>= f) c P ks := by
  unfold Parse.name
  rw [bind_assoc]
  refine kind h ?_
  dsimp only
  rw [bind_assoc]
  exact advance h (by simp) fun c' hc' => hf c' hc'

theorem expected {l : Token.Kind} (h : c.ahead = k :: ks) (hkl : k.alike l = true) (hk : k ≠ .eof) :
    Yields (Parse.expect l) c (fun _ => True) ks := by
  rw [← bind_pure (Parse.expect l)]
  exact .expect h hkl hk fun c' hc' => .pure trivial hc'

theorem accepted {l : Token.Kind} (h : c.ahead = k :: ks) (hkl : k.alike l = true) (hk : k ≠ .eof) :
    Yields (Parse.accept l) c (· = true) ks := by
  rw [← bind_pure (Parse.accept l)]
  exact .accept h hkl hk fun c' hc' => .pure rfl hc'

theorem named {x : String} (h : c.ahead = .ident x :: ks) : Yields Parse.name c (· = x) ks := by
  rw [← bind_pure Parse.name]
  exact .name h fun c' hc' => .pure rfl hc'

/-- What is read first is known, so what is read from there on is known to be read behind it. -/
theorem of_bind {x : Parse α} {f : α → Parse β} {b : β} {c' : Cursor} (hx : Yields x c P ks)
    (h : (x >>= f) c = .ok b c') : ∃ a c₁, P a ∧ c₁.ahead = ks ∧ f a c₁ = .ok b c' := by
  obtain ⟨a, c₁, hxa, ha, hks⟩ := hx
  refine ⟨a, c₁, ha, hks, ?_⟩
  rwa [EStateM.bind_ok hxa] at h

end Yields

end StagedScript

/-!
## What is known of whatever is read

If a parser reads something, then this has come about by its steps, and what is known of each of
them is known of the whole.
-/

namespace StagedScript

open Parse

theorem startsExpr_of_sign? {k : Token.Kind} {found : UnaryOp × Nat} (h : sign? k = some found) :
    startsExpr k = true := by
  unfold sign? at h
  split at h
  case h_5 => cases h
  all_goals rfl

/-- Whatever the parser reads from the cursor, it and the cursor behind it have the property. -/
def Ensures {α : Type} (x : Parse α) (c : Cursor) (P : α → Cursor → Prop) : Prop :=
  ∀ a c', x c = .ok a c' → P a c'

namespace Ensures

variable {α β : Type} {P : α → Cursor → Prop} {Q : β → Cursor → Prop} {c : Cursor}

theorem pure {a : α} (h : P a c) : Ensures (Pure.pure a) c P := by
  rintro _ _ ⟨⟩
  exact h

theorem failAt {span : Span} {cause : SyntaxError.Cause} :
    Ensures (Parse.failAt span cause : Parse α) c P := by
  rintro _ _ ⟨⟩

theorem mono {P' : α → Cursor → Prop} {x : Parse α} (hx : Ensures x c P)
    (h : ∀ a c', P a c' → P' a c') : Ensures x c P' := fun a c' hok => h a c' (hx a c' hok)

theorem bind {x : Parse α} {f : α → Parse β} (hx : Ensures x c P)
    (hf : ∀ a c', P a c' → Ensures (f a) c' Q) : Ensures (x >>= f) c Q := by
  intro b c'' h
  obtain ⟨a, c', ha, hb⟩ := EStateM.bind_eq_ok.1 h
  exact hf a c' (hx a c' ha) b c'' hb

/-- What is known of the first step is known of the whole. -/
theorem first {p : Prop} {x : Parse α} {f : α → Parse β} (hx : Ensures x c fun _ _ => p) :
    Ensures (x >>= f) c fun _ _ => p := hx.bind fun _ _ h _ _ _ => h

/-- Of the first step nothing needs to be known. -/
theorem last {x : Parse α} {f : α → Parse β} (hf : ∀ a c', Ensures (f a) c' Q) :
    Ensures (x >>= f) c Q :=
  bind (P := fun _ _ => True) (fun _ _ _ => trivial) fun a c' _ => hf a c'

theorem get {f : Cursor → Parse β} (hf : Ensures (f c) c Q) : Ensures (MonadState.get >>= f) c Q :=
  hf

theorem advance {f : Unit → Parse β} (hf : Ensures (f ()) c.advance Q) :
    Ensures (Parse.advance >>= f) c Q := hf

theorem here {f : Span → Parse β} (hf : ∀ span, Ensures (f span) c Q) :
    Ensures (Parse.here >>= f) c Q := hf _

theorem spanFrom {f : Span → Parse β} {start : Nat} (hf : ∀ span, Ensures (f span) c Q) :
    Ensures (Parse.spanFrom start >>= f) c Q := hf _

theorem rounds {f : Nat → Parse β} (hf : ∀ n, c.ahead.length < n → Ensures (f n) c Q) :
    Ensures (Parse.rounds >>= f) c Q := hf _ (Nat.lt_succ_of_le c.length_ahead_le)

/-- What is read for sure is all that is read. -/
theorem of_yields {P : α → Prop} {ks : List Token.Kind} {x : Parse α} (h : Yields x c P ks) :
    Ensures x c fun a c' => P a ∧ c'.ahead = ks := by
  obtain ⟨a, c', hx, ha, hks⟩ := h
  rintro b c'' hb
  rw [hx] at hb
  cases hb
  exact ⟨ha, hks⟩

variable {sub : Nat → Parse Expr}

/-- An operand is only read from a token that an expression can start with. -/
theorem startsExpr_operand : Ensures (operand sub) c fun _ _ => startsExpr c.kind = true := by
  unfold operand
  refine .get ?_
  dsimp only
  split
  case h_11 => exact .failAt
  case h_12 =>
    split
    · next hsign => exact fun _ _ _ => startsExpr_of_sign? hsign
    · exact .get .failAt
  all_goals
    next hk => exact fun _ _ _ => by rw [hk]; rfl

theorem startsExpr_exprWithin (depth least : Nat) :
    Ensures (exprWithin depth least) c fun _ _ => startsExpr c.kind = true := by
  cases depth with
  | zero => exact .here fun _ => .failAt
  | succ depth =>
    unfold exprWithin
    exact .here fun _ => startsExpr_operand.first

theorem startsExpr_exprs : Ensures exprs c fun _ _ => startsExpr c.kind = true := by
  have habove : Ensures (exprAbove 0) c fun _ _ => startsExpr c.kind = true :=
    .rounds fun n _ => startsExpr_exprWithin n 0
  unfold exprs exprList
  exact .here fun _ => habove.first

end Ensures

end StagedScript
