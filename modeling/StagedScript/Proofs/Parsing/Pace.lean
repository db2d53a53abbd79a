import StagedScript.Proofs.Layout.Located

/-!
# How far readers go

A reader only ever moves its cursor on, token by token, and never past the end of the text.  Two
readers keep pace at a cursor if they do the same there, and move on as far as they are said to.
What keeps pace with a reader in which one part is exchanged tells on which cursors that part is
asked for.
-/

namespace StagedScript

open Parse
open Token (Kind)

namespace Cursor

variable {c c' d e : Cursor} {k : Kind}

/-! ## Moving on -/

/-- The one cursor is in front of the other: it is moved on to it by one token at least. -/
def Precedes (c d : Cursor) : Prop := ∃ k used, c.Moved (k :: used) d

namespace Precedes

theorem reaches : c.Precedes d → c.Reaches d
  | ⟨_, _, h⟩ => ⟨_, h⟩

theorem trans_reaches : c.Precedes d → d.Reaches e → c.Precedes e
  | ⟨k, used, h⟩, ⟨_, h'⟩ => ⟨k, used ++ _, h.trans h'⟩

theorem trans (h : c.Precedes d) (h' : d.Precedes e) : c.Precedes e := h.trans_reaches h'.reaches

theorem length_lt : c.Precedes d → d.rest.length < c.rest.length
  | ⟨_, _, h⟩ => by
    have hlength := h.length_le
    rw [List.length_cons] at hlength
    omega

end Precedes

theorem Reaches.trans_precedes : c.Reaches d → d.Precedes e → c.Precedes e
  | ⟨used, h⟩, ⟨k, more, h'⟩ => by
    cases used with
    | nil => exact ⟨k, more, h.trans h'⟩
    | cons l used => exact ⟨l, used ++ k :: more, h.trans h'⟩

theorem Reaches.eq_or_precedes : c.Reaches d → d = c ∨ c.Precedes d
  | ⟨used, h⟩ => by
    cases used with
    | nil => exact .inl h.after
    | cons k used => exact .inr ⟨k, used, h⟩

/-- A cursor moves on unless it is at the end of the text. -/
theorem precedes_advance (hk : c.kind ≠ .eof) : c.Precedes c.advance :=
  ⟨_, [], .advance (ahead_of_kind hk) hk⟩

theorem kind_ne_eof_of_sees (h : c.sees k = true) (hk : k ≠ .eof) : c.kind ≠ .eof := by
  intro hc
  unfold sees at h
  rw [hc] at h
  cases k with
  | eof => exact hk rfl
  | _ => cases h

theorem kind_ne_eof_of_atEnd (h : c.atEnd = false) : c.kind ≠ .eof := by
  intro hc
  unfold atEnd sees at h
  rw [hc] at h
  cases h

/-- A cursor at which there is no token is at the end of the text. -/
theorem kind_of_length (h : c.rest.length = 0) : c.kind = .eof := by
  rw [kind, token, List.eq_nil_of_length_eq_zero h]
  rfl

theorem bound_after (n : Nat) (c : Cursor) : (c.after n).bound = c.bound := by
  have hadvance (c : Cursor) : c.advance.bound = c.bound := by
    obtain ⟨rest, lastStop, lastWordStop, bound, hbound⟩ := c
    cases rest with
    | nil => rfl
    | cons t ts =>
      unfold advance
      dsimp only
      split <;> rfl
  induction n generalizing c with
  | zero => rfl
  | succ n ih => rw [after, ih, hadvance]

theorem Reaches.bound_eq : c.Reaches d → d.bound = c.bound
  | ⟨_, h⟩ => by rw [h.after, bound_after]

/-! ## The end of the text -/

/-- The end of the text is still ahead. -/
def HasEnd (c : Cursor) : Prop := .eof ∈ c.ahead

theorem HasEnd.rest_ne_nil (h : c.HasEnd) : c.rest ≠ [] := by
  intro hrest
  rw [HasEnd, ahead, hrest] at h
  exact absurd h List.not_mem_nil

/-- No cursor is moved past the end of the text. -/
theorem HasEnd.of_reaches (h : c.HasEnd) : c.Reaches d → d.HasEnd
  | ⟨used, hmoved⟩ => by
    induction used generalizing c with
    | nil =>
      have hd : d = c := hmoved.after
      exact hd ▸ h
    | cons k used ih =>
      obtain ⟨hk, hadvance⟩ := hmoved.uncons
      have hahead : c.ahead = k :: c.advance.ahead := by
        rw [hmoved.ahead, hadvance.ahead]
        rfl
      refine ih ?_ hadvance
      unfold HasEnd at h ⊢
      rw [hahead] at h
      exact (List.mem_cons.1 h).resolve_left fun heof => hk heof.symm

theorem hasEnd_ofTokens (tokens : List Token) : (ofTokens tokens).HasEnd := by
  unfold HasEnd ahead ofTokens
  dsimp only
  split
  · next span h => exact List.mem_map_of_mem (List.mem_of_getLast? h)
  · next t ht h => exact List.mem_map_of_mem (List.mem_append_right _ (List.mem_singleton_self _))
  · exact List.mem_map_of_mem (List.mem_singleton_self _)

/-! ## Moving on without reading -/

theorem reaches_skipNewlinesFrom (n : Nat) (c : Cursor) : c.Reaches (c.skipNewlinesFrom n) := by
  induction n generalizing c with
  | zero => exact .refl c
  | succ n ih =>
    unfold skipNewlinesFrom
    split
    · exact c.reaches_advance.trans (ih c.advance)
    · exact .refl c

theorem reaches_skipNewlines (c : Cursor) : c.Reaches c.skipNewlines :=
  reaches_skipNewlinesFrom c.bound c

theorem reaches_skipDedentsFrom (n : Nat) (c : Cursor) : c.Reaches (c.skipDedentsFrom n) := by
  induction n generalizing c with
  | zero => exact .refl c
  | succ n ih =>
    unfold skipDedentsFrom
    split
    · exact c.reaches_advance.trans (ih c.advance)
    · exact .refl c

theorem reaches_skipDedents (c : Cursor) : c.Reaches c.skipDedents :=
  reaches_skipDedentsFrom c.bound c

/-- Whatever the tokens are, one of them is passed behind a broken statement, and then further
ones. -/
theorem synchronizeFrom_reaches {n : Nat} (depth : Int) (c : Cursor) :
    c.Reaches (c.synchronizeFrom n depth) ∧
      (n ≠ 0 → c.kind ≠ .eof → c.advance.Reaches (c.synchronizeFrom n depth)) := by
  induction n generalizing c depth with
  | zero => exact ⟨.refl c, fun h => absurd rfl h⟩
  | succ n ih =>
    have hnext (depth : Int) : c.advance.Reaches (c.advance.synchronizeFrom n depth) :=
      (ih depth c.advance).1
    have hon : c.kind ≠ .eof → c.advance.Reaches (c.synchronizeFrom (n + 1) depth) := by
      intro hk
      unfold synchronizeFrom
      split
      · next heof => exact absurd heof hk
      · exact hnext _
      · exact hnext _
      · split
        · exact c.advance.reaches_skipDedents
        · exact hnext _
      · exact hnext _
    refine ⟨?_, fun _ => hon⟩
    by_cases hk : c.kind = .eof
    · unfold synchronizeFrom
      rw [hk]
      exact .refl c
    · exact c.reaches_advance.trans (hon hk)

theorem reaches_synchronize (c : Cursor) : c.Reaches c.synchronize :=
  (synchronizeFrom_reaches 0 c).1

/-- Behind a broken statement reading goes on further on, unless the text is at its end. -/
theorem precedes_synchronize (hk : c.kind ≠ .eof) : c.Precedes c.synchronize := by
  have hbound : c.bound ≠ 0 := by
    intro h
    exact hk (kind_of_length (Nat.le_zero.1 (h ▸ c.length_rest_le)))
  exact (precedes_advance hk).trans_reaches ((synchronizeFrom_reaches 0 c).2 hbound hk)

end Cursor

/-! ## Pace -/

/-- How far a reader moves its cursor on. -/
inductive Pace where
  /-- As it likes. -/
  | free
  /-- On, or not at all. -/
  | onward
  /-- On by one token at least. -/
  | ahead

namespace Pace

/-- How a cursor is moved when something is read. -/
def Reads : Pace → Cursor → Cursor → Prop
  | free => fun _ _ => True
  | onward => Cursor.Reaches
  | ahead => Cursor.Precedes

/-- How a cursor is moved when reading fails. -/
def Fails : Pace → Cursor → Cursor → Prop
  | free => fun _ _ => True
  | onward | ahead => Cursor.Reaches

/-- How far a reader goes that reads a token first. -/
def behind : Pace → Pace
  | free => free
  | onward | ahead => ahead

variable {p : Pace} {c d e : Cursor}

theorem Reads.of_reaches (hd : c.Reaches d) (h : p.Reads d e) : p.Reads c e := by
  cases p with
  | free => trivial
  | onward => exact hd.trans h
  | ahead => exact hd.trans_precedes h

theorem Reads.refl (hp : p ≠ .ahead) : p.Reads c c := by
  cases p with
  | free => trivial
  | onward => exact .refl c
  | ahead => exact absurd rfl hp

theorem Fails.of_reaches (hd : c.Reaches d) (h : p.Fails d e) : p.Fails c e := by
  cases p with
  | free => trivial
  | onward => exact hd.trans h
  | ahead => exact hd.trans h

theorem Fails.of_reaches_end (hd : c.Reaches d) : p.Fails c d := by
  cases p with
  | free => trivial
  | onward => exact hd
  | ahead => exact hd

end Pace

/-- Both readers do the same at a cursor, and move it on as far as it is said. -/
structure Paced {α : Type} (p : Pace) (x y : Parse α) (c : Cursor) : Prop where
  eq : x c = y c
  reads : ∀ a d, x c = .ok a d → p.Reads c d
  fails : ∀ e d, x c = .error e d → p.Fails c d

namespace Paced

variable {α β : Type} {p q r : Pace} {c : Cursor} {x y : Parse α} {f g : α → Parse β}

theorem onward (h : Paced .ahead x y c) : Paced .onward x y c :=
  ⟨h.eq, fun a d hd => (h.reads a d hd).reaches, h.fails⟩

theorem free (h : x c = y c) : Paced .free x y c := ⟨h, fun _ _ _ => trivial, fun _ _ _ => trivial⟩

theorem stop (hp : p ≠ .ahead) {a : α} : Paced p (Pure.pure a) (Pure.pure a) c := by
  refine ⟨rfl, ?_, ?_⟩
  · rintro _ _ ⟨⟩
    exact .refl hp
  · rintro _ _ ⟨⟩

theorem pure {a : α} : Paced .onward (Pure.pure a) (Pure.pure a) c := stop (by simp)

theorem throw {e : SyntaxError} :
    Paced p (MonadExcept.throw e : Parse α) (MonadExcept.throw e) c := by
  refine ⟨rfl, ?_, ?_⟩
  · rintro _ _ ⟨⟩
  · rintro _ _ ⟨⟩
    exact .of_reaches_end (.refl c)

theorem failAt {span : Span} {cause : SyntaxError.Cause} :
    Paced p (Parse.failAt span cause : Parse α) (Parse.failAt span cause) c := throw

theorem missing {what : SyntaxError.Expected} :
    Paced p (Parse.missing what : Parse α) (Parse.missing what) c := ⟨rfl, throw.reads, throw.fails⟩

/-- Two steps.  How far they go together follows from how far each of them goes. -/
theorem bind (hx : Paced q x y c) (hf : ∀ a d, q.Reads c d → Paced r (f a) (g a) d)
    (hreads : ∀ d e, q.Reads c d → r.Reads d e → p.Reads c e)
    (hfails : ∀ d, q.Fails c d → p.Fails c d)
    (hfails' : ∀ d e, q.Reads c d → r.Fails d e → p.Fails c e) :
    Paced p (x >>= f) (y >>= g) c := by
  cases hxc : x c with
  | ok a d =>
    have hd := hx.reads a d hxc
    have hfg := hf a d hd
    have hleft : (x >>= f) c = f a d := EStateM.bind_ok hxc
    have hright : (y >>= g) c = g a d := EStateM.bind_ok (hx.eq ▸ hxc)
    refine ⟨by rw [hleft, hright, hfg.eq], fun b e he => ?_, fun b e he => ?_⟩
    · exact hreads d e hd (hfg.reads b e (hleft ▸ he))
    · exact hfails' d e hd (hfg.fails b e (hleft ▸ he))
  | error err d =>
    have hleft : (x >>= f) c = .error err d := EStateM.bind_error hxc
    have hright : (y >>= g) c = .error err d := EStateM.bind_error (hx.eq ▸ hxc)
    refine ⟨by rw [hleft, hright], fun b e he => ?_, fun b e he => ?_⟩
    · rw [hleft] at he
      cases he
    · rw [hleft] at he
      cases he
      exact hfails d (hx.fails err d hxc)

/-- What is done first moves the cursor on; what is done behind it sets the pace. -/
theorem then_ (hx : Paced .onward x y c) (hf : ∀ a d, c.Reaches d → Paced p (f a) (g a) d) :
    Paced p (x >>= f) (y >>= g) c :=
  bind hx hf (fun _ _ hd => .of_reaches hd) (fun _ => .of_reaches_end) fun _ _ hd => .of_reaches hd

/-- What is done first moves the cursor on by a token. -/
theorem past (hx : Paced .ahead x y c) (hf : ∀ a d, c.Precedes d → Paced p (f a) (g a) d) :
    Paced p (x >>= f) (y >>= g) c :=
  bind hx hf (fun _ _ hd => .of_reaches hd.reaches) (fun _ => .of_reaches_end) fun _ _ hd =>
    .of_reaches hd.reaches

/-- What is done first moves the cursor on by a token, which the whole is said to do, too. -/
theorem firstOf (hp : p.behind = q) (hx : Paced .ahead x y c)
    (hf : ∀ a d, c.Precedes d → Paced p (f a) (g a) d) : Paced q (x >>= f) (y >>= g) c := by
  subst hp
  cases p with
  | free => exact bind hx hf (fun _ _ _ _ => trivial) (fun _ _ => trivial) fun _ _ _ _ => trivial
  | onward =>
    exact bind hx hf (fun _ _ hd => hd.trans_reaches) (fun _ => id) fun _ _ hd => hd.reaches.trans
  | ahead => exact bind hx hf (fun _ _ hd => hd.trans) (fun _ => id) fun _ _ hd => hd.reaches.trans

/-- As soon as a token is read, nothing else needs to be. -/
theorem first (hx : Paced .ahead x y c) (hf : ∀ a d, c.Precedes d → Paced .onward (f a) (g a) d) :
    Paced .ahead (x >>= f) (y >>= g) c := firstOf rfl hx hf

/-- Behind the last step there is nothing more to be read. -/
theorem last (hx : Paced p x y c) (hf : ∀ a d, ∃ b, f a d = .ok b d) :
    Paced p (x >>= f) (y >>= f) c := by
  cases hxc : x c with
  | ok a d =>
    obtain ⟨b, hb⟩ := hf a d
    have hleft : (x >>= f) c = .ok b d := (EStateM.bind_ok hxc).trans hb
    have hright : (y >>= f) c = .ok b d := (EStateM.bind_ok (hx.eq ▸ hxc)).trans hb
    refine ⟨by rw [hleft, hright], fun b' e he => ?_, fun b' e he => ?_⟩
    · rw [hleft] at he
      cases he
      exact hx.reads a d hxc
    · rw [hleft] at he
      cases he
  | error err d =>
    have hleft : (x >>= f) c = .error err d := EStateM.bind_error hxc
    have hright : (y >>= f) c = .error err d := EStateM.bind_error (hx.eq ▸ hxc)
    refine ⟨by rw [hleft, hright], fun b' e he => ?_, fun b' e he => ?_⟩
    · rw [hleft] at he
      cases he
    · rw [hleft] at he
      cases he
      exact hx.fails err d hxc

theorem map {f : α → β} (hx : Paced .onward x y c) : Paced .onward (f <$> x) (f <$> y) c := by
  rw [map_eq_pure_bind, map_eq_pure_bind]
  exact hx.then_ fun _ _ _ => pure

/-! ### Steps -/

theorem get {f g : Cursor → Parse α} (hf : Paced p (f c) (g c) c) :
    Paced p (MonadState.get >>= f) (MonadState.get >>= g) c := ⟨hf.eq, hf.reads, hf.fails⟩

theorem kind {f g : Kind → Parse α} (hf : Paced p (f c.kind) (g c.kind) c) :
    Paced p (Parse.kind >>= f) (Parse.kind >>= g) c := ⟨hf.eq, hf.reads, hf.fails⟩

theorem here {f g : Span → Parse α} (hf : ∀ span, Paced p (f span) (g span) c) :
    Paced p (Parse.here >>= f) (Parse.here >>= g) c :=
  ⟨(hf _).eq, (hf _).reads, (hf _).fails⟩

theorem spanFrom {f g : Span → Parse α} {start : Nat} (hf : ∀ span, Paced p (f span) (g span) c) :
    Paced p (Parse.spanFrom start >>= f) (Parse.spanFrom start >>= g) c :=
  ⟨(hf _).eq, (hf _).reads, (hf _).fails⟩

theorem blockSpanFrom {f g : Span → Parse α} {start : Nat}
    (hf : ∀ span, Paced p (f span) (g span) c) :
    Paced p (Parse.blockSpanFrom start >>= f) (Parse.blockSpanFrom start >>= g) c :=
  ⟨(hf _).eq, (hf _).reads, (hf _).fails⟩

theorem rounds {f g : Nat → Parse α} (hf : ∀ n, c.rest.length < n → Paced p (f n) (g n) c) :
    Paced p (Parse.rounds >>= f) (Parse.rounds >>= g) c :=
  have h := hf (c.bound + 1) (Nat.lt_succ_of_le c.length_rest_le)
  ⟨h.eq, h.reads, h.fails⟩

theorem advance {f g : Unit → Parse α} (hf : ∀ d, c.Reaches d → Paced p (f ()) (g ()) d) :
    Paced p (Parse.advance >>= f) (Parse.advance >>= g) c := by
  refine then_ (y := Parse.advance) ⟨rfl, ?_, ?_⟩ fun _ => hf
  · rintro _ _ ⟨⟩
    exact c.reaches_advance
  · rintro _ _ ⟨⟩

theorem advanced (hk : c.kind ≠ .eof) : Paced .ahead Parse.advance Parse.advance c := by
  refine ⟨rfl, ?_, ?_⟩
  · rintro _ _ ⟨⟩
    exact Cursor.precedes_advance hk
  · rintro _ _ ⟨⟩

theorem sees {f g : Bool → Parse α} {k : Kind}
    (hyes : c.sees k = true → Paced p (f true) (g true) c)
    (hno : Paced p (f false) (g false) c) :
    Paced p (Parse.sees k >>= f) (Parse.sees k >>= g) c := by
  have h : Paced p (f (c.sees k)) (g (c.sees k)) c := by
    cases h : c.sees k with
    | true => exact hyes h
    | false => exact hno
  exact ⟨h.eq, h.reads, h.fails⟩

/-- A token that is accepted is passed. -/
theorem accept {f g : Bool → Parse α} {k : Kind} (hk : k ≠ .eof)
    (hyes : ∀ d, c.Precedes d → Paced p (f true) (g true) d) (hno : Paced p (f false) (g false) c) :
    Paced p (Parse.accept k >>= f) (Parse.accept k >>= g) c := by
  unfold Parse.accept
  rw [bind_assoc, bind_assoc]
  refine sees (fun h => ?_) hno
  rw [if_pos rfl, bind_assoc, bind_assoc]
  exact past (advanced (Cursor.kind_ne_eof_of_sees h hk)) fun _ => hyes

/-- A token that is expected is passed. -/
theorem expected {k : Kind} (hk : k ≠ .eof) :
    Paced .ahead (Parse.expect k) (Parse.expect k) c := by
  unfold Parse.expect
  exact sees (fun h => advanced (Cursor.kind_ne_eof_of_sees h hk)) missing

theorem named : Paced .ahead Parse.name Parse.name c := by
  unfold Parse.name
  refine kind ?_
  split
  · next x hx => exact first (advanced (by simp [hx])) fun _ _ _ => pure
  · exact missing

theorem skipNewlines {f g : Unit → Parse α} (hf : ∀ d, c.Reaches d → Paced p (f ()) (g ()) d) :
    Paced p (modify Cursor.skipNewlines >>= f) (modify Cursor.skipNewlines >>= g) c := by
  refine then_ (x := modify Cursor.skipNewlines) (y := modify Cursor.skipNewlines) ⟨rfl, ?_, ?_⟩
    fun _ => hf
  · rintro _ _ ⟨⟩
    exact c.reaches_skipNewlines
  · rintro _ _ ⟨⟩

/-- What is missing is not read, and nothing behind it. -/
theorem missed {what : SyntaxError.Expected} {f g : α → Parse β} :
    Paced p (Parse.missing what >>= f) (Parse.missing what >>= g) c :=
  ⟨rfl, throw.reads, throw.fails⟩

/-- A check in front of something else. -/
theorem check {b : Bool} {span : Span} {cause : SyntaxError.Cause} {x y : Parse β}
    (hxy : Paced p x y c) :
    Paced p (if b = true then (Parse.failAt span cause : Parse α) >>= fun _ => x else x)
      (if b = true then (Parse.failAt span cause : Parse α) >>= fun _ => y else y) c := by
  cases b with
  | true => exact ⟨rfl, throw.reads, throw.fails⟩
  | false => exact hxy

end Paced

end StagedScript
