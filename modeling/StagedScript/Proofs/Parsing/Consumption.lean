import StagedScript.Proofs.Parsing.Yields

/-!
# What readers consume

Whatever a reader reads, the tokens it reads open and close blocks in pairs.  A block therefore ends
where the tokens say.  Expressions are read from one line, and so is what stands in front of an
error in one.
-/

namespace StagedScript

/-! ## Blocks in pairs -/

namespace Token

/-- How many blocks are open behind tokens, if so many are in front of them.  There is none if a
block is closed that was not opened. -/
def depthAfter : Nat → List Kind → Option Nat
  | d, [] => some d
  | d, .indent :: ks => depthAfter (d + 1) ks
  | 0, .dedent :: _ => none
  | d + 1, .dedent :: ks => depthAfter d ks
  | d, _ :: ks => depthAfter d ks

/-- The tokens open and close blocks in pairs. -/
def Balanced (ks : List Kind) : Prop := ∀ d, depthAfter d ks = some d

/-- The token neither opens nor closes a block. -/
def Kind.Flat (k : Kind) : Prop := k ≠ .indent ∧ k ≠ .dedent

/-- The token neither opens nor closes a block nor ends a line, and it does not start a loop with a
test. -/
def Kind.Common (k : Kind) : Prop :=
  k ≠ .indent ∧ k ≠ .dedent ∧ k ≠ .newline ∧ k ≠ .keyword .while_

theorem depthAfter_flat {k : Kind} (hk : k.Flat) (d : Nat) (ks : List Kind) :
    depthAfter d (k :: ks) = depthAfter d ks := by
  unfold Kind.Flat at hk
  cases d <;> cases k <;> first | rfl | simp at hk

theorem depthAfter_indent (d : Nat) (ks : List Kind) :
    depthAfter d (.indent :: ks) = depthAfter (d + 1) ks := by
  cases d <;> rfl

/-- A token that is not flat opens or closes a block. -/
theorem Kind.eq_of_not_flat {k : Kind} (hk : ¬ k.Flat) : k = .indent ∨ k = .dedent := by
  unfold Flat at hk
  by_contra hnot
  rw [not_or] at hnot
  exact hk hnot

theorem depthAfter_append (d : Nat) (ks ls : List Kind) :
    depthAfter d (ks ++ ls) = (depthAfter d ks).bind (depthAfter · ls) := by
  induction ks generalizing d with
  | nil => rfl
  | cons k ks ih =>
    rw [List.cons_append]
    by_cases hk : k.Flat
    · rw [depthAfter_flat hk, depthAfter_flat hk, ih]
    · rcases Kind.eq_of_not_flat hk with rfl | rfl
      · rw [depthAfter_indent, depthAfter_indent, ih]
      · cases d with
        | zero => rfl
        | succ d => exact ih d

/-- What is open around tokens does not matter to them. -/
theorem depthAfter_add {d e : Nat} {ks : List Kind} (h : depthAfter d ks = some e) (n : Nat) :
    depthAfter (d + n) ks = some (e + n) := by
  induction ks generalizing d with
  | nil =>
    cases h
    rfl
  | cons k ks ih =>
    by_cases hk : k.Flat
    · rw [depthAfter_flat hk] at h ⊢
      exact ih h
    · rcases Kind.eq_of_not_flat hk with rfl | rfl
      · rw [depthAfter_indent] at h ⊢
        rw [Nat.add_right_comm]
        exact ih h
      · cases d with
        | zero => cases h
        | succ d =>
          rw [Nat.add_right_comm]
          exact ih (d := d) h

theorem balanced_of_depthAfter {ks : List Kind} (h : depthAfter 0 ks = some 0) : Balanced ks := by
  intro d
  have hadd := depthAfter_add h d
  rwa [Nat.zero_add] at hadd

namespace Balanced

variable {ks ls : List Kind}

theorem nil : Balanced [] := fun _ => rfl

theorem append (hks : Balanced ks) (hls : Balanced ls) : Balanced (ks ++ ls) := by
  intro d
  rw [depthAfter_append, hks d]
  exact hls d

theorem flat {k : Kind} (hk : k.Flat) : Balanced [k] := fun d => depthAfter_flat hk d []

theorem block (hks : Balanced ks) : Balanced (.indent :: (ks ++ [.dedent])) := by
  intro d
  have hbody : depthAfter (d + 1) (ks ++ [.dedent]) = some d := by
    rw [depthAfter_append, hks (d + 1)]
    rfl
  cases d <;> exact hbody

/-- Behind tokens in pairs, the first block that is closed too many is closed at one place. -/
theorem unique {rest rest' : List Kind} (hks : Balanced ks) (hls : Balanced ls)
    (h : ks ++ .dedent :: rest = ls ++ .dedent :: rest') : ks = ls := by
  rcases List.append_eq_append_iff.1 h with ⟨more, rfl, hmore⟩ | ⟨more, rfl, hmore⟩
  · cases more with
    | nil => rw [List.append_nil]
    | cons k more =>
      cases hmore
      have hnone := hls 0
      rw [depthAfter_append, hks 0] at hnone
      cases hnone
  · cases more with
    | nil => rw [List.append_nil]
    | cons k more =>
      cases hmore
      have hnone := hks 0
      rw [depthAfter_append, hls 0] at hnone
      cases hnone

end Balanced

end Token

/-! ## Consuming tokens -/

open Token Parse

/-- What can be said of tokens that are read one after the other, and the tokens of which it can be
said.  Among these are all but the marks of blocks and lines and the word of loops with a test. -/
structure Token.Trait where
  Holds : List Kind → Prop
  Word : Kind → Prop
  /-- It is also asked of the tokens that are read in front of an error. -/
  ToError : Prop
  nil : Holds []
  append : ∀ {ks ls : List Kind}, Holds ks → Holds ls → Holds (ks ++ ls)
  word : ∀ {k : Kind}, Word k → Holds [k]
  alike : ∀ {k l : Kind}, k.alike l = true → Word l → Word k
  common : ∀ {k : Kind}, k.Common → Word k

/-- What the parser reads from the cursor are tokens of which this can be said, if it can read
something or if it is asked of what it reads in front of an error. -/
structure Consumes {α : Type} (τ : Token.Trait) (x : Parse α) (c : Cursor) : Prop where
  reads : ∀ a c', x c = .ok a c' → ∃ used, c.ahead = used ++ c'.ahead ∧ τ.Holds used
  fails : τ.ToError → ∀ e c', x c = .error e c' → ∃ used, c.ahead = used ++ c'.ahead ∧ τ.Holds used

/-- The kind carries nothing, so that kinds that are like it are the same. -/
def Token.Kind.Fixed : Kind → Prop
  | .int _ | .float _ | .str _ | .ident _ | .reserved _ => False
  | _ => True

theorem Token.Kind.alike_iff {a b : Kind} (hb : b.Fixed) : a.alike b = true ↔ a = b := by
  constructor
  · intro h
    unfold Fixed at hb
    cases a <;> cases b <;> simp_all [alike]
  · rintro rfl
    unfold Fixed at hb
    cases a <;> simp_all [alike]

theorem Cursor.kind_of_sees {c : Cursor} {k : Kind} (hk : k.Fixed) (h : c.sees k = true) :
    c.kind = k := (Kind.alike_iff hk).1 h

section

variable {c c' : Cursor}

/-- A name that is read is the next token. -/
theorem Parse.name_eq_ok {x : String} (h : name c = .ok x c') :
    c.kind = .ident x ∧ c' = c.advance := by
  unfold name at h
  obtain ⟨k, c₁, hkind, h⟩ := EStateM.bind_eq_ok.1 h
  obtain ⟨rfl, rfl⟩ : c.kind = k ∧ c = c₁ := by
    cases hkind
    exact ⟨rfl, rfl⟩
  generalize c.kind = k at h ⊢
  cases k with
  | ident y =>
    cases h
    exact ⟨rfl, rfl⟩
  | _ => cases h

/-- A token that is asked for is there, if it is read. -/
theorem Parse.expect_eq_ok {k : Kind} {u : Unit} (hk : k.Fixed) (h : expect k c = .ok u c') :
    c.kind = k ∧ c' = c.advance := by
  unfold expect at h
  obtain ⟨b, c₁, hsees, h⟩ := EStateM.bind_eq_ok.1 h
  cases hsees
  split at h
  · next hs =>
    cases h
    exact ⟨Cursor.kind_of_sees hk hs, rfl⟩
  · cases h

/-- A token that is there is read where it is asked for. -/
theorem Parse.expect_of_sees {k : Kind} (h : c.sees k = true) : expect k c = .ok () c.advance := by
  have hsees : sees k c = .ok true c := congrArg (EStateM.Result.ok · c) h
  unfold expect
  rw [EStateM.bind_ok hsees]
  rfl

theorem Parse.accept_eq (k : Kind) (c : Cursor) :
    accept k c = .ok (c.sees k) (if c.sees k = true then c.advance else c) := by
  have hsees : sees k c = .ok (c.sees k) c := rfl
  unfold accept
  rw [EStateM.bind_ok hsees]
  cases c.sees k <;> rfl

theorem Parse.accept_eq_ok {k : Kind} {b : Bool} (hk : k.Fixed) (h : accept k c = .ok b c') :
    b = true ∧ c.kind = k ∧ c' = c.advance ∨ b = false ∧ c' = c := by
  unfold accept at h
  obtain ⟨seen, c₁, hsees, h⟩ := EStateM.bind_eq_ok.1 h
  cases hsees
  split at h
  · next hs =>
    cases h
    exact .inl ⟨rfl, Cursor.kind_of_sees hk hs, rfl⟩
  · cases h
    exact .inr ⟨rfl, rfl⟩

end

theorem Token.Trait.of_sees (τ : Trait) {c : Cursor} {k : Kind} (hk : τ.Word k)
    (h : c.sees k = true) :
    τ.Word c.kind := τ.alike h hk

/-- The tokens open and close blocks in pairs, as those do that neither open nor close one. -/
def Token.Trait.balanced : Trait where
  Holds := Balanced
  Word := Kind.Flat
  ToError := False
  nil := .nil
  append := .append
  word := .flat
  alike {k l} h hl := by
    unfold Kind.Flat at hl ⊢
    cases k <;> cases l <;> simp_all [Kind.alike]
  common h := ⟨h.1, h.2.1⟩

theorem Token.Trait.balanced_newline : Trait.balanced.Word .newline := ⟨by simp, by simp⟩

/-- No loop with a test starts among the tokens. -/
def Token.Trait.loopless : Trait where
  Holds ks := .keyword .while_ ∉ ks
  Word k := k ≠ .keyword .while_
  ToError := False
  nil := List.not_mem_nil
  append hks hls := by simp [hks, hls]
  word h := by simp [h.symm]
  alike {k l} h hl := by
    rintro rfl
    cases l <;> simp_all [Kind.alike]
  common h := h.2.2.2

theorem Token.Trait.loopless_newline : Trait.loopless.Word .newline := by simp [loopless]

/-- The tokens are on one line, also those in front of an error. -/
def Token.Trait.inline : Trait where
  Holds ks := .newline ∉ ks
  Word k := k ≠ .newline
  ToError := True
  nil := List.not_mem_nil
  append hks hls := by simp [hks, hls]
  word h := by simp [h.symm]
  alike {k l} h hl := by
    rintro rfl
    cases l <;> simp_all [Kind.alike]
  common h := h.2.2.1

/-- A token is read unless the end of the text is reached. -/
theorem Cursor.ahead_eq (c : Cursor) :
    c.advance.ahead = c.ahead ∨ c.ahead = c.kind :: c.advance.ahead := by
  obtain ⟨rest, lastStop, lastWordStop, bound, hbound⟩ := c
  cases rest with
  | nil => exact .inl rfl
  | cons t ts =>
    unfold advance ahead
    dsimp only
    split
    · exact .inl rfl
    · exact .inr rfl

theorem Cursor.ahead_advance_of_kind {c : Cursor} {k : Kind} (hc : c.kind = k) (hk : k ≠ .eof) :
    c.ahead = k :: c.advance.ahead := by
  obtain ⟨rest, lastStop, lastWordStop, bound, hbound⟩ := c
  cases rest with
  | nil => exact absurd hc.symm hk
  | cons t ts =>
    have ht : t.kind = k := hc
    unfold advance ahead
    dsimp only
    split
    · next heof => exact absurd (ht.symm.trans heof) hk
    · rw [List.map_cons, ht]

theorem Cursor.kind_advance (c : Cursor) (h : c.kind ≠ .eof) : c.advance.kind = c.following := by
  obtain ⟨rest, lastStop, lastWordStop, bound, hbound⟩ := c
  match rest, hbound, h with
  | [], _, h => exact absurd rfl h
  | t :: ts, hbound, h =>
    have ht : t.kind ≠ .eof := h
    unfold advance following
    dsimp only
    split
    · next heof => exact absurd heof ht
    · cases ts <;> rfl

namespace Consumes

variable {α β : Type} {τ : Token.Trait} {c : Cursor}

/-- Nothing is read. -/
theorem stays {x : Parse α} (hreads : ∀ a c', x c = .ok a c' → c' = c)
    (hfails : ∀ e c', x c = .error e c' → c' = c) : Consumes τ x c where
  reads a c' h := ⟨[], by rw [hreads a c' h, List.nil_append], τ.nil⟩
  fails _ e c' h := ⟨[], by rw [hfails e c' h, List.nil_append], τ.nil⟩

theorem pure {a : α} : Consumes τ (Pure.pure a) c := by
  refine stays ?_ ?_
  · rintro _ _ ⟨⟩
    rfl
  · rintro _ _ ⟨⟩

theorem throw {e : SyntaxError} : Consumes τ (MonadExcept.throw e : Parse α) c := by
  refine stays ?_ ?_
  · rintro _ _ ⟨⟩
  · rintro _ _ ⟨⟩
    rfl

theorem failAt {span : Span} {cause : SyntaxError.Cause} :
    Consumes τ (Parse.failAt span cause : Parse α) c := throw

/-- A check in front of something else. -/
theorem check {b : Bool} {span : Span} {cause : SyntaxError.Cause} {x : Parse β}
    (hx : Consumes τ x c) :
    Consumes τ (if b = true then (Parse.failAt span cause : Parse α) >>= fun _ => x else x) c := by
  cases b with
  | true => exact throw (α := β)
  | false => exact hx

theorem bind {x : Parse α} {f : α → Parse β} (hx : Consumes τ x c)
    (hf : ∀ a c', x c = .ok a c' → Consumes τ (f a) c') : Consumes τ (x >>= f) c := by
  -- What is read behind the first step follows what is read in it, also in front of an error.
  have hjoin {a : α} {c' c'' : Cursor} (hxa : x c = .ok a c')
      (hmore : ∃ more, c'.ahead = more ++ c''.ahead ∧ τ.Holds more) :
      ∃ used, c.ahead = used ++ c''.ahead ∧ τ.Holds used := by
    obtain ⟨used, hused, hholds⟩ := hx.reads a c' hxa
    obtain ⟨more, hmore, hholds'⟩ := hmore
    exact ⟨used ++ more, by rw [hused, hmore, List.append_assoc], τ.append hholds hholds'⟩
  constructor
  · intro b c'' h
    obtain ⟨a, c', hxa, hfb⟩ := EStateM.bind_eq_ok.1 h
    exact hjoin hxa ((hf a c' hxa).reads b c'' hfb)
  · intro hτ e c'' h
    rcases EStateM.bind_eq_error.1 h with h | ⟨a, c', hxa, hfe⟩
    · exact hx.fails hτ e c'' h
    · exact hjoin hxa ((hf a c' hxa).fails hτ e c'' hfe)

theorem then_ {x : Parse α} {f : α → Parse β} (hx : Consumes τ x c)
    (hf : ∀ a c', Consumes τ (f a) c') : Consumes τ (x >>= f) c := hx.bind fun a c' _ => hf a c'

/-- What is read depends on the outcome alone. -/
theorem of_eq {x y : Parse α} (hy : Consumes τ y c) (h : x c = y c) : Consumes τ x c where
  reads a c' hx := hy.reads a c' (h.symm.trans hx)
  fails hτ e c' hx := hy.fails hτ e c' (h.symm.trans hx)

theorem get {f : Cursor → Parse α} (hf : Consumes τ (f c) c) :
    Consumes τ (MonadState.get >>= f) c :=
  hf.of_eq rfl

theorem kind {f : Kind → Parse α} (hf : Consumes τ (f c.kind) c) :
    Consumes τ (Parse.kind >>= f) c :=
  hf.of_eq rfl

theorem here {f : Span → Parse α} (hf : ∀ span, Consumes τ (f span) c) :
    Consumes τ (Parse.here >>= f) c := (hf _).of_eq rfl

theorem spanFrom {f : Span → Parse α} {start : Nat} (hf : ∀ span, Consumes τ (f span) c) :
    Consumes τ (Parse.spanFrom start >>= f) c := (hf _).of_eq rfl

theorem blockSpanFrom {f : Span → Parse α} {start : Nat} (hf : ∀ span, Consumes τ (f span) c) :
    Consumes τ (Parse.blockSpanFrom start >>= f) c := (hf _).of_eq rfl

theorem rounds {f : Nat → Parse α} (hf : ∀ n, Consumes τ (f n) c) :
    Consumes τ (Parse.rounds >>= f) c := (hf _).of_eq rfl

theorem advanced (hk : τ.Word c.kind) : Consumes τ Parse.advance c := by
  constructor
  · rintro _ _ ⟨⟩
    rcases c.ahead_eq with h | h
    · exact ⟨[], h.symm, τ.nil⟩
    · exact ⟨[c.kind], h, τ.word hk⟩
  · rintro _ _ _ ⟨⟩

theorem advance {f : Unit → Parse α} (hk : τ.Word c.kind) (hf : ∀ c', Consumes τ (f ()) c') :
    Consumes τ (Parse.advance >>= f) c := (advanced hk).then_ fun _ c' => hf c'

theorem sees {f : Bool → Parse α} {k : Kind} (hyes : c.sees k = true → Consumes τ (f true) c)
    (hno : Consumes τ (f false) c) : Consumes τ (Parse.sees k >>= f) c := by
  have hseen : Consumes τ (f (c.sees k)) c → Consumes τ (Parse.sees k >>= f) c := (·.of_eq rfl)
  refine hseen ?_
  cases h : c.sees k with
  | true => exact hyes h
  | false => exact hno

theorem accepted {k : Kind} (hk : τ.Word k) : Consumes τ (Parse.accept k) c := by
  unfold Parse.accept
  refine sees (fun h => ?_) pure
  exact advance (τ.of_sees hk h) fun _ => pure

theorem accept {f : Bool → Parse α} {k : Kind} (hk : τ.Word k)
    (hf : ∀ b c', Consumes τ (f b) c') : Consumes τ (Parse.accept k >>= f) c :=
  (accepted hk).then_ hf

theorem missing {what : SyntaxError.Expected} : Consumes τ (Parse.missing what : Parse α) c :=
  get failAt

theorem expected {k : Kind} (hk : τ.Word k) : Consumes τ (Parse.expect k) c := by
  unfold Parse.expect
  refine sees (fun h => ?_) missing
  exact advanced (τ.of_sees hk h)

theorem expect {f : Unit → Parse α} {k : Kind} (hk : τ.Word k) (hf : ∀ c', Consumes τ (f ()) c') :
    Consumes τ (Parse.expect k >>= f) c := (expected hk).then_ fun _ c' => hf c'

theorem named : Consumes τ Parse.name c := by
  unfold Parse.name
  refine kind ?_
  split
  · next x hx => exact advance (τ.common (by simp [hx, Kind.Common])) fun _ => pure
  · exact missing

theorem name {f : String → Parse α} (hf : ∀ x c', Consumes τ (f x) c') :
    Consumes τ (Parse.name >>= f) c := named.then_ hf

theorem skippedNewlines (hnewline : τ.Word .newline) :
    Consumes τ (modify Cursor.skipNewlines) c := by
  have hskip (n : Nat) (c : Cursor) :
      ∃ used, c.ahead = used ++ (c.skipNewlinesFrom n).ahead ∧ τ.Holds used := by
    induction n generalizing c with
    | zero => exact ⟨[], rfl, τ.nil⟩
    | succ n ih =>
      unfold Cursor.skipNewlinesFrom
      split
      · next h =>
        obtain ⟨used, hused, hholds⟩ := (advanced (τ.of_sees hnewline h)).reads () c.advance rfl
        obtain ⟨more, hmore, hholds'⟩ := ih c.advance
        exact ⟨used ++ more, by rw [hused, hmore, List.append_assoc], τ.append hholds hholds'⟩
      · exact ⟨[], rfl, τ.nil⟩
  constructor
  · rintro _ _ ⟨⟩
    exact hskip c.bound c
  · rintro _ _ _ ⟨⟩

theorem skipNewlines {f : Unit → Parse α} (hnewline : τ.Word .newline)
    (hf : ∀ c', Consumes τ (f ()) c') : Consumes τ (modify Cursor.skipNewlines >>= f) c :=
  (skippedNewlines hnewline).then_ fun _ c' => hf c'

theorem map {x : Parse α} {f : α → β} (hx : Consumes τ x c) : Consumes τ (f <$> x) c := by
  rw [map_eq_pure_bind]
  exact hx.then_ fun _ _ => pure

end Consumes

/-! ## Expressions -/

/-- The tokens of an operator neither open nor close a block, nor do they start a loop. -/
theorem common_of_ofKinds? {first second : Kind} {op : Connective} {two : Bool}
    (h : Connective.ofKinds? first second = some (op, two)) :
    first.Common ∧ first ≠ .eof ∧ (two = true → second.Common) := by
  unfold Connective.ofKinds? at h
  cases first with
  | keyword k =>
    refine ⟨?_, by simp, ?_⟩
    · cases k <;> simp_all [Kind.Common]
    · rintro rfl
      cases k
      all_goals first
        | cases h
        | (dsimp only at h; split at h <;> simp_all [Kind.Common])
  | symbol c =>
    refine ⟨by simp [Kind.Common], by simp, ?_⟩
    rintro rfl
    cases c <;> cases h
  | _ => cases h

section

variable {sub : Nat → Parse Expr} (hsub : ∀ least c, Consumes τ (sub least) c)

theorem consumes_moreStrings (n : Nat) (text : String) (c : Cursor) :
    Consumes τ (moreStrings n text) c := by
  induction n generalizing text c with
  | zero => exact .pure
  | succ n ih =>
    unfold moreStrings
    refine .kind ?_
    split
    · next more hmore => exact .advance (τ.common (by simp [hmore, Kind.Common])) fun c' => ih _ c'
    · exact .pure

include hsub

theorem consumes_commaList (close : Kind) (n : Nat) (c : Cursor) :
    Consumes τ (commaList sub close n) c := by
  induction n generalizing c with
  | zero => exact .pure
  | succ n ih =>
    unfold commaList
    refine .get ?_
    split
    · exact .pure
    · refine (hsub 0 c).then_ fun e c' => .accept (τ.common (by simp [Kind.Common])) fun b c' => ?_
      split
      · exact (ih c').then_ fun es c' => .pure
      · exact .pure

theorem consumes_moreItems (n : Nat) (c : Cursor) : Consumes τ (moreItems sub n) c := by
  induction n generalizing c with
  | zero => exact .pure
  | succ n ih =>
    unfold moreItems
    refine .accept (τ.common (by simp [Kind.Common])) fun b c' => ?_
    split
    · refine .kind ?_
      split
      · exact (hsub 0 c').then_ fun e c' => (ih c').then_ fun es c' => .pure
      · exact .pure
    · exact .pure

theorem consumes_exprList (c : Cursor) : Consumes τ (exprList sub) c := by
  unfold exprList
  refine .here fun start => (hsub 0 c).then_ fun e c' => .sees (fun _ => ?_) ?_
  · exact .rounds fun n => (consumes_moreItems hsub n c').then_ fun es c' => .spanFrom
      fun _ => .pure
  · exact .pure

theorem consumes_entries (n : Nat) (c : Cursor) : Consumes τ (entries sub n) c := by
  induction n generalizing c with
  | zero => exact .pure
  | succ n ih =>
    unfold entries
    refine .get ?_
    split
    · exact .pure
    · refine (hsub 0 c).then_ fun k c' => .expect (τ.common (by simp [Kind.Common])) fun c' => ?_
      refine (hsub 0 c').then_ fun v c' => .accept (τ.common (by simp [Kind.Common])) fun b c' => ?_
      split
      · exact (ih c').then_ fun es c' => .pure
      · exact .pure

theorem consumes_paren {c : Cursor} (hc : τ.Word c.kind) : Consumes τ (paren sub) c := by
  unfold paren
  refine .here fun start => .advance hc fun c' => .accept (τ.common (by simp [Kind.Common]))
    fun b c' => ?_
  split
  · exact .spanFrom fun _ => .pure
  · refine (hsub 0 c').then_ fun first c' => .accept (τ.common (by simp [Kind.Common]))
      fun b c' => ?_
    split
    · refine .rounds fun n => (consumes_commaList hsub _ n c').then_ fun es c' => ?_
      exact .expect (τ.common (by simp [Kind.Common])) fun c' => .spanFrom fun _ => .pure
    · exact .expect (τ.common (by simp [Kind.Common])) fun c' => .pure

theorem consumes_operand (c : Cursor) : Consumes τ (operand sub) c := by
  have hone {α : Type} {k : Kind} {x : Parse α} (hk : c.kind = k) (hcommon : k.Common)
      (hx : ∀ c', Consumes τ x c') : Consumes τ (do advance; x) c :=
    .advance (τ.common (by rwa [hk])) hx
  unfold operand
  refine .get ?_
  dsimp only
  split
  · next hk => exact hone hk (by simp [Kind.Common]) fun c' => .spanFrom fun _ => .pure
  · next hk => exact hone hk (by simp [Kind.Common]) fun c' => .spanFrom fun _ => .pure
  · next hk =>
    refine hone hk (by simp [Kind.Common]) fun c' => .rounds fun n => ?_
    exact (consumes_moreStrings n _ c').then_ fun text c' => .spanFrom fun _ => .pure
  · next hk => exact hone hk (by simp [Kind.Common]) fun c' => .spanFrom fun _ => .pure
  · next hk => exact hone hk (by simp [Kind.Common]) fun c' => .spanFrom fun _ => .pure
  · next hk => exact hone hk (by simp [Kind.Common]) fun c' => .spanFrom fun _ => .pure
  · next hk => exact hone hk (by simp [Kind.Common]) fun c' => .spanFrom fun _ => .pure
  · next hk => exact consumes_paren hsub (τ.common (by simp [hk, Kind.Common]))
  · next hk =>
    refine hone hk (by simp [Kind.Common]) fun c' => .rounds fun n => ?_
    refine (consumes_commaList hsub _ n c').then_ fun es c' => ?_
    exact .expect (τ.common (by simp [Kind.Common])) fun c' => .spanFrom fun _ => .pure
  · next hk =>
    refine hone hk (by simp [Kind.Common]) fun c' => .rounds fun n => ?_
    refine (consumes_entries hsub n c').then_ fun es c' => ?_
    exact .expect (τ.common (by simp [Kind.Common])) fun c' => .spanFrom fun _ => .pure
  · exact .failAt
  · split
    · next op strength hsign =>
      have hcommon : c.kind.Common := by
        refine ⟨fun hk => ?_, fun hk => ?_, fun hk => ?_, fun hk => ?_⟩
        all_goals
          rw [hk] at hsign
          cases hsign
      exact .advance (τ.common hcommon) fun c' => (hsub _ c').then_ fun e c' => .spanFrom
        fun _ => .pure
    · exact .missing

theorem consumes_argument (named : Bool) (c : Cursor) : Consumes τ (argument sub named) c := by
  unfold argument
  refine .get ?_
  split
  · next hk =>
    exact .advance (τ.common (by simp [hk, Kind.Common])) fun c' => (hsub 0 c').then_
      fun e c' => .pure
  · next hk =>
    exact .advance (τ.common (by simp [hk, Kind.Common])) fun c' => (hsub 0 c').then_
      fun e c' => .pure
  · next hk hfollowing =>
    -- The second token is the one that has been seen behind the first.
    refine (Consumes.advanced (τ.common (by simp [hk, Kind.Common]))).bind fun _ c' hc' => ?_
    cases hc'
    have hsecond : c.advance.kind = .symbol .assign := by
      rw [c.kind_advance (by simp [hk]), hfollowing]
    exact .advance (τ.common (by simp [hsecond, Kind.Common])) fun c' => (hsub 0 c').then_
      fun e c' => .pure
  · split
    · exact .failAt
    · exact (hsub 0 c).then_ fun e c' => .pure

theorem consumes_arguments (n : Nat) (named : Bool) (c : Cursor) :
    Consumes τ (arguments sub n named) c := by
  induction n generalizing named c with
  | zero => exact .pure
  | succ n ih =>
    unfold arguments
    refine .get ?_
    split
    · exact .pure
    · refine (consumes_argument hsub named c).then_ fun arg c' => ?_
      refine .accept (τ.common (by simp [Kind.Common])) fun b c' => ?_
      split
      · exact (ih _ c').then_ fun args c' => .pure
      · exact .pure

theorem consumes_trailer (object : Expr) (c : Cursor) : Consumes τ (trailer sub object) c := by
  unfold trailer
  refine .kind ?_
  split
  · next hk =>
    refine .advance (τ.common (by simp [hk, Kind.Common])) fun c' => .rounds fun n => ?_
    refine (consumes_arguments hsub n false c').then_ fun args c' => ?_
    exact .expect (τ.common (by simp [Kind.Common])) fun c' => .spanFrom fun _ => .pure
  · next hk =>
    exact .advance (τ.common (by simp [hk, Kind.Common])) fun c' => .name fun x c' => .spanFrom
      fun _ => .pure
  · next hk =>
    refine .advance (τ.common (by simp [hk, Kind.Common])) fun c' => ?_
    refine (consumes_exprList hsub c').then_ fun e c' => ?_
    exact .expect (τ.common (by simp [Kind.Common])) fun c' => .spanFrom fun _ => .pure
  · exact .pure

theorem consumes_continuation (start least n : Nat) (left : Expr) (compared : Bool) (c : Cursor) :
    Consumes τ (continuation sub start least n left compared) c := by
  induction n generalizing left compared c with
  | zero => exact .pure
  | succ n ih =>
    unfold continuation
    refine .get ?_
    split
    · exact (consumes_trailer hsub left c).then_ fun e c' => ih e compared c'
    · split
      · exact .pure
      · next op two hop =>
        obtain ⟨hfirst, heof, hsecond⟩ := common_of_ofKinds? hop
        split
        · exact .pure
        · refine (Consumes.advanced (τ.common hfirst)).bind fun _ c' hc' => ?_
          cases hc'
          have hright (c' : Cursor) : Consumes τ (do
              let right ← sub op.strength.2
              continuation sub start least n (op.apply ⟨start, right.span.stop⟩ left right)
                op.isCompare) c' := (hsub _ c').then_ fun right c' => ih _ _ c'
          dsimp only
          split
          · next htwo =>
            refine .advance ?_ fun c' => ?_
            · rw [c.kind_advance heof]
              exact τ.common (hsecond htwo)
            · exact .check (hright c')
          · exact .check (hright _)

end

theorem consumes_exprWithin (depth least : Nat) (c : Cursor) :
    Consumes τ (exprWithin depth least) c := by
  induction depth generalizing least c with
  | zero => exact .here fun _ => .failAt
  | succ depth ih =>
    unfold exprWithin
    refine .here fun start => (consumes_operand ih c).then_ fun left c' => .rounds fun n => ?_
    exact consumes_continuation ih _ _ _ _ _ c'

theorem consumes_exprAbove (least : Nat) (c : Cursor) : Consumes τ (exprAbove least) c :=
  .rounds fun n => consumes_exprWithin n least c

theorem consumes_expr (c : Cursor) : Consumes τ expr c := consumes_exprAbove 0 c

theorem consumes_exprs (c : Cursor) : Consumes τ exprs c := consumes_exprList consumes_exprAbove c

end StagedScript
