import StagedScript.Proofs.Parsing.Blocks
import StagedScript.Proofs.Parsing.OneLine

/-!
# Two readers in step

Two sequences of tokens of the same kinds are read alike, token by token, whatever is in front of
them and wherever they stand.  What is read from them differs in its spans alone, and these
correspond.
-/

namespace StagedScript

open Parse
open Token (Kind)

/-! ## Tokens of the same kinds -/

namespace Token

theorem Kind.Inner.not_layout {k : Kind} (h : k.Inner) : k.isLayout = false := by
  obtain ⟨⟨hindent, hdedent⟩, hnewline, -⟩ := h
  cases k <;> simp_all [isLayout]

/-- The tokens are of the same kind and stand at corresponding places. -/
structure Same (π : Places) (t u : Token) : Prop where
  kind : u.kind = t.kind
  span : t.span.Same π u.span

/-- The tokens are of the same kinds and stand at corresponding places.  A mark of the layout may
stand anywhere if nothing follows but ends of blocks: no line goes on behind it. -/
inductive Matched (π : Places) : List Token → List Token → Prop
  | nil : Matched π [] []
  | cons {t u : Token} {ts us : List Token} : t.Same π u → Matched π ts us →
      Matched π (t :: ts) (u :: us)
  | mark {t u : Token} {ts us : List Token} : t.kind.isLayout = true → u.kind = t.kind →
      (∀ x ∈ ts, x.kind = .dedent) → Matched π ts us → Matched π (t :: ts) (u :: us)

namespace Matched

variable {π : Places} {t : Token} {ts us : List Token}

theorem of_forall₂ (h : List.Forall₂ (Token.Same π) ts us) : Matched π ts us := by
  induction h with
  | nil => exact .nil
  | cons htu _ ih => exact .cons htu ih

theorem kinds (h : Matched π ts us) : us.map Token.kind = ts.map Token.kind := by
  induction h with
  | nil => rfl
  | cons htu _ ih => rw [List.map_cons, List.map_cons, htu.kind, ih]
  | mark _ htu _ _ ih => rw [List.map_cons, List.map_cons, htu, ih]

theorem length_eq (h : Matched π ts us) : us.length = ts.length := by
  have hlength := congrArg List.length h.kinds
  rwa [List.length_map, List.length_map] at hlength

theorem uncons (h : Matched π (t :: ts) us) : ∃ u us', us = u :: us' ∧ u.kind = t.kind ∧
    Matched π ts us' ∧ (t.Same π u ∨ t.kind.isLayout = true ∧ ∀ x ∈ ts, x.kind = .dedent) := by
  cases h with
  | cons htu h => exact ⟨_, _, rfl, htu.kind, h, .inl htu⟩
  | mark hlayout htu hdedents h => exact ⟨_, _, rfl, htu, h, .inr ⟨hlayout, hdedents⟩⟩

/-- The tokens of a line stand at corresponding places. -/
theorem spans {ks rest : List Kind} (h : Matched π ts us) (hks : ∀ k ∈ ks, k.Inner)
    (hts : ts.map Token.kind = ks ++ rest) :
    List.Forall₂ (fun t u => t.span.Same π u.span) (ts.take ks.length) (us.take ks.length) := by
  induction ks generalizing ts us with
  | nil => exact .nil
  | cons k ks ih =>
    obtain ⟨t, ts, rfl, rfl, hmore⟩ := List.map_eq_cons_iff.1 hts
    obtain ⟨u, us, rfl, -, h, hplace⟩ := h.uncons
    have ht := hks _ List.mem_cons_self
    refine .cons ?_ (ih h (fun l hl => hks l (List.mem_cons_of_mem _ hl)) hmore)
    rcases hplace with hsame | ⟨hlayout, -⟩
    · exact hsame.span
    · exact absurd (ht.not_layout.symm.trans hlayout) Bool.false_ne_true

theorem append {ms ns : List Token} (h : List.Forall₂ (Token.Same π) ts us) (hm : Matched π ms ns) :
    Matched π (ts ++ ms) (us ++ ns) := by
  induction h with
  | nil => exact hm
  | cons htu _ ih => exact .cons htu ih

/-- Ends of blocks with nothing behind them may stand anywhere. -/
theorem dedents (hts : ∀ t ∈ ts, t.kind = .dedent) (h : us.map Token.kind = ts.map Token.kind) :
    Matched π ts us := by
  induction ts generalizing us with
  | nil =>
    rw [List.map_eq_nil_iff.1 h]
    exact .nil
  | cons t ts ih =>
    obtain ⟨u, us, rfl, hu, hus⟩ := List.map_eq_cons_iff.1 h
    obtain ⟨ht, hts⟩ := List.forall_mem_cons.1 hts
    exact .mark (by rw [ht]; rfl) hu hts (ih hts hus)

/-- So may the end of a line with nothing but ends of blocks behind it. -/
theorem line_end {n : Nat} (hts : ts.map Token.kind = .newline :: List.replicate n .dedent)
    (h : us.map Token.kind = ts.map Token.kind) : Matched π ts us := by
  obtain ⟨t, ts, rfl, ht, hmore⟩ := List.map_eq_cons_iff.1 hts
  obtain ⟨u, us, rfl, hu, hus⟩ := List.map_eq_cons_iff.1 h
  have hdedents : ∀ x ∈ ts, x.kind = .dedent := by
    intro x hx
    have hmem := List.mem_map_of_mem (f := Token.kind) hx
    rw [hmore] at hmem
    exact List.eq_of_mem_replicate hmem
  exact .mark (by rw [ht]; rfl) hu hdedents (.dedents hdedents hus)

end Matched

/-- Every line has an end: behind a token of the text there are further ones, and then a newline. -/
def Lined : List Kind → Prop
  | [] => True
  | k :: ks => (k.Inner → ∃ ls rest, ks = ls ++ .newline :: rest ∧ ∀ l ∈ ls, l.Inner) ∧ Lined ks

theorem Lined.of_append {ks ls : List Kind} (h : Lined (ks ++ ls)) : Lined ls := by
  induction ks with
  | nil => exact h
  | cons k ks ih => exact ih h.2

/-- A line that starts among tokens of which every line has an end has its own end among them. -/
theorem Lined.exists_end {ks ls rest rest' : List Kind} (h : Lined ks) (hks : ks ≠ [])
    (hls : ∀ k ∈ ls, k.Inner) (heq : ks ++ rest = ls ++ .newline :: rest') :
    ∃ more, ks = ls ++ .newline :: more := by
  obtain ⟨k, ks, rfl⟩ := List.exists_cons_of_ne_nil hks
  cases ls with
  | nil =>
    obtain ⟨rfl, -⟩ := List.cons.inj heq
    exact ⟨ks, rfl⟩
  | cons l ls =>
    obtain ⟨rfl, htail⟩ := List.cons.inj heq
    obtain ⟨front, more, rfl, hfront⟩ := h.1 (hls k List.mem_cons_self)
    have htail : front ++ .newline :: (more ++ rest) = ls ++ .newline :: rest' := by
      rw [← List.cons_append, ← List.append_assoc]
      exact htail
    have htake {ls rest : List Kind} (hls : ∀ k ∈ ls, k.Inner) :
        (ls ++ .newline :: rest).takeWhile (!·.isLayout) = ls := by
      rw [List.takeWhile_append_of_pos fun k hk => by simp [(hls k hk).not_layout]]
      simp [Kind.isLayout]
    have hend : front = ls := by
      rw [← htake hfront, htail, htake fun k hk => hls k (List.mem_cons_of_mem _ hk)]
    exact ⟨more, by rw [hend]; rfl⟩

/-- The last of the tokens, if there are any, belongs to the layout. -/
def Settled (ks : List Kind) : Prop := ∀ k ∈ ks.getLast?, k.isLayout = true

/-- There are tokens, and the last one belongs to the layout. -/
def Closed (ks : List Kind) : Prop := ∃ ls k, ks = ls ++ [k] ∧ k.isLayout = true

theorem Closed.settled {ks : List Kind} (h : Closed ks) : Settled ks := by
  obtain ⟨ls, k, rfl, hk⟩ := h
  simpa [Settled] using hk

theorem Closed.behind {ks : List Kind} (h : Closed ks) (ls : List Kind) : Closed (ls ++ ks) := by
  obtain ⟨front, k, rfl, hk⟩ := h
  exact ⟨ls ++ front, k, (List.append_assoc ..).symm, hk⟩

theorem Closed.append {ks ls : List Kind} (hks : Closed ks) (hls : Settled ls) :
    Closed (ks ++ ls) := by
  rcases List.eq_nil_or_concat ls with rfl | ⟨front, k, rfl⟩
  · rwa [List.append_nil]
  · exact ⟨ks ++ front, k, by simp, hls k (by simp)⟩

theorem Settled.append {ks ls : List Kind} (hks : Settled ks) (hls : Settled ls) :
    Settled (ks ++ ls) := by
  rcases List.eq_nil_or_concat ls with rfl | ⟨front, k, rfl⟩
  · rwa [List.append_nil]
  · have hk := hls k (by simp)
    simpa [Settled] using hk

theorem Closed.ne_nil {ks : List Kind} (h : Closed ks) : ks ≠ [] := by
  obtain ⟨ls, k, rfl, -⟩ := h
  simp

/-- Up to a mark of the layout, too, every line has an end. -/
theorem Lined.of_settled {ks ls : List Kind} (h : Lined (ks ++ ls)) (hks : Settled ks) :
    Lined ks := by
  induction ks with
  | nil => trivial
  | cons k ks ih =>
    refine ⟨fun hk => ?_, ih h.2 fun l hl => hks l (by rw [List.getLast?_cons, hl]; rfl)⟩
    obtain ⟨front, rest, heq, hfront⟩ := h.1 hk
    -- A line that goes on behind the tokens would have the last of them as one of its own.
    have hlast (hinner : ∀ l ∈ ks, l.Inner) : False := by
      have hmem := List.getLast_mem (List.cons_ne_nil k ks)
      have hlayout := hks _ (List.getLast?_eq_some_getLast (List.cons_ne_nil k ks))
      rw [(List.forall_mem_cons.2 ⟨hk, hinner⟩ _ hmem).not_layout] at hlayout
      cases hlayout
    rcases List.append_eq_append_iff.1 heq with ⟨as, rfl, -⟩ | ⟨more, rfl, hmore⟩
    · exact (hlast fun l hl => hfront l (List.mem_append_left as hl)).elim
    · cases more with
      | nil => exact (hlast fun l hl => hfront l (by simpa using hl)).elim
      | cons l more =>
        obtain ⟨rfl, -⟩ := List.cons.inj hmore
        exact ⟨front, more, rfl, hfront⟩

end Token

/-! ## Moving on -/

namespace Cursor

variable {c c' c'' d : Cursor} {k : Kind} {ks ls : List Kind}

/-- The cursor is moved on over these tokens. -/
structure Moved (c : Cursor) (used : List Kind) (c' : Cursor) : Prop where
  ahead : c.ahead = used ++ c'.ahead
  after : c' = c.after used.length

theorem Moved.refl (c : Cursor) : c.Moved [] c := ⟨rfl, rfl⟩

theorem Moved.trans (h : c.Moved ks c') (h' : c'.Moved ls c'') : c.Moved (ks ++ ls) c'' where
  ahead := by rw [h.ahead, h'.ahead, List.append_assoc]
  after := by rw [List.length_append, after_add, ← h.after, h'.after]

theorem Moved.advance (hc : c.ahead = k :: ks) (hk : k ≠ .eof) : c.Moved [k] c.advance where
  ahead := by rw [ahead_advance hc hk, hc, List.singleton_append]
  after := rfl

/-- The one cursor may be moved on to the other. -/
def Reaches (c c' : Cursor) : Prop := ∃ used, c.Moved used c'

theorem Reaches.refl (c : Cursor) : c.Reaches c := ⟨[], .refl c⟩

theorem Reaches.trans : c.Reaches c' → c'.Reaches c'' → c.Reaches c''
  | ⟨_, h⟩, ⟨_, h'⟩ => ⟨_, h.trans h'⟩

theorem Moved.length_le (h : c.Moved ks c') : ks.length + c'.rest.length = c.rest.length := by
  have hlength := congrArg List.length h.ahead
  rw [List.length_append, Cursor.ahead, Cursor.ahead, List.length_map, List.length_map] at hlength
  exact hlength.symm

theorem Reaches.length_le : c.Reaches c' → c'.rest.length ≤ c.rest.length
  | ⟨_, h⟩ => by have := h.length_le; omega

theorem ahead_of_kind (hk : c.kind ≠ .eof) : c.ahead = c.kind :: c.advance.ahead :=
  c.ahead_advance_of_kind rfl hk

/-- At the end of the text a cursor stays. -/
theorem advance_of_eof (hk : c.kind = .eof) : c.advance = c := by
  obtain ⟨rest, lastStop, lastWordStop, bound, hbound⟩ := c
  cases rest with
  | nil => rfl
  | cons t ts =>
    have ht : t.kind = .eof := hk
    unfold advance
    simp only [ht]

theorem reaches_advance (c : Cursor) : c.Reaches c.advance := by
  by_cases hk : c.kind = .eof
  · rw [advance_of_eof hk]
    exact .refl c
  · exact ⟨_, .advance (ahead_of_kind hk) hk⟩

theorem reaches_after (n : Nat) (c : Cursor) : c.Reaches (c.after n) := by
  induction n generalizing c with
  | zero => exact .refl c
  | succ n ih => exact c.reaches_advance.trans (ih c.advance)

theorem length_advance (c : Cursor) : c.rest.length ≤ c.advance.rest.length + 1 := by
  obtain ⟨rest, lastStop, lastWordStop, bound, hbound⟩ := c
  cases rest with
  | nil => simp
  | cons t ts =>
    unfold advance
    dsimp only
    split <;> simp

/-- The cursor may be moved on to a place behind a mark of the layout, if it is moved at all. -/
def StartsLine (c c' : Cursor) : Prop := ∃ used, c.Moved used c' ∧ Token.Settled used

theorem StartsLine.refl (c : Cursor) : c.StartsLine c := ⟨[], .refl c, by simp [Token.Settled]⟩

theorem StartsLine.moved (h : c.StartsLine c') (h' : c'.Moved ks c'') (hks : Token.Settled ks) :
    c.StartsLine c'' := by
  obtain ⟨used, hmoved, hused⟩ := h
  exact ⟨used ++ ks, hmoved.trans h', hused.append hks⟩

theorem Reaches.startsLine (h : c.Reaches c') (h' : c'.Moved ks c'') (hks : Token.Closed ks) :
    c.StartsLine c'' := by
  obtain ⟨used, hmoved⟩ := h
  exact ⟨used ++ ks, hmoved.trans h', (hks.behind used).settled⟩

theorem StartsLine.reaches : c.StartsLine c' → c.Reaches c'
  | ⟨used, h, _⟩ => ⟨used, h⟩

/-- Where two texts are compared no further: what is behind in each of them. -/
structure Fence where
  /-- The tokens behind the fence in the first text. -/
  left : List Token
  /-- The tokens behind the fence in the second text. -/
  right : List Token

namespace Fence

/-- The texts are compared as a whole. -/
def absent : Fence := ⟨[], []⟩

/-- There is something in front of the fence still, if there is a fence. -/
def Inside (φ : Fence) (c : Cursor) : Prop := φ.left.length < c.rest.length ∨ φ = absent

variable {φ : Fence}

theorem Inside.length_le (h : φ.Inside c) : φ.left.length ≤ c.rest.length := by
  rcases h with h | rfl
  · exact h.le
  · exact Nat.zero_le _

theorem Inside.of_reaches (h : φ.Inside c') (hreach : c.Reaches c') : φ.Inside c :=
  h.imp_left fun hlength => Nat.lt_of_lt_of_le hlength hreach.length_le

end Fence

/-- What is left of the line, up to its end. -/
def Line (ks : List Kind) (c : Cursor) : Prop :=
  (∀ k ∈ ks, k.Inner) ∧ ∃ rest, c.ahead = ks ++ .newline :: rest

/-- Both cursors have tokens of the same kinds ahead up to a fence, at corresponding places, on
lines that end.  Where the last token ends that was taken matters as long as a line has its end
ahead. -/
structure Beside (π : Places) (φ : Fence) (c d : Cursor) : Prop where
  rest : ∃ ts us, c.rest = ts ++ φ.left ∧ d.rest = us ++ φ.right ∧ Token.Matched π ts us ∧
    Token.Lined (ts.map Token.kind) ∧
    ((∃ t ∈ ts, t.kind ≠ .dedent) → π.right d.lastStop = π.left c.lastStop)
  lastWordStop : π.right d.lastWordStop = π.left c.lastWordStop

/-- Both cursors are in front of the fence, too. -/
structure Twin (π : Places) (φ : Fence) (c d : Cursor) : Prop extends Beside π φ c d where
  inside : φ.Inside c

namespace Beside

variable {π : Places} {φ : Fence}

theorem length_le (h : c.Beside π φ d) : φ.left.length ≤ c.rest.length := by
  obtain ⟨ts, us, hc, -⟩ := h.rest
  rw [hc, List.length_append]
  omega

/-- At the fence on the one side means at the fence on the other. -/
theorem rest_right (h : c.Beside π φ d) (hc : c.rest = φ.left) : d.rest = φ.right := by
  obtain ⟨ts, us, hc', hd, hmatched, -⟩ := h.rest
  obtain rfl : ts = [] := List.append_left_eq_self.1 (hc'.symm.trans hc)
  cases hmatched
  exact hd

/-- The tokens in front of the fence are passed together. -/
theorem advance (h : c.Beside π φ d) (hinside : φ.Inside c) : c.advance.Beside π φ d.advance := by
  have hword := h.lastWordStop
  obtain ⟨ts, us, hc, hd, hmatched, hlined, hstop⟩ := h.rest
  cases ts with
  | nil =>
    cases hmatched
    rcases hinside with hlength | rfl
    · rw [hc] at hlength
      exact absurd hlength (Nat.lt_irrefl _)
    · have hstays {c : Cursor} (hc : c.rest = []) : c.advance = c := by
        obtain ⟨rest, _, _, _, _⟩ := c
        cases hc
        rfl
      rw [hstays hc, hstays hd]
      exact h
  | cons t ts =>
    obtain ⟨u, us, rfl, hkind, hmatched', hplace⟩ := hmatched.uncons
    by_cases heof : t.kind = .eof
    · have hstays {c : Cursor} {t : Token} {ts : List Token} (hc : c.rest = t :: ts)
          (ht : t.kind = .eof) : c.advance = c := by
        obtain ⟨rest, _, _, _, _⟩ := c
        cases hc
        unfold Cursor.advance
        simp [ht]
      rw [hstays hc heof, hstays hd (hkind.trans heof)]
      exact h
    · obtain ⟨hts, htstop, htword⟩ := advance_of_rest hc heof
      obtain ⟨hus, hustop, huword⟩ := advance_of_rest hd (by rwa [hkind])
      refine ⟨⟨ts, us, hts, hus, hmatched', hlined.2, ?_⟩, ?_⟩
      · rintro ⟨x, hx, hxkind⟩
        rcases hplace with hsame | ⟨-, hdedents⟩
        · rw [htstop, hustop, hsame.span.stop]
        · exact absurd (hdedents x hx) hxkind
      · rw [htword, huword, hkind]
        rcases hplace with hsame | ⟨hlayout, -⟩
        · split
          · exact hword
          · exact hsame.span.stop
        · rw [if_pos hlayout, if_pos hlayout]
          exact hword

theorem after {n : Nat} (h : c.Beside π φ d) (hn : n + φ.left.length ≤ c.rest.length) :
    (c.after n).Beside π φ (d.after n) := by
  induction n generalizing c d with
  | zero => exact h
  | succ n ih =>
    refine ih (h.advance (.inl (by omega))) ?_
    have hlength := c.length_advance
    omega

end Beside

namespace Twin

variable {π : Places} {φ : Fence}

/-- In front of the fence there is a token on both sides, or there are no more tokens at all. -/
theorem rest_cases (h : c.Twin π φ d) :
    (∃ t u ts us, c.rest = t :: (ts ++ φ.left) ∧ d.rest = u :: (us ++ φ.right) ∧
      Token.Matched π (t :: ts) (u :: us) ∧ Token.Lined ((t :: ts).map Token.kind)) ∨
    c.rest = [] ∧ d.rest = [] := by
  obtain ⟨ts, us, hc, hd, hmatched, hlined, -⟩ := h.rest
  cases hmatched with
  | nil =>
    rcases h.inside with hlength | rfl
    · rw [hc] at hlength
      exact absurd hlength (Nat.lt_irrefl _)
    · exact .inr ⟨hc, hd⟩
  | cons hsame hmatched => exact .inl ⟨_, _, _, _, hc, hd, .cons hsame hmatched, hlined⟩
  | mark hlayout hkind hdedents hmatched =>
    exact .inl ⟨_, _, _, _, hc, hd, .mark hlayout hkind hdedents hmatched, hlined⟩

theorem kind (h : c.Twin π φ d) : d.kind = c.kind := by
  unfold Cursor.kind Cursor.token
  rcases h.rest_cases with ⟨t, u, ts, us, hc, hd, hmatched, -⟩ | ⟨hc, hd⟩
  · rw [hc, hd]
    obtain ⟨_, _, hcons, hkind, -⟩ := hmatched.uncons
    cases hcons
    exact hkind
  · rw [hc, hd]
    rfl

theorem sees (h : c.Twin π φ d) (k : Kind) : d.sees k = c.sees k := by
  rw [Cursor.sees, Cursor.sees, h.kind]

/-- The next tokens stand at corresponding places if they are of the text. -/
theorem token (h : c.Twin π φ d) (hk : c.kind.Inner) : c.token.span.Same π d.token.span := by
  unfold Cursor.kind Cursor.token at hk
  unfold Cursor.token
  rcases h.rest_cases with ⟨t, u, ts, us, hc, hd, hmatched, -⟩ | ⟨hc, -⟩
  · rw [hc] at hk ⊢
    rw [hd]
    obtain ⟨_, _, hcons, -, -, hplace⟩ := hmatched.uncons
    cases hcons
    rcases hplace with hsame | ⟨hlayout, -⟩
    · exact hsame.span
    · have hk : t.kind.Inner := hk
      exact absurd (hk.not_layout.symm.trans hlayout) Bool.false_ne_true
  · rw [hc] at hk
    exact absurd rfl hk.2.2

theorem advance (h : c.Twin π φ d) (hinside : φ.Inside c.advance) : c.advance.Twin π φ d.advance :=
  ⟨h.toBeside.advance h.inside, hinside⟩

theorem after {n : Nat} (h : c.Twin π φ d) (hinside : φ.Inside (c.after n)) :
    (c.after n).Twin π φ (d.after n) := by
  induction n generalizing c d with
  | zero => exact h
  | succ n ih => exact ih (h.advance (hinside.of_reaches (c.advance.reaches_after n))) hinside

/-- A cursor in front of a token of the text is on a line. -/
theorem line (h : c.Twin π φ d) (hc : c.ahead = k :: ks) (hk : k.Inner) :
    ∃ ls, c.Line (k :: ls) := by
  rcases h.rest_cases with ⟨t, u, ts, us, hrest, -, -, hlined⟩ | ⟨hrest, -⟩
  · rw [Cursor.ahead, hrest, List.map_cons] at hc
    obtain ⟨rfl, -⟩ := List.cons.inj hc
    obtain ⟨ls, rest, hls, hinner⟩ := hlined.1 hk
    refine ⟨ls, List.forall_mem_cons.2 ⟨hk, hinner⟩, rest ++ φ.left.map Token.kind, ?_⟩
    rw [Cursor.ahead, hrest, List.map_cons, List.map_append, hls]
    simp
  · rw [Cursor.ahead, hrest] at hc
    cases hc

/-- The rest of a line, with its end, is in front of the fence. -/
theorem onLine (h : c.Twin π φ d) (hc : c.Line ks) : ∃ rest rest', OnLine π ks rest rest' c d ∧
    ks.length + φ.left.length < c.rest.length := by
  obtain ⟨hks, rest, hahead⟩ := hc
  obtain ⟨ts, us, hcrest, hdrest, hmatched, hlined, hstop⟩ := h.rest
  obtain ⟨more, hmore⟩ : ∃ more, ts.map Token.kind = ks ++ .newline :: more := by
    have hne : ts.map Token.kind ≠ [] := by
      rintro hnil
      rcases h.rest_cases with ⟨t, u, ts', us', hrest, -⟩ | ⟨hrest, -⟩
      · rw [List.map_eq_nil_iff.1 hnil] at hcrest
        have := hcrest.symm.trans hrest
        have hlength := congrArg List.length this
        rw [List.nil_append, List.length_cons, List.length_append] at hlength
        omega
      · rw [Cursor.ahead, hrest] at hahead
        simp at hahead
    rw [Cursor.ahead, hcrest, List.map_append] at hahead
    exact Token.Lined.exists_end hlined hne hks hahead
  have hlength : ks.length < ts.length := by
    have hlength := congrArg List.length hmore
    rw [List.length_map, List.length_append, List.length_cons] at hlength
    omega
  have hright : d.ahead = ks ++ .newline :: (more ++ φ.right.map Token.kind) := by
    rw [Cursor.ahead, hdrest, List.map_append, hmatched.kinds, hmore]
    simp
  refine ⟨rest, _, ⟨hks, hahead, hright, ?_, hstop ?_⟩, ?_⟩
  · rw [hcrest, hdrest, List.take_append_of_le_length hlength.le,
      List.take_append_of_le_length (hmatched.length_eq ▸ hlength.le), List.forall₂_map_left_iff,
      List.forall₂_map_right_iff]
    exact hmatched.spans hks hmore
  · obtain ⟨t, ht, hkind⟩ :=
      List.mem_map.1 (show Kind.newline ∈ ts.map Token.kind by rw [hmore]; simp)
    exact ⟨t, ht, by simp [hkind]⟩
  · rw [hcrest, List.length_append]
    omega

/-- Without a fence all tokens that are ahead are compared. -/
theorem of_forall₂ (h : List.Forall₂ (Token.Same π) c.rest d.rest) (hlined : Token.Lined c.ahead)
    (hstop : π.right d.lastStop = π.left c.lastStop)
    (hword : π.right d.lastWordStop = π.left c.lastWordStop) : c.Twin π .absent d where
  rest := ⟨c.rest, d.rest, (List.append_nil _).symm, (List.append_nil _).symm,
    .of_forall₂ h, hlined, fun _ => hstop⟩
  lastWordStop := hword
  inside := .inr rfl

/-- A cursor is its own twin. -/
theorem self (h : Token.Lined c.ahead) : c.Twin .nowhere .absent c :=
  of_forall₂ (List.forall₂_same.2 fun _ _ => ⟨rfl, rfl⟩) h rfl rfl

theorem ahead (h : c.Twin π .absent d) : d.ahead = c.ahead := by
  obtain ⟨ts, us, hc, hd, hmatched, -⟩ := h.rest
  rw [Cursor.ahead, Cursor.ahead, hc, hd, List.map_append, List.map_append, hmatched.kinds]
  rfl

/-- The bounds on what is ahead are rounds enough up to the fence. -/
theorem length_lt (h : c.Twin π φ d) :
    c.rest.length < c.bound + 1 + φ.left.length ∧ c.rest.length < d.bound + 1 + φ.left.length := by
  obtain ⟨ts, us, hcrest, hdrest, hmatched, -⟩ := h.rest
  have hlength := hmatched.length_eq
  have hc := c.length_rest_le
  have hd := d.length_rest_le
  have hcLength := congrArg List.length hcrest
  have hdLength := congrArg List.length hdrest
  rw [List.length_append] at hcLength hdLength
  omega

end Twin

end Cursor

/-! ## Two readers -/

/-- Whatever is read, the cursor is only moved on. -/
class Onward {α : Type} (x : Parse α) : Prop where
  reaches : ∀ ⦃c : Cursor⦄ ⦃a : α⦄ ⦃c' : Cursor⦄, x c = .ok a c' → c.Reaches c'

/-- Whatever `x` reads from the first cursor in front of the fence, `y` reads the like of it from
the second one, and both move on over the same tokens.  These are such as `E` tells, and lead from
`n` open brackets to `m`. -/
def Tandem {α : Type} (π : Places) (φ : Cursor.Fence) (n : Nat) (c d : Cursor) (x y : Parse α)
    (R : α → α → Prop) (E : List Kind → Prop) (m : Nat) : Prop :=
  ∀ ⦃a : α⦄ ⦃c' : Cursor⦄, x c = .ok a c' → φ.Inside c' → ∃ b d' used, y d = .ok b d' ∧ R a b ∧
    c'.Twin π φ d' ∧ c.Moved used c' ∧ Token.Counts n used m ∧ E used

namespace Tandem

open Token (Closed Settled Counts)

variable {π : Places} {φ : Cursor.Fence} {α β : Type} {R : α → α → Prop} {S : β → β → Prop}
  {E G F : List Kind → Prop} {n l m : Nat} {c d : Cursor} {k : Kind} {ks : List Kind}

theorem pure {a b : α} (h : c.Twin π φ d) (hab : R a b) :
    Tandem π φ n c d (Pure.pure a) (Pure.pure b) R Settled n := by
  rintro _ _ ⟨⟩ -
  exact ⟨b, d, [], rfl, hab, h, .refl c, .nil n, by simp [Settled]⟩

theorem mono {x y : Parse α} (hx : Tandem π φ n c d x y R E m) (h : ∀ used, E used → F used) :
    Tandem π φ n c d x y R F m := by
  intro a c' ha hinside
  obtain ⟨b, d', used, hb, hab, htwin, hmoved, hcounts, hused⟩ := hx ha hinside
  exact ⟨b, d', used, hb, hab, htwin, hmoved, hcounts, h used hused⟩

theorem bind {x y : Parse α} {f g : α → Parse β} [hon : ∀ a, Onward (f a)]
    (hx : Tandem π φ n c d x y R E l)
    (hf : ∀ a b c' d' used, R a b → c'.Twin π φ d' → c.Moved used c' → E used →
      Tandem π φ l c' d' (f a) (g b) S G m)
    (hE : ∀ used more, E used → G more → F (used ++ more)) :
    Tandem π φ n c d (x >>= f) (y >>= g) S F m := by
  intro b c'' h hinside
  obtain ⟨a, c', hxa, hfb⟩ := EStateM.bind_eq_ok.1 h
  obtain ⟨a', d', used, hya, hR, htwin, hmoved, hcounts, hused⟩ :=
    hx hxa (hinside.of_reaches ((hon a).reaches hfb))
  obtain ⟨b', d'', more, hgb, hS, htwin', hmoved', hcounts', hmore⟩ :=
    hf a a' c' d' used hR htwin hmoved hused hfb hinside
  refine ⟨b', d'', used ++ more, ?_, hS, htwin', hmoved.trans hmoved', hcounts.append hcounts',
    hE used more hused hmore⟩
  rw [EStateM.bind_ok hya, hgb]

theorem throw {e : SyntaxError} {y : Parse α} :
    Tandem π φ n c d (MonadExcept.throw e) y R E m := by
  rintro _ _ ⟨⟩

theorem missing {what : SyntaxError.Expected} {y : Parse α} :
    Tandem π φ n c d (Parse.missing what) y R E m := by
  rintro _ _ ⟨⟩

theorem get {f g : Cursor → Parse α} (hf : Tandem π φ n c d (f c) (g d) R E m) :
    Tandem π φ n c d (MonadState.get >>= f) (MonadState.get >>= g) R E m := hf

theorem here {f g : Span → Parse α} (h : c.Twin π φ d)
    (hf : ∀ span span', (c.kind.Inner → span.Same π span') → Tandem π φ n c d (f span)
      (g span') R E m) :
    Tandem π φ n c d (Parse.here >>= f) (Parse.here >>= g) R E m := hf _ _ h.token

theorem blockSpanFrom {f g : Span → Parse α} {start start' : Nat} (h : c.Twin π φ d)
    (hstart : π.right start' = π.left start)
    (hf : ∀ span span', span.Same π span' → Tandem π φ n c d (f span) (g span') R E m) :
    Tandem π φ n c d (Parse.blockSpanFrom start >>= f) (Parse.blockSpanFrom start' >>= g) R E m :=
  hf _ _ (.mk hstart h.lastWordStop)

theorem rounds {f g : Nat → Parse α} (h : c.Twin π φ d)
    (hf : ∀ i j, c.rest.length < i + φ.left.length → c.rest.length < j + φ.left.length →
      Tandem π φ n c d (f i) (g j) R E m) :
    Tandem π φ n c d (Parse.rounds >>= f) (Parse.rounds >>= g) R E m :=
  hf _ _ h.length_lt.1 h.length_lt.2

/-- The next token is read on both sides. -/
theorem advance {f g : Unit → Parse α} [hon : Onward (f ())] (h : c.Twin π φ d)
    (hc : c.ahead = k :: ks) (hk : k ≠ .eof) (hcounts : k.Counts n l)
    (hf : c.advance.Twin π φ d.advance → c.Moved [k] c.advance →
      Tandem π φ l c.advance d.advance (f ()) (g ()) R E m)
    (hE : ∀ used, E used → F (k :: used)) :
    Tandem π φ n c d (Parse.advance >>= f) (Parse.advance >>= g) R F m := by
  intro a c' ha hinside
  have hmoved := Cursor.Moved.advance hc hk
  have htwin := h.advance (hinside.of_reaches (hon.reaches ha))
  obtain ⟨b, d', used, hb, hab, htwin', hmoved', hcounts', hused⟩ := hf htwin hmoved ha hinside
  exact ⟨b, d', k :: used, hb, hab, htwin', hmoved.trans hmoved', .cons hcounts hcounts',
    hE used hused⟩

theorem sees {f g : Bool → Parse α} (h : c.Twin π φ d) (hk : k.Fixed)
    (hyes : c.kind = k → Tandem π φ n c d (f true) (g true) R E m)
    (hno : c.kind ≠ k → Tandem π φ n c d (f false) (g false) R E m) :
    Tandem π φ n c d (Parse.sees k >>= f) (Parse.sees k >>= g) R E m := by
  change Tandem π φ n c d (f (c.sees k)) (g (d.sees k)) R E m
  rw [h.sees]
  cases hseen : c.sees k with
  | true => exact hyes (Cursor.kind_of_sees hk hseen)
  | false =>
    refine hno fun hkind => ?_
    have hsees : c.sees k = true := (Token.Kind.alike_iff hk).2 hkind
    rw [hseen] at hsees
    cases hsees

theorem accept {f g : Bool → Parse α} [Onward (f true)] (h : c.Twin π φ d) (hk : k.Fixed)
    (heof : k ≠ .eof) (hcounts : k.Counts n l)
    (hyes : c.ahead = k :: c.advance.ahead → c.advance.Twin π φ d.advance → c.Moved [k] c.advance →
      Tandem π φ l c.advance d.advance (f true) (g true) R E m)
    (hE : ∀ used, E used → F (k :: used))
    (hno : c.kind ≠ k → Tandem π φ n c d (f false) (g false) R F m) :
    Tandem π φ n c d (Parse.accept k >>= f) (Parse.accept k >>= g) R F m := by
  unfold Parse.accept
  rw [bind_assoc, bind_assoc]
  refine sees h hk (fun hkind => ?_) hno
  have hahead := Cursor.ahead_advance_of_kind hkind heof
  rw [if_pos rfl, bind_assoc, bind_assoc]
  exact advance (f := fun _ => f true) h hahead heof hcounts (hyes hahead) hE

theorem expect {f g : Unit → Parse α} [Onward (f ())] (h : c.Twin π φ d) (hk : k.Fixed)
    (heof : k ≠ .eof) (hcounts : k.Counts n l)
    (hf : c.ahead = k :: c.advance.ahead → c.advance.Twin π φ d.advance → c.Moved [k] c.advance →
      Tandem π φ l c.advance d.advance (f ()) (g ()) R E m)
    (hE : ∀ used, E used → F (k :: used)) :
    Tandem π φ n c d (Parse.expect k >>= f) (Parse.expect k >>= g) R F m := by
  unfold Parse.expect
  rw [bind_assoc, bind_assoc]
  refine sees h hk (fun hkind => ?_) fun _ => ?_
  · have hahead := Cursor.ahead_advance_of_kind hkind heof
    exact advance h hahead heof hcounts (hf hahead) hE
  · rintro _ _ ⟨⟩

/-- What is read from a line, with more to be read behind it. -/
theorem line {x y : Parse α} {f g : α → Parse β} [hon : ∀ a, Onward (f a)] (h : c.Twin π φ d)
    (hc : c.Line ks) (hx : Mirrors π n ks x y R l)
    (hf : ∀ a b c' d' left, R a b → c'.Twin π φ d' → c.Reaches c' → c'.Line left →
      Tandem π φ l c' d' (f a) (g b) S E m)
    (hE : ∀ used more, E more → F (used ++ more)) :
    Tandem π φ n c d (x >>= f) (y >>= g) S F m := by
  obtain ⟨rest, rest', hline, -⟩ := h.onLine hc
  intro b c'' hb hinside
  obtain ⟨a, c', hxa, hfb⟩ := EStateM.bind_eq_ok.1 hb
  obtain ⟨a', d', used, left, hya, hR, rfl, hcounts, hline', hc', hd'⟩ := hx hline hxa
  have hmoved : c.Moved used c' := ⟨by rw [hline.left, hline'.left, List.append_assoc], hc'⟩
  have htwin : c'.Twin π φ d' := by
    rw [hd']
    exact hc' ▸ h.after (hc' ▸ hinside.of_reaches ((hon a).reaches hfb))
  obtain ⟨b', d'', more, hgb, hS, htwin', hmoved', hcounts', hmore⟩ :=
    hf a a' c' d' left hR htwin ⟨used, hmoved⟩ ⟨hline'.inner, rest, hline'.left⟩ hfb hinside
  refine ⟨b', d'', used ++ more, ?_, hS, htwin', hmoved.trans hmoved', hcounts.append hcounts',
    hE used more hmore⟩
  rw [EStateM.bind_ok hya, hgb]

/-- What is read from a line in front of its end. -/
theorem lineClosed {x y : Parse α} {f g : α → Parse β} [∀ a, Onward (f a)] (h : c.Twin π φ d)
    (hc : c.Line ks) (hx : Mirrors π n ks x y R l)
    (hf : ∀ a b c' d' left, R a b → c'.Twin π φ d' → c.Reaches c' → c'.Line left →
      Tandem π φ l c' d' (f a) (g b) S Closed m) : Tandem π φ n c d (x >>= f)
      (y >>= g) S Closed m :=
  line h hc hx hf fun used _ hmore => hmore.behind used

end Tandem

end StagedScript
