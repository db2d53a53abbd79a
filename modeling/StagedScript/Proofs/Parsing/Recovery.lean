import StagedScript.Proofs.Parsing.Blocks
import StagedScript.Proofs.Parsing.Mirrored
import StagedScript.Proofs.Parsing.Statements

/-!
# Behind a broken statement

Behind an error the rest of the line is passed, and the block that hangs off the line if there is
one.  Where there is none, reading goes on with the next line, so that only the broken line is lost.
Behind a block it does not: the next line is passed as well, and the block that hangs off that one.
Everything else is read as if what is passed were not there.
-/

namespace StagedScript

open Token (Kind Balanced depthAfter)

namespace Cursor

variable {c : Cursor} {k : Kind} {ks line inside rest : List Kind} {n : Nat} {depth : Int}

/-! ## Passing tokens -/

/-- A token that neither opens nor closes a block is passed, unless it ends the line at the depth
where the error was found and no block hangs off the line. -/
theorem synchronizeFrom_flat (hc : c.ahead = k :: ks) (hk : k.Flat) (heof : k ≠ .eof)
    (hline : k = .newline → 0 < depth ∨ ∃ ls, ks = .indent :: ls) :
    c.synchronizeFrom (n + 1) depth = c.advance.synchronizeFrom n depth := by
  obtain ⟨hindent, hdedent⟩ := hk
  rw [synchronizeFrom, kind_of_ahead hc]
  split
  · exact absurd rfl heof
  · exact absurd rfl hindent
  · exact absurd rfl hdedent
  · rcases hline rfl with hdepth | ⟨ls, rfl⟩
    · exact if_neg (by simp; omega)
    · rw [following_of_ahead hc]
      exact if_neg (by simp [Kind.alike])
  · rfl

theorem synchronizeFrom_indent (hc : c.ahead = .indent :: ks) :
    c.synchronizeFrom (n + 1) depth = c.advance.synchronizeFrom n (depth + 1) := by
  rw [synchronizeFrom, kind_of_ahead hc]

theorem synchronizeFrom_dedent (hc : c.ahead = .dedent :: ks) :
    c.synchronizeFrom (n + 1) depth = c.advance.synchronizeFrom n (depth - 1) := by
  rw [synchronizeFrom, kind_of_ahead hc]

/-- At the end of a line that no block hangs off reading can go on. -/
theorem synchronizeFrom_newline (hc : c.ahead = .newline :: k :: ks) (hk : k.alike .indent = false)
    (hdepth : depth ≤ 0) : c.synchronizeFrom (n + 1) depth = c.advance.skipDedents := by
  rw [synchronizeFrom, kind_of_ahead hc, following_of_ahead hc, hk]
  exact if_pos (by simpa using hdepth)

/-- The ends of blocks are passed. -/
theorem ahead_skipDedentsFrom (hn : c.ahead.length ≤ n) :
    (c.skipDedentsFrom n).ahead = c.ahead.dropWhile (·.alike .dedent) := by
  induction n generalizing c with
  | zero =>
    rw [skipDedentsFrom, List.eq_nil_of_length_eq_zero (Nat.le_zero.1 hn)]
    rfl
  | succ n ih =>
    rw [skipDedentsFrom]
    cases hc : c.ahead with
    | nil =>
      have hrest : c.rest.length = 0 := by rw [← List.length_map, ← ahead, hc, List.length_nil]
      have hkind : c.kind = .eof := by
        rw [kind, token, List.eq_nil_of_length_eq_zero hrest]
        rfl
      rw [sees, hkind, if_neg (by simp [Kind.alike]), hc]
      rfl
    | cons k ks =>
      rw [sees_of_ahead hc]
      split
      · next hk =>
        have hadvance : c.advance.ahead = ks :=
          ahead_advance hc fun heof => by rw [heof] at hk; simp [Kind.alike] at hk
        rw [ih (by rw [hadvance]; rw [hc, List.length_cons] at hn; omega), hadvance]
        simp [hk]
      · next hk => simp [hc, hk]

theorem ahead_skipDedents : c.skipDedents.ahead = c.ahead.dropWhile (·.alike .dedent) :=
  ahead_skipDedentsFrom c.length_ahead_le

/-- The tokens of a line are passed. -/
theorem synchronizeFrom_line (depth : Int) (hline : ∀ k ∈ line, k.Inner)
    (hc : c.ahead = line ++ rest) (hn : c.ahead.length ≤ n) :
    ∃ (m : Nat) (d : Cursor), d.ahead = rest ∧ d.ahead.length ≤ m ∧
      c.synchronizeFrom n depth = d.synchronizeFrom m depth := by
  induction line generalizing n c with
  | nil => exact ⟨n, c, hc, hn, rfl⟩
  | cons k line ih =>
    obtain ⟨hk, hline⟩ := List.forall_mem_cons.1 hline
    obtain ⟨n, rfl⟩ : ∃ m, n = m + 1 := by
      rw [hc, List.cons_append, List.length_cons] at hn
      exact ⟨n - 1, by omega⟩
    have hadvance : c.advance.ahead = line ++ rest := ahead_advance hc hk.2.2
    obtain ⟨m, d, hd, hm, heq⟩ := ih hline hadvance (n := n) (by
      rw [hadvance]
      rw [hc, List.cons_append, List.length_cons] at hn
      omega)
    refine ⟨m, d, hd, hm, ?_⟩
    rw [synchronizeFrom_flat hc hk.1 hk.2.2 fun h => absurd h hk.2.1, heq]

/-- The tokens within a block are passed, whatever lines and blocks they form. -/
theorem synchronizeFrom_inside {d e : Nat} (hinside : depthAfter d inside = some e)
    (heof : .eof ∉ inside) (hc : c.ahead = inside ++ rest) (hn : c.ahead.length ≤ n) :
    ∃ (m : Nat) (c' : Cursor), c'.ahead = rest ∧ c'.ahead.length ≤ m ∧
      c.synchronizeFrom n (d + 1) = c'.synchronizeFrom m (e + 1) := by
  induction inside generalizing d n c with
  | nil =>
    cases hinside
    exact ⟨n, c, hc, hn, rfl⟩
  | cons k inside ih =>
    rw [List.mem_cons, not_or] at heof
    obtain ⟨hk, heof⟩ := heof
    rw [List.cons_append] at hc
    obtain ⟨n, rfl⟩ : ∃ m, n = m + 1 := by
      rw [hc, List.length_cons] at hn
      exact ⟨n - 1, by omega⟩
    have hadvance : c.advance.ahead = inside ++ rest := ahead_advance hc (Ne.symm hk)
    have hlength : c.advance.ahead.length ≤ n := by
      rw [hadvance]
      rw [hc, List.length_cons] at hn
      omega
    by_cases hflat : k.Flat
    · rw [Token.depthAfter_flat hflat] at hinside
      rw [synchronizeFrom_flat hc hflat (Ne.symm hk) fun _ => .inl (by omega)]
      exact ih hinside heof hadvance hlength
    · rcases Kind.eq_of_not_flat hflat with rfl | rfl
      · rw [Token.depthAfter_indent] at hinside
        rw [synchronizeFrom_indent hc]
        exact ih hinside heof hadvance hlength
      · cases d with
        | zero => cases hinside
        | succ d =>
          rw [synchronizeFrom_dedent hc, show ((d + 1 : Nat) : Int) + 1 - 1 =
            (d : Int) + 1 by omega]
          exact ih (d := d) hinside heof hadvance hlength

/-! ## Where reading goes on -/

end Cursor

/-- What is passed from an error at the top level on, in front of the tokens that are read next: the
rest of the line, and behind a block as much as if the error had been found there. -/
inductive Token.Passed : List Kind → List Kind → Prop
  | line {line rest : List Kind} {k : Kind} (hline : ∀ l ∈ line, l.Inner)
      (hk : k.alike .indent = false) : Passed (line ++ [.newline]) (k :: rest)
  | block {line inside more rest : List Kind} (hline : ∀ l ∈ line, l.Inner)
      (hinside : Balanced inside) (heof : .eof ∉ inside) (hmore : Passed more rest) :
      Passed (line ++ .newline :: .indent :: (inside ++ .dedent :: more)) rest
  | end_ : Passed [] [.eof]

open Token (Passed)

namespace Cursor

variable {c : Cursor} {k : Kind} {ks line inside passed rest : List Kind} {n : Nat}

/-- A line and the block that hangs off it are passed. -/
theorem synchronizeFrom_block (hline : ∀ k ∈ line, k.Inner) (hinside : Balanced inside)
    (heof : .eof ∉ inside)
    (hc : c.ahead = line ++ .newline :: .indent :: (inside ++ .dedent :: rest))
    (hn : c.ahead.length ≤ n) : ∃ (m : Nat) (d : Cursor), d.ahead = rest ∧ d.ahead.length ≤ m ∧
      c.synchronizeFrom n 0 = d.synchronizeFrom m 0 := by
  obtain ⟨m, d, hd, hm, hfirst⟩ := synchronizeFrom_line 0 hline hc hn
  obtain ⟨m, rfl⟩ : ∃ j, m = j + 2 := by
    rw [hd, List.length_cons, List.length_cons] at hm
    exact ⟨m - 2, by omega⟩
  have hopen : d.advance.ahead = .indent :: (inside ++ .dedent :: rest) :=
    ahead_advance hd (by simp)
  have hbody : d.advance.advance.ahead = inside ++ .dedent :: rest := ahead_advance hopen (by simp)
  have hlength : d.advance.advance.ahead.length ≤ m := by
    rw [hbody]
    rw [hd, List.length_cons, List.length_cons] at hm
    omega
  obtain ⟨j, e, he, hj, hsecond⟩ := synchronizeFrom_inside (d := 0) (hinside 0) heof hbody hlength
  obtain ⟨j, rfl⟩ : ∃ i, j = i + 1 := by
    rw [he, List.length_cons] at hj
    exact ⟨j - 1, by omega⟩
  have hbehind : e.advance.ahead = rest := ahead_advance he (by simp)
  refine ⟨j, e.advance, hbehind, ?_, ?_⟩
  · rw [hbehind]
    rw [he, List.length_cons] at hj
    omega
  · rw [hfirst, synchronizeFrom_flat hd ⟨by simp, by simp⟩ (by simp) fun _ => .inr ⟨_, rfl⟩,
      synchronizeFrom_indent hopen]
    exact hsecond.trans (synchronizeFrom_dedent he)

/-- Behind what is passed reading goes on with the end of no block. -/
theorem ahead_synchronizeFrom (h : Passed passed rest) (hc : c.ahead = passed ++ rest)
    (hn : c.ahead.length ≤ n) :
    (c.synchronizeFrom n 0).ahead = rest.dropWhile (·.alike .dedent) := by
  induction h generalizing c n with
  | @line line rest k hline hk =>
    rw [List.append_assoc, List.singleton_append] at hc
    obtain ⟨m, d, hd, hm, heq⟩ := synchronizeFrom_line 0 hline hc hn
    obtain ⟨m, rfl⟩ : ∃ j, m = j + 1 := by
      rw [hd, List.length_cons] at hm
      exact ⟨m - 1, by omega⟩
    rw [heq, synchronizeFrom_newline hd hk (Int.le_refl 0), ahead_skipDedents,
      ahead_advance hd (by simp)]
  | block hline hinside heof _ ih =>
    rw [List.append_assoc, List.cons_append, List.cons_append, List.append_assoc, List.cons_append]
      at hc
    obtain ⟨m, d, hd, hm, heq⟩ := synchronizeFrom_block hline hinside heof hc hn
    rw [heq]
    exact ih hd hm
  | end_ =>
    have hend : c.synchronizeFrom n 0 = c := by
      cases n with
      | zero => rfl
      | succ n => rw [synchronizeFrom, kind_of_ahead hc]
    rw [hend, hc]
    rfl

/-- Reading goes on behind what is passed. -/
theorem ahead_synchronize (h : Passed passed (k :: ks)) (hk : k.alike .dedent = false)
    (hc : c.ahead = passed ++ k :: ks) : c.synchronize.ahead = k :: ks := by
  rw [synchronize, ahead_synchronizeFrom h hc c.length_ahead_le,
    List.dropWhile_cons_of_neg (by simp [hk])]

end Cursor

/-! ## Broken statements -/

/-- From the cursor the parser fails, with tokens of these kinds still to be read. -/
def StopsAt {α : Type} (x : Parse α) (c : Cursor) (ks : List Kind) : Prop :=
  ∃ e c', x c = .error e c' ∧ c'.ahead = ks

namespace StopsAt

variable {α β : Type} {P : α → Prop} {c : Cursor} {k : Kind} {ks ls : List Kind}

/-- An error of the first step ends both. -/
theorem first {x : Parse α} {f : α → Parse β} (hx : StopsAt x c ks) : StopsAt (x >>= f) c ks := by
  obtain ⟨e, c', hx, hks⟩ := hx
  exact ⟨e, c', EStateM.bind_error hx, hks⟩

/-- An error behind what is read first. -/
theorem behind {x : Parse α} {f : α → Parse β} (hx : Yields x c P ls)
    (hf : ∀ a c', P a → c'.ahead = ls → StopsAt (f a) c' ks) : StopsAt (x >>= f) c ks := by
  obtain ⟨a, c', hx, ha, hls⟩ := hx
  obtain ⟨e, c'', hfe, hks⟩ := hf a c' ha hls
  exact ⟨e, c'', (EStateM.bind_ok hx).trans hfe, hks⟩

theorem get {f : Cursor → Parse α} (hf : StopsAt (f c) c ks) :
    StopsAt (MonadState.get >>= f) c ks := hf

theorem here {f : Span → Parse α} (hf : ∀ span, StopsAt (f span) c ks) :
    StopsAt (Parse.here >>= f) c ks := hf _

theorem rounds {f : Nat → Parse α} (hf : ∀ n, c.ahead.length < n → StopsAt (f n) c ks) :
    StopsAt (Parse.rounds >>= f) c ks := hf _ (Nat.lt_succ_of_le c.length_ahead_le)

theorem advance {f : Unit → Parse α} (h : c.ahead = k :: ls) (hk : k ≠ .eof)
    (hf : ∀ c' : Cursor, c'.ahead = ls → StopsAt (f ()) c' ks) :
    StopsAt (Parse.advance >>= f) c ks := hf _ (Cursor.ahead_advance h hk)

/-- Another token is asked for than the next one. -/
theorem expect {l : Kind} (h : c.ahead = k :: ks) (hkl : k.alike l = false) :
    StopsAt (Parse.expect l) c (k :: ks) := by
  refine ⟨⟨c.token.span, .expected (.token l) c.kind⟩, c, ?_, h⟩
  change (if c.sees l then Parse.advance else Parse.missing (.token l)) c = _
  rw [Cursor.sees_of_ahead h, hkl]
  rfl

end StopsAt

/-- The tokens are those of a statement that is broken if it stands in front of others: it cannot be
read, and behind the error the rest of it is passed. -/
structure Breaks (broken rest : List Kind) : Prop where
  begins : ∃ k ks, broken = k :: ks ∧ k.Begins
  stops : ∀ c : Cursor, c.ahead = broken ++ rest →
    ∃ passed, StopsAt Parse.stmt c (passed ++ rest) ∧ Passed passed rest

/-- The tokens are those of a line that cannot be read: wherever it stands, reading fails on it. -/
structure FailsOn (line : List Kind) : Prop where
  begins : ∃ k ks, line = k :: ks ∧ k.Begins
  stops : ∀ (c : Cursor) (rest : List Kind), c.ahead = line ++ .newline :: rest →
    ∃ left, (∀ k ∈ left, k.Inner) ∧ StopsAt Parse.stmt c (left ++ .newline :: rest)

namespace FailsOn

variable {line inside more rest : List Kind} {k : Kind} {ks : List Kind}

/-- A line that no block hangs off is lost alone. -/
theorem breaks_line (h : FailsOn line) (hk : k.alike .indent = false) :
    Breaks (line ++ [.newline]) (k :: ks) where
  begins := by
    obtain ⟨l, ls, rfl, hl⟩ := h.begins
    exact ⟨l, ls ++ [.newline], rfl, hl⟩
  stops c hc := by
    rw [List.append_assoc] at hc
    obtain ⟨left, hleft, hstops⟩ := h.stops c (k :: ks) hc
    refine ⟨left ++ [.newline], ?_, .line hleft hk⟩
    rwa [List.append_assoc]

/-- With a line the block is lost that hangs off it, and what would be lost if the line were behind
the block. -/
theorem breaks_block (h : FailsOn line) (hinside : Balanced inside) (heof : .eof ∉ inside)
    (hmore : Passed more rest) :
    Breaks (line ++ .newline :: .indent :: (inside ++ .dedent :: more)) rest where
  begins := by
    obtain ⟨l, ls, rfl, hl⟩ := h.begins
    exact ⟨l, _, rfl, hl⟩
  stops c hc := by
    rw [List.append_assoc] at hc
    obtain ⟨left, hleft, hstops⟩ := h.stops c _ hc
    refine ⟨left ++ .newline :: .indent :: (inside ++ .dedent :: more), ?_,
      .block hleft hinside heof hmore⟩
    rwa [List.append_assoc]

end FailsOn

/-! ## Broken lines -/

/-- An error in simple statements is found on their line. -/
theorem Parse.simpleLine_eq_error {c c' : Cursor} {e : SyntaxError}
    (h : Parse.simpleLine c = .error e c') :
    ∃ used, c.ahead = used ++ c'.ahead ∧ .newline ∉ used := by
  have hsimple : Consumes .inline Parse.simple c := consumes_simple c
  have hmoreSimple (n : Nat) (c : Cursor) : Consumes .inline (Parse.moreSimple n) c :=
    consumes_moreSimple n c
  unfold Parse.simpleLine at h
  rcases EStateM.bind_eq_error.1 h with h | ⟨s, c₁, hs, h⟩
  · exact hsimple.fails trivial e c' h
  obtain ⟨used, hused, hnewline⟩ := hsimple.reads s c₁ hs
  change (Parse.moreSimple (c₁.bound + 1) >>= _) c₁ = _ at h
  have hmore : ∃ more, c₁.ahead = more ++ c'.ahead ∧ .newline ∉ more := by
    rcases EStateM.bind_eq_error.1 h with h | ⟨ss, c₂, hss, h⟩
    · exact (hmoreSimple _ c₁).fails trivial e c' h
    · rcases EStateM.bind_eq_error.1 h with h | ⟨_, _, _, h⟩
      · -- The end of the line is missing.
        change (if c₂.sees .newline then Parse.advance else Parse.missing (.token .newline)) c₂ =
          _ at h
        split at h
        · cases h
        · cases h
          exact (hmoreSimple _ c₁).reads ss _ hss
      · cases h
  obtain ⟨more, hmore, hnewline'⟩ := hmore
  refine ⟨used ++ more, by rw [hused, hmore, List.append_assoc], fun hmem => ?_⟩
  exact (List.mem_append.1 hmem).elim hnewline hnewline'

/-- The token starts simple statements, if it starts a line. -/
def Token.Kind.StartsSimple (k : Kind) : Prop :=
  k ∉ [.keyword .if_, .keyword .elif_, .keyword .else_, .keyword .while_, .keyword .for_,
    .keyword .def_, .keyword .class_, .symbol .atSign]

theorem Token.Kind.Inner.begins {k : Kind} (hk : k.Inner) (hsimple : k.StartsSimple) :
    k.Begins := by
  obtain ⟨⟨hindent, hdedent⟩, hnewline, heof⟩ := hk
  unfold StartsSimple at hsimple
  refine ⟨⟨?_, ?_, ?_⟩, ?_, ?_⟩
  all_goals
    cases k <;> simp_all [Kind.alike]

theorem Parse.stmt_eq_simpleLine {c : Cursor} {k : Kind} {ks : List Kind} (hc : c.ahead = k :: ks)
    (hk : k.Inner) (hsimple : k.StartsSimple) : Parse.stmt c = Parse.simpleLine c := by
  have hget (f : Cursor → Parse (List Stmt)) : (MonadState.get >>= f) c = f c c := rfl
  change Parse.stmtWithin (c.bound + 1) c = _
  unfold Parse.stmtWithin
  unfold Token.Kind.StartsSimple at hsimple
  dsimp only
  rw [hget, Cursor.kind_of_ahead hc]
  split
  · simp at hsimple
  · simp at hsimple
  · simp at hsimple
  · simp at hsimple
  · simp at hsimple
  · simp at hsimple
  · exact absurd rfl hk.1.1
  · rfl

/-- Whatever is wrong with simple statements, reading fails on their line. -/
theorem FailsOn.of_simple {k : Kind} {ks : List Kind} (hline : ∀ l ∈ k :: ks, l.Inner)
    (hsimple : k.StartsSimple)
    (hfails : ∀ (c : Cursor) (rest : List Kind), c.ahead = k :: ks ++ .newline :: rest →
      ∃ e c', Parse.stmt c = .error e c') : FailsOn (k :: ks) where
  begins := ⟨k, ks, rfl, (hline k List.mem_cons_self).begins hsimple⟩
  stops c rest hc := by
    obtain ⟨e, c', hstmt⟩ := hfails c rest hc
    have hsimpleLine := Parse.stmt_eq_simpleLine hc (hline k List.mem_cons_self) hsimple ▸ hstmt
    obtain ⟨used, hused, hnewline⟩ := Parse.simpleLine_eq_error hsimpleLine
    rw [hc] at hused
    rcases List.append_eq_append_iff.1 hused with ⟨more, rfl, hmore⟩ | ⟨left, hleft, hahead⟩
    · -- All of the line has been read, and its end has not.
      cases more with
      | nil => exact ⟨[], by simp, e, c', hstmt, hmore.symm⟩
      | cons l more =>
        cases hmore
        exact absurd (by simp) hnewline
    · refine ⟨left, fun l hl => hline l ?_, e, c', hstmt, hahead⟩
      rw [hleft]
      exact List.mem_append_right used hl

/-- A word that is kept for later starts no statement. -/
theorem FailsOn.of_reserved (word : String) {ks : List Kind} (hks : ∀ l ∈ ks, l.Inner) :
    FailsOn (.reserved word :: ks) := by
  have hinner : (Kind.reserved word).Inner := ⟨⟨by simp, by simp⟩, by simp, by simp⟩
  have hsimple : (Kind.reserved word).StartsSimple := by simp [Token.Kind.StartsSimple]
  refine .of_simple (List.forall_mem_cons.2 ⟨hinner, hks⟩) hsimple fun c rest hc => ?_
  have hfirst : StopsAt Parse.simple c (.reserved word :: (ks ++ .newline :: rest)) := by
    unfold Parse.simple
    refine .get ?_
    dsimp only
    rw [Cursor.kind_of_ahead hc]
    exact ⟨_, c, rfl, hc⟩
  obtain ⟨e, c', herror, -⟩ := hfirst
  rw [Parse.stmt_eq_simpleLine hc hinner hsimple]
  exact ⟨e, c', EStateM.bind_error herror⟩

/-- A header with a test breaks where no colon is behind the test. -/
theorem FailsOn.of_test {kw : Keyword} (hkw : kw = .if_ ∨ kw = .while_) {word tail : List Kind}
    {P : Expr → Prop} (hword : ReadsWhole word P) (htail : ∀ l ∈ tail, l.Inner)
    (hends : (Token.next tail).Ends) (hcolon : (Token.next tail).alike (.symbol .colon) = false) :
    FailsOn (.keyword kw :: (word ++ tail)) where
  begins := by
    refine ⟨_, _, rfl, ?_⟩
    rcases hkw with rfl | rfl
    · exact ⟨⟨rfl, rfl, rfl⟩, rfl, rfl⟩
    · exact ⟨⟨rfl, rfl, rfl⟩, rfl, rfl⟩
  stops c rest hc := by
    obtain ⟨ls, hls⟩ : ∃ ls, tail ++ .newline :: rest = Token.next tail :: ls := by
      cases tail with
      | nil => exact ⟨rest, rfl⟩
      | cons k tail => exact ⟨tail ++ .newline :: rest, rfl⟩
    refine ⟨tail, htail, ?_⟩
    rw [List.cons_append, List.append_assoc, hls] at hc
    rw [hls]
    -- Behind the word the test is read, and then the block is missed.
    have htest {α : Type} {c' : Cursor} (hc' : c'.ahead = word ++ Token.next tail :: ls)
        (sub : Parse (List Stmt)) (f : Expr → List Stmt → Parse α) :
        StopsAt (do f (← Parse.expr) (← Parse.block sub)) c' (Token.next tail :: ls) := by
      refine .behind (.expr hword hends hc') fun test c'' _ hc'' => .first ?_
      unfold Parse.block
      exact .first (.expect hc'' hcolon)
    unfold Parse.stmt
    refine .rounds fun depth hdepth => ?_
    obtain ⟨depth, rfl⟩ : ∃ m, depth = m + 1 := ⟨depth - 1, by omega⟩
    unfold Parse.stmtWithin
    refine .get ?_
    rw [Cursor.kind_of_ahead hc]
    rcases hkw with rfl | rfl
    · refine .rounds fun n hn => .first ?_
      obtain ⟨n, rfl⟩ : ∃ m, n = m + 1 := ⟨n - 1, by omega⟩
      unfold Parse.choice
      exact .here fun start => .advance hc (by simp) fun c' hc' => htest hc' _ _
    · refine .first ?_
      unfold Parse.whileLoop
      exact .here fun start => .behind (.expected hc rfl (by simp)) fun _ c' _ hc' => htest hc' _ _

section

variable {before after : List (List Kind)} {Ps Qs : List (Stmt → Prop)} {broken : List Kind}

/-- What a broken statement takes with it is all that is lost: with one error, what stands in front
of it and what stands behind it is read. -/
theorem Parsed.ofTokens_recovers (hbefore : List.Forall₂ ReadsStmt before Ps)
    (hbroken : Breaks broken (after.flatten ++ [.eof])) (hafter : List.Forall₂ ReadsStmt after Qs)
    {tokens : List Token} (hlast : ∀ t, tokens.getLast? = some t → t.kind = .eof)
    (htokens : tokens.map Token.kind = before.flatten ++ (broken ++ (after.flatten ++ [.eof]))) :
    ∃ first second e, Parsed.ofTokens tokens = ⟨first ++ second, [e]⟩ ∧
      List.Forall₂ (fun P s => P s) Ps first ∧ List.Forall₂ (fun P s => P s) Qs second := by
  obtain ⟨k, ks, rfl, hk⟩ := hbroken.begins
  have hahead : (Cursor.ofTokens tokens).ahead =
      before.flatten ++ k :: (ks ++ (after.flatten ++ [.eof])) := by
    rw [Cursor.ahead_ofTokens hlast (by rintro rfl; simp at htokens), htokens, List.cons_append]
  obtain ⟨l, ls, hls, hl⟩ :=
    ReadsStmt.follows hbefore hk.toFollows (ks ++ (after.flatten ++ [.eof]))
  -- The rounds suffice: every statement has a token of its own.
  obtain ⟨n, hn, hafter_n⟩ : ∃ n, (Cursor.ofTokens tokens).bound + 1 = before.length + (n + 1) ∧
      after.length < n := by
    have hbound := (Cursor.ofTokens tokens).length_ahead_le
    have hfirst := ReadsStmt.length_le hbefore
    have hsecond := ReadsStmt.length_le hafter
    simp only [hahead, List.length_append, List.length_cons] at hbound
    exact ⟨(Cursor.ofTokens tokens).bound - before.length, by omega, by omega⟩
  obtain ⟨first, c, hc, hPs, heq⟩ :=
    ofCursor_append hbefore (n + 1) errorLimit hk.toFollows hahead
  obtain ⟨passed, ⟨e, c', hstmt, hc'⟩, hpassed⟩ := hbroken.stops c hc
  obtain ⟨m, ms, hms, hm⟩ := ReadsStmt.follows hafter .eof []
  have hm_dedent : m.alike .dedent = false := by
    cases hafter with
    | nil =>
      cases hms
      rfl
    | cons hword _ =>
      obtain ⟨_, _, rfl, hbegins⟩ := hword.begins
      cases hms
      exact hbegins.dedent
  have hon : c'.synchronize.ahead = m :: ms :=
    Cursor.ahead_synchronize (hms ▸ hpassed) hm_dedent (hms ▸ hc')
  obtain ⟨second, hsecond, hQs⟩ :=
    ofCursor_of_stmts hafter (errorLimit - 1) hafter_n (hon.trans hms.symm)
  refine ⟨first, second, e, ?_, hPs, hQs⟩
  have hend : c.atEnd = false := by
    rw [Cursor.atEnd, Cursor.sees_of_ahead hc, hk.eof]
  have hrest : ofCursor (n + 1) errorLimit c = ⟨second, [e]⟩ := by
    rw [ofCursor, hend, if_neg Bool.false_ne_true, EStateM.run, hstmt]
    dsimp only
    rw [if_neg (by decide), Cursor.skipNewlines_of_ahead hon hm.newline, hsecond]
  unfold ofTokens
  dsimp only
  rw [Cursor.skipNewlines_of_ahead (hahead.trans hls) hl.newline, hn, heq, hrest]

end

end StagedScript
