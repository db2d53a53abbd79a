import StagedScript.Proofs.Parsing.Progress
import StagedScript.Proofs.Within

/-!
# Statements with blocks, read in step

Two readers of statements stay in step also where statements nest.  Along the way it is noted where
definitions have been read: each of them from a place at which a line starts.
-/

namespace StagedScript

open Parse
open Token (Kind Closed Settled)

/-! ## Statements within statements -/

namespace Stmt

/-- The statements within have a property, as far as they define functions. -/
def Notes (P : Stmt → Prop) (ss : List Stmt) : Prop :=
  ∀ s ∈ withinAll ss, s.isDefinition = true → P s

variable {P : Stmt → Prop} {ss ts : List Stmt}

theorem Notes.append (hs : Notes P ss) (ht : Notes P ts) : Notes P (ss ++ ts) := by
  intro s h
  rw [withinAll_append, List.mem_append] at h
  exact h.elim (hs s) (ht s)

theorem Notes.nil : Notes P [] := fun _ h => (List.not_mem_nil h).elim

theorem Notes.simple (h : ∀ s ∈ ss, s.isSimple = true) : Notes P ss := by
  induction ss with
  | nil => exact .nil
  | cons s ss ih =>
    obtain ⟨hs, hss⟩ := List.forall_mem_cons.1 h
    intro t ht hdefines
    rw [withinAll, within_of_isSimple hs, List.singleton_append] at ht
    rcases List.mem_cons.1 ht with rfl | ht
    · rw [isDefinition_of_isSimple hs] at hdefines
      cases hdefines
    · exact ih hss t ht hdefines

/-- What is noted of a statement with blocks that defines nothing itself. -/
theorem Notes.block {s : Stmt} (hs : s.within = s :: withinAll ss)
    (hdefines : s.isDefinition = false) (h : Notes P ss) : Notes P [s] := by
  intro t ht htdefines
  rw [withinAll, withinAll, List.append_nil, hs] at ht
  rcases List.mem_cons.1 ht with rfl | ht
  · rw [hdefines] at htdefines
    cases htdefines
  · exact h t ht htdefines

/-- What is noted of the definition of a function. -/
theorem Notes.define {s : Stmt} (hs : s.within = s :: withinAll ss) (hP : P s) (h : Notes P ss) :
    Notes P [s] := by
  intro t ht htdefines
  rw [withinAll, withinAll, List.append_nil, hs] at ht
  rcases List.mem_cons.1 ht with rfl | ht
  · exact hP
  · exact h t ht htdefines

theorem mapSpans_eq {f g : Span → Span}
    (h : List.Forall₂ (fun s t => t.mapSpan g = s.mapSpan f) ss ts) :
    mapSpans g ts = mapSpans f ss := by
  induction h with
  | nil => rfl
  | cons hst _ ih => exact congrArg₂ List.cons hst ih

end Stmt

/-- The statements are alike, and what is noted of those on the left holds. -/
def AlikeAll (π : Places) (P : Stmt → Prop) (ss ts : List Stmt) : Prop :=
  List.Forall₂ (Stmt.Same π) ss ts ∧ Stmt.Notes P ss

/-- The statement is alike, and what is noted of the left one holds. -/
def Alike (π : Places) (P : Stmt → Prop) (s t : Stmt) : Prop := AlikeAll π P [s] [t]

theorem AlikeAll.append {π : Places} {P : Stmt → Prop} {ss ts ss' ts' : List Stmt}
    (h : AlikeAll π P ss ts) (h' : AlikeAll π P ss' ts') : AlikeAll π P (ss ++ ss') (ts ++ ts') :=
  ⟨List.rel_append h.1 h'.1, h.2.append h'.2⟩

theorem AlikeAll.nil {π : Places} {P : Stmt → Prop} : AlikeAll π P [] [] := ⟨.nil, .nil⟩

theorem AlikeAll.mapSpans {π : Places} {P : Stmt → Prop} {ss ts : List Stmt}
    (h : AlikeAll π P ss ts) :
    Stmt.mapSpans (Span.sent π.right) ts = Stmt.mapSpans (Span.sent π.left) ss :=
  Stmt.mapSpans_eq h.1

/-! ## Moving on

Every reader only moves on.  This is a matter of its parts, so instances tell it of all that is read
behind some other part.
-/

namespace Onward

variable {α β : Type}

theorem of_paced {p : Pace} (hp : p ≠ .free) {x : Parse α} (h : ∀ c, Paced p x x c) : Onward x where
  reaches c a d hx := by
    have hreads := (h c).reads a d hx
    cases p with
    | free => exact absurd rfl hp
    | onward => exact hreads
    | ahead => exact hreads.reaches

instance pure {a : α} : Onward (Pure.pure a) := of_paced (by simp) fun _ => .pure

instance bind {x : Parse α} {f : α → Parse β} [hx : Onward x] [hf : ∀ a, Onward (f a)] :
    Onward (x >>= f) where
  reaches _ _ _ h := by
    obtain ⟨a, c', hxa, hfa⟩ := EStateM.bind_eq_ok.1 h
    exact (hx.reaches hxa).trans ((hf a).reaches hfa)

instance ite {p : Prop} [Decidable p] {x y : Parse α} [Onward x] [Onward y] :
    Onward (if p then x else y) := by
  split <;> infer_instance

instance map {x : Parse α} {f : α → β} [Onward x] : Onward (f <$> x) := by
  rw [map_eq_pure_bind]
  infer_instance

instance missing {what : SyntaxError.Expected} : Onward (Parse.missing what : Parse α) :=
  of_paced (p := .onward) (by simp) fun _ => .missing

instance get : Onward (MonadState.get : Parse Cursor) where
  reaches c _ _ h := by
    cases h
    exact .refl c

instance advance : Onward Parse.advance where
  reaches c _ _ h := by
    cases h
    exact c.reaches_advance

instance skipNewlines : Onward (modify Cursor.skipNewlines : Parse Unit) where
  reaches c _ _ h := by
    cases h
    exact c.reaches_skipNewlines

instance sees {k : Kind} : Onward (Parse.sees k) := by
  unfold Parse.sees
  infer_instance

instance here : Onward Parse.here := by
  unfold Parse.here
  infer_instance

instance rounds : Onward Parse.rounds := by
  unfold Parse.rounds
  infer_instance

instance blockSpanFrom {start : Nat} : Onward (Parse.blockSpanFrom start) := by
  unfold Parse.blockSpanFrom
  infer_instance

instance accept {k : Kind} : Onward (Parse.accept k) := by
  unfold Parse.accept
  infer_instance

instance expect {k : Kind} : Onward (Parse.expect k) := by
  unfold Parse.expect
  infer_instance

instance name : Onward Parse.name := of_paced (by simp) fun _ => .named

instance expr : Onward Parse.expr := of_paced (by simp) paced_expr

instance exprs : Onward Parse.exprs := of_paced (by simp) paced_exprs

instance simpleLine : Onward Parse.simpleLine := of_paced (by simp) paced_simpleLine

instance loopTarget : Onward Parse.loopTarget := of_paced (by simp) paced_loopTarget

instance checkTarget {e : Expr} : Onward (Parse.checkTarget e) :=
  of_paced (by simp) (paced_checkTarget e)

instance params {n : Nat} {ps : List (Param Expr)} : Onward (Parse.params n ps) :=
  of_paced (by simp) (paced_params n ps)

instance decorators {n : Nat} : Onward (Parse.decorators n) :=
  of_paced (by simp) (paced_decorators n)

instance stmtWithin {depth : Nat} : Onward (Parse.stmtWithin depth) :=
  of_paced (by simp) fun _ => paced_stmtWithin (.inl rfl)

variable {sub : Parse (List Stmt)} [Onward sub]

instance blockBody {n : Nat} : Onward (Parse.blockBody sub n) := by
  induction n with
  | zero => exact pure
  | succ n ih =>
    unfold Parse.blockBody
    infer_instance

set_option synthInstance.maxSize 1000 in
instance block : Onward (Parse.block sub) := by
  unfold Parse.block
  infer_instance

set_option synthInstance.maxSize 1000 in
instance choice {n : Nat} : Onward (Parse.choice sub n) := by
  induction n with
  | zero =>
    refine ⟨fun c a d h => ?_⟩
    cases h
  | succ n ih =>
    unfold Parse.choice
    infer_instance

end Onward

/-! ## Lines of simple statements -/

namespace Ensures

variable {c : Cursor}

theorem isSimple_exprStmt (start : Nat) :
    Ensures (exprStmt start) c fun s _ => s.isSimple = true := by
  unfold exprStmt
  refine .last fun first c' => .last fun b c' => ?_
  split
  · exact .last fun _ _ => .last fun _ _ => .last fun _ _ => .last fun _ _ => .pure rfl
  · refine .last fun k c' => ?_
    split
    · refine .last fun _ c' => ?_
      split
      · exact .last fun _ _ => .last fun _ _ => .last fun _ _ => .pure rfl
      · exact .last fun _ _ => .last fun _ _ => .pure rfl
    · exact .last fun _ _ => .pure rfl

theorem isSimple_simple : Ensures simple c fun s _ => s.isSimple = true := by
  unfold simple
  refine .get ?_
  dsimp only
  split
  · exact .last fun _ _ => .last fun _ _ => .pure rfl
  · exact .last fun _ _ => .last fun _ _ => .pure rfl
  · exact .last fun _ _ => .last fun _ _ => .pure rfl
  · refine .last fun _ c' => .get ?_
    split
    · exact .last fun _ _ => .pure rfl
    · exact .last fun _ _ => .last fun _ _ => .pure rfl
  · exact .failAt
  · exact isSimple_exprStmt _

theorem isSimple_moreSimple (n : Nat) :
    Ensures (moreSimple n) c fun ss _ => ∀ s ∈ ss, s.isSimple = true := by
  induction n generalizing c with
  | zero => exact .pure (by simp)
  | succ n ih =>
    unfold moreSimple
    refine .last fun b c' => ?_
    split
    · refine .last fun b c' => ?_
      split
      · exact .pure (by simp)
      · refine isSimple_simple.bind fun s c' hs => ih.bind fun ss c' hss => .pure ?_
        exact List.forall_mem_cons.2 ⟨hs, hss⟩
    · exact .pure (by simp)

theorem isSimple_simpleLine : Ensures simpleLine c fun ss _ => ∀ s ∈ ss, s.isSimple = true := by
  unfold simpleLine
  refine isSimple_simple.bind fun s c' hs => .last fun n c' => ?_
  refine (isSimple_moreSimple n).bind fun ss c' hss => .last fun _ c' => .pure ?_
  exact List.forall_mem_cons.2 ⟨hs, hss⟩

/-- A simple statement starts with a token of the text, if it is read at all. -/
theorem starts_simple : Ensures simple c fun _ _ =>
    c.kind ≠ .indent ∧ c.kind ≠ .dedent ∧ c.kind ≠ .eof := by
  have hexprs (start : Nat) : Ensures (exprStmt start) c fun _ _ => startsExpr c.kind = true := by
    unfold exprStmt
    exact startsExpr_exprs.first
  unfold simple
  refine .get ?_
  dsimp only
  split
  case h_6 =>
    refine (hexprs _).mono fun _ _ h => ⟨?_, ?_, ?_⟩
    all_goals
      intro hk
      rw [hk] at h
      cases h
  all_goals
    next hk => exact fun _ _ _ => by simp [hk]

end Ensures

namespace Cursor.Twin

variable {π : Places} {φ : Fence} {c d : Cursor}

/-- Where the next token is of the text or ends a line, the cursor is on a line. -/
theorem line_of_kind (h : c.Twin π φ d) (hindent : c.kind ≠ .indent) (hdedent : c.kind ≠ .dedent)
    (heof : c.kind ≠ .eof) : ∃ ks, c.Line ks := by
  have hahead := ahead_advance_of_kind rfl heof
  by_cases hnewline : c.kind = .newline
  · rw [hnewline] at hahead
    exact ⟨[], by simp, _, hahead⟩
  · obtain ⟨ls, hls⟩ := h.line hahead ⟨⟨hindent, hdedent⟩, hnewline, heof⟩
    exact ⟨_, hls⟩

end Cursor.Twin

variable {π : Places} {φ : Cursor.Fence} {P : Stmt → Prop} {c d : Cursor}

/-- A line of simple statements is read alike if it is in front of the fence, even just in front of
it. -/
theorem simpleLine_beside (h : c.Twin π φ d) {ss : List Stmt} {c' : Cursor}
    (hss : simpleLine c = .ok ss c') :
    ∃ ts d' used, simpleLine d = .ok ts d' ∧ AlikeAll π P ss ts ∧ c'.Beside π φ d' ∧
    c.Moved used c' ∧
      Token.Counts 0 used 0 ∧ Closed used := by
  obtain ⟨s, c₁, hs, -⟩ := EStateM.bind_eq_ok.1 hss
  obtain ⟨hindent, hdedent, heof⟩ := Ensures.starts_simple s c₁ hs
  obtain ⟨ks, hks, rest, hahead⟩ := h.line_of_kind hindent hdedent heof
  obtain ⟨rest, rest', hline, hlength⟩ := h.onLine ⟨hks, rest, hahead⟩
  obtain ⟨ts, d', hts, hsame, hcounts, hc', hd'⟩ := simpleLine_alike hline hss
  have hcounts' : Token.Counts 0 (ks ++ [.newline]) 0 := hcounts.append (.cons rfl (.nil 0))
  refine ⟨ts, d', ks ++ [.newline], hts,
    ⟨hsame, .simple (Ensures.isSimple_simpleLine ss c' hss)⟩, ?_,
    ⟨?_, by rw [hc', List.length_append]; rfl⟩, hcounts', ks, .newline, rfl, rfl⟩
  · rw [hc', hd']
    exact h.toBeside.after (by omega)
  · -- The cursor is left behind the end of the line.
    have hrest : c'.ahead = rest := by
      have hself : OnLine .nowhere ks rest rest c c := .nowhere hks hline.left hline.left
      rw [hc']
      exact hself.ahead_after
    rw [hrest, hline.left, List.append_assoc]
    rfl

theorem tandem_simpleLine (h : c.Twin π φ d) :
    Tandem π φ 0 c d simpleLine simpleLine (AlikeAll π P) Closed 0 := by
  intro ss c' hss hinside
  obtain ⟨ts, d', used, hts, hsame, hbeside, hrest⟩ := simpleLine_beside h hss
  exact ⟨ts, d', used, hts, hsame, ⟨hbeside, hinside⟩, hrest⟩

theorem tandem_skipNewlines (h : c.Twin π φ d) :
    Tandem π φ 0 c d (modify Cursor.skipNewlines) (modify Cursor.skipNewlines) (fun _ _ => True)
      Settled 0 := by
  have hskip {i j : Nat} (hi : c.rest.length ≤ i + φ.left.length)
      (hj : c.rest.length ≤ j + φ.left.length) (hinside : φ.Inside (c.skipNewlinesFrom i)) :
      ∃ used, (c.skipNewlinesFrom i).Twin π φ (d.skipNewlinesFrom j) ∧
        c.Moved used (c.skipNewlinesFrom i) ∧ Token.Counts 0 used 0 ∧ Settled used := by
    induction i generalizing c d j with
    | zero =>
      have hnil : c.rest = [] := by
        rcases h.inside with hlength | rfl
        · omega
        · exact List.length_eq_zero_iff.1 (Nat.le_zero.1 hi)
      have hkind : d.sees .newline = false := by
        rw [h.sees, Cursor.sees, Cursor.kind, Cursor.token, hnil]
        rfl
      have hd : d.skipNewlinesFrom j = d := by
        cases j with
        | zero => rfl
        | succ j => rw [Cursor.skipNewlinesFrom, hkind, if_neg Bool.false_ne_true]
      rw [hd]
      exact ⟨[], h, .refl c, .nil 0, by simp [Settled]⟩
    | succ i ih =>
      cases hsees : c.sees .newline with
      | false =>
        have hstays {c : Cursor} (n : Nat) (hc : c.sees .newline = false) :
            c.skipNewlinesFrom n = c := by
          cases n with
          | zero => rfl
          | succ n => rw [Cursor.skipNewlinesFrom, hc, if_neg Bool.false_ne_true]
        rw [hstays _ hsees, hstays _ (by rw [h.sees, hsees])]
        exact ⟨[], h, .refl c, .nil 0, by simp [Settled]⟩
      | true =>
        have hkind := Cursor.kind_of_sees (k := .newline) trivial hsees
        have hmoved := Cursor.Moved.advance (Cursor.ahead_advance_of_kind hkind (by simp)) (by simp)
        have hlength := hmoved.length_le
        rw [List.length_singleton] at hlength
        rw [Cursor.skipNewlinesFrom, hsees, if_pos rfl] at hinside
        have htwin := h.advance (hinside.of_reaches (c.advance.reaches_skipNewlinesFrom i))
        obtain ⟨j, rfl⟩ : ∃ m, j = m + 1 := ⟨j - 1, by have := htwin.length_le; omega⟩
        obtain ⟨used, htwin, hmoved', hcounts, hused⟩ :=
          ih htwin (j := j) (by omega) (by omega) hinside
        rw [Cursor.skipNewlinesFrom, Cursor.skipNewlinesFrom, h.sees, hsees, if_pos rfl, if_pos rfl]
        refine ⟨.newline :: used, htwin, hmoved.trans hmoved', .cons rfl hcounts, ?_⟩
        exact Settled.append (show Settled [Kind.newline] by simp [Settled, Kind.isLayout]) hused
  rintro _ _ ⟨⟩ hinside
  have hc := c.length_rest_le
  have hd := h.length_lt.2
  obtain ⟨used, htwin, hmoved, hcounts, hused⟩ :=
    hskip (i := c.bound) (j := d.bound) (by omega) (by omega) hinside
  exact ⟨(), d.skipNewlines, used, rfl, trivial, htwin, hmoved, hcounts, hused⟩

/-! ## Blocks -/

section

variable {c₀ : Cursor} {bound : Nat} {sub sub' : Parse (List Stmt)} [Onward sub]
  (hsub : ∀ c d : Cursor, c.Twin π φ d → c₀.StartsLine c → c.rest.length < bound →
    Tandem π φ 0 c d sub sub' (AlikeAll π P) Closed 0)
include hsub

theorem tandem_blockBody {i j : Nat} (h : c.Twin π φ d) (hstart : c₀.StartsLine c)
    (hi : c.rest.length < i + φ.left.length) (hj : c.rest.length < j + φ.left.length)
    (hbound : c.rest.length < bound) :
    Tandem π φ 0 c d (blockBody sub i) (blockBody sub' j) (AlikeAll π P) Settled 0 := by
  induction i generalizing c d j with
  | zero => exact absurd hi (by have := h.length_le; omega)
  | succ i ih =>
    obtain ⟨j, rfl⟩ : ∃ m, j = m + 1 := ⟨j - 1, by have := h.length_le; omega⟩
    unfold blockBody
    refine .get ?_
    rw [Cursor.atEnd, Cursor.atEnd, h.sees, h.sees]
    split
    · exact .pure h .nil
    · refine (hsub c d h hstart hbound).bind (G := Settled)
        (fun ss ts c' d' used hss htwin hmoved hused => ?_) fun _ _ hu hv => hu.settled.append hv
      refine (tandem_skipNewlines htwin).bind (G := Settled)
        (fun _ _ c'' d'' used' _ htwin' hmoved' hused' => ?_) fun _ _ => Settled.append
      have hlength := hmoved.length_le
      have hlength' := hmoved'.length_le
      have hpos := List.length_pos_of_ne_nil hused.ne_nil
      refine (ih htwin' ((hstart.moved hmoved hused.settled).moved hmoved' hused') (by omega)
        (by omega) (by omega)).bind (G := Settled)
        (fun _ _ _ _ _ hmore htwin'' _ _ => .pure htwin'' (hss.append hmore)) fun _ _ =>
        Settled.append

omit hsub in
theorem precedes_of_block {b : List Stmt} {c' : Cursor} (h : block sub c = .ok b c') :
    c.Precedes c' := by
  unfold block at h
  obtain ⟨_, _, hcolon, h⟩ := EStateM.bind_eq_ok.1 h
  obtain ⟨hkind, rfl⟩ := expect_eq_ok (k := .symbol .colon) trivial hcolon
  exact (Cursor.precedes_advance (by rw [hkind]; simp)).trans_reaches (Onward.reaches h)

/-- Reads the lines of a block that is indented. -/
def Parse.indented (sub : Parse (List Stmt)) : Parse (List Stmt) := do
  if ← accept .indent then
    let body ← blockBody sub (← rounds)
    expect .dedent
    return body
  else missing .block

omit hsub in
theorem precedes_of_indented {b : List Stmt} {c' : Cursor} (h : indented sub c = .ok b c') :
    c.Precedes c' := by
  unfold indented at h
  obtain ⟨_, _, hindent, h⟩ := EStateM.bind_eq_ok.1 h
  rcases accept_eq_ok (k := .indent) trivial hindent with ⟨rfl, hkind, rfl⟩ | ⟨rfl, -⟩
  · exact (Cursor.precedes_advance (by rw [hkind]; simp)).trans_reaches (Onward.reaches h)
  · cases h

/-- The lines of a block are read alike if they are in front of the fence, even just in front of
it. -/
theorem indented_beside (h : c.Twin π φ d) (hplace : c₀.Reaches c) (hbound : c.rest.length ≤ bound)
    {b : List Stmt} {c' : Cursor} (hb : indented sub c = .ok b c')
    (hend : φ.left.length ≤ c'.rest.length) :
    ∃ b' d' used, indented sub' d = .ok b' d' ∧ AlikeAll π P b b' ∧ c'.Beside π φ d' ∧
    c.Moved used c' ∧
      Token.Counts 0 used 0 ∧ Closed used := by
  unfold indented at hb ⊢
  rw [EStateM.bind_ok (accept_eq ..)] at hb ⊢
  cases hindent : c.sees .indent with
  | false =>
    rw [hindent] at hb
    cases hb
  | true =>
    have hmoved := Cursor.Moved.advance
      (Cursor.ahead_advance_of_kind (Cursor.kind_of_sees (k := .indent) trivial hindent) (by simp))
      (by simp)
    rw [hindent, if_pos rfl, if_pos rfl] at hb
    obtain ⟨_, _, hrounds, hb⟩ := EStateM.bind_eq_ok.1 hb
    cases hrounds
    obtain ⟨b, c₁, hbody, hb⟩ := EStateM.bind_eq_ok.1 hb
    obtain ⟨_, _, hdedent, hb⟩ := EStateM.bind_eq_ok.1 hb
    cases hb
    obtain ⟨hkind₁, rfl⟩ := expect_eq_ok (k := .dedent) trivial hdedent
    have hmoved₁ := Cursor.Moved.advance (Cursor.ahead_advance_of_kind hkind₁ (by simp)) (by simp)
    -- The end of the block is in front of the fence, and so is all in front of it.
    have hinside₁ : φ.Inside c₁ := by
      have hlength := hmoved₁.length_le
      rw [List.length_singleton] at hlength
      exact .inl (by omega)
    have htwin := h.advance (hinside₁.of_reaches (Onward.reaches hbody))
    have hplace' : c₀.StartsLine c.advance := hplace.startsLine hmoved ⟨[], .indent, rfl, rfl⟩
    have hlength := hmoved.length_le
    rw [List.length_singleton] at hlength
    obtain ⟨b', d₁, used, hb', hsame, htwin₁, hmoved', hcounts, hused⟩ :=
      tandem_blockBody hsub htwin hplace' htwin.length_lt.1 htwin.length_lt.2 (by omega)
      hbody hinside₁
    refine ⟨b', d₁.advance, _, ?_, hsame, htwin₁.toBeside.advance hinside₁,
      hmoved.trans (hmoved'.trans hmoved₁), .cons rfl (hcounts.append (.cons rfl (.nil 0))),
      Closed.behind (Closed.behind ⟨[], .dedent, rfl, rfl⟩ _) _⟩
    have hrounds : rounds d.advance = .ok (d.advance.bound + 1) _ := rfl
    rw [h.sees, hindent, if_pos rfl, if_pos rfl, EStateM.bind_ok hrounds, EStateM.bind_ok hb',
      EStateM.bind_ok (expect_of_sees (by rw [htwin₁.sees, Cursor.sees, hkind₁]; rfl))]
    rfl

omit [Onward sub] hsub in
theorem Parse.block_eq : block sub =
    (do expect (.symbol .colon); if ← accept .newline then indented sub else simpleLine) := rfl

/-- A block is read alike if it is in front of the fence, even just in front of it. -/
theorem block_beside (h : c.Twin π φ d) (hplace : c₀.Reaches c) (hbound : c.rest.length ≤ bound)
    {b : List Stmt} {c' : Cursor} (hb : block sub c = .ok b c')
    (hend : φ.left.length ≤ c'.rest.length) :
    ∃ b' d' used, block sub' d = .ok b' d' ∧ AlikeAll π P b b' ∧ c'.Beside π φ d' ∧
    c.Moved used c' ∧
      Token.Counts 0 used 0 ∧ Closed used := by
  rw [block_eq] at hb ⊢
  obtain ⟨_, _, hcolon, hb⟩ := EStateM.bind_eq_ok.1 hb
  obtain ⟨hkind, rfl⟩ := expect_eq_ok (k := .symbol .colon) trivial hcolon
  have hmoved := Cursor.Moved.advance (Cursor.ahead_advance_of_kind hkind (by simp)) (by simp)
  rw [EStateM.bind_ok (expect_of_sees (by rw [h.sees, Cursor.sees, hkind]; rfl))]
  rw [EStateM.bind_ok (accept_eq ..)] at hb ⊢
  cases hnewline : c.advance.sees .newline with
  | false =>
    rw [hnewline, if_neg Bool.false_ne_true, if_neg Bool.false_ne_true] at hb
    have hlength := ((paced_simpleLine c.advance).reads _ _ hb).length_lt
    have htwin := h.advance (.inl (by omega))
    obtain ⟨b', d', used, hb', hsame, hbeside, hmoved', hcounts, hused⟩ :=
      simpleLine_beside (P := P) htwin hb
    rw [htwin.sees, hnewline, if_neg Bool.false_ne_true, if_neg Bool.false_ne_true]
    exact ⟨b', d', _, hb', hsame, hbeside, hmoved.trans hmoved', .cons rfl hcounts,
      hused.behind [_]⟩
  | true =>
    have hmoved₁ := Cursor.Moved.advance
      (Cursor.ahead_advance_of_kind (Cursor.kind_of_sees (k := .newline) trivial hnewline)
        (by simp)) (by simp)
    rw [hnewline, if_pos rfl, if_pos rfl] at hb
    have hlength := hmoved.length_le
    have hlength₁ := hmoved₁.length_le
    have hlength₂ := (precedes_of_indented hb).length_lt
    have htwin := h.advance (.inl (by omega))
    have htwin₁ := htwin.advance (.inl (by omega))
    obtain ⟨b', d', used, hb', hsame, hbeside, hmoved', hcounts, hused⟩ :=
      indented_beside hsub htwin₁ (hplace.trans ⟨_, hmoved.trans hmoved₁⟩) (by omega) hb hend
    rw [htwin.sees, hnewline, if_pos rfl, if_pos rfl]
    exact ⟨b', d', _, hb', hsame, hbeside, hmoved.trans (hmoved₁.trans hmoved'),
      .cons rfl (.cons rfl hcounts), Closed.behind (Closed.behind hused _) _⟩

theorem tandem_block (h : c.Twin π φ d) (hplace : c₀.Reaches c) (hbound : c.rest.length ≤ bound) :
    Tandem π φ 0 c d (block sub) (block sub') (AlikeAll π P) Closed 0 := by
  intro b c' hb hinside
  obtain ⟨b', d', used, hb', hsame, hbeside, hrest⟩ := block_beside hsub h hplace hbound hb
    (hinside.length_le)
  exact ⟨b', d', used, hb', hsame, ⟨hbeside, hinside⟩, hrest⟩

end

end StagedScript
