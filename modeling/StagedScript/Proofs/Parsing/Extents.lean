import StagedScript.Proofs.Outline.Basic
import StagedScript.Proofs.Parsing.Progress
import StagedScript.Proofs.Parsing.Sites
import StagedScript.Proofs.Reading.Tiling
import StagedScript.Proofs.Unrolling.Expansion

/-!
# The places of statements

A statement stands between the start of a token and the end of one.  The statements of a block stand
one behind the other, and within the statement that the block belongs to.
-/

namespace StagedScript

open Parse
open Token (Kind)

/-! ## InOrder of statements -/

/-- A span starts where one of the tokens does, and stops further on, where one of them does. -/
structure Token.Extent (ts : List Token) (span : Span) : Prop where
  nonempty : span.start < span.stop
  starts : ∃ t ∈ ts, t.span.start = span.start
  stops : ∃ t ∈ ts, t.span.stop = span.stop

namespace Stmt

/-- The statements stand in a span, each in front of those behind it. -/
structure InOrder (ss : List Stmt) (span : Span) : Prop where
  inside : ∀ s ∈ ss, span.start ≤ s.span.start ∧ s.span.stop ≤ span.stop
  ordered : ss.Pairwise fun s t => s.span.stop ≤ t.span.start

/-- Statements one behind the other between two places.  Each of them takes up some of the tokens,
and so do those of its blocks within it. -/
inductive Row (ts : List Token) : Nat → List Stmt → Nat → Prop
  | nil {start stop : Nat} : start ≤ stop → Row ts start [] stop
  | cons {start stop : Nat} {s : Stmt} {ss : List Stmt} : start ≤ s.span.start →
      Token.Extent ts s.span →
      (∀ b ∈ s.blocks, Row ts s.span.start b s.span.stop) → Row ts s.span.stop ss stop →
      Row ts start (s :: ss) stop

theorem mem_within {s t : Stmt} : t ∈ s.within ↔ t = s ∨ ∃ b ∈ s.blocks, t ∈ withinAll b := by
  cases s <;> simp [within, blocks]

theorem subset_withinAll (ss : List Stmt) : ss ⊆ withinAll ss := by
  induction ss with
  | nil => exact List.Subset.refl _
  | cons s ss ih =>
    refine List.cons_subset.2 ⟨List.mem_append_left _ (mem_within.2 (.inl rfl)), ?_⟩
    exact List.Subset.trans ih (List.subset_append_right _ _)

namespace Row

variable {ts : List Token} {start stop start' stop' mid : Nat} {ss us : List Stmt}

theorem mono (h : Row ts start ss stop) (hstart : start' ≤ start) (hstop : stop ≤ stop') :
    Row ts start' ss stop' := by
  induction h generalizing start' with
  | nil hle => exact .nil (by omega)
  | cons hle hextent hblocks _ _ ih =>
    exact .cons (by omega) hextent hblocks (ih (Nat.le_refl _) hstop)

theorem append (h : Row ts start ss mid) (h' : Row ts mid us stop) :
    Row ts start (ss ++ us) stop := by
  induction h with
  | nil hle => exact h'.mono hle (Nat.le_refl _)
  | cons hle hextent hblocks _ _ ih => exact .cons hle hextent hblocks (ih h')

theorem inOrder (h : Row ts start ss stop) : start ≤ stop ∧ InOrder ss ⟨start, stop⟩ := by
  induction h with
  | nil hle => exact ⟨hle, by simp, .nil⟩
  | @cons start stop s ss hle hextent _ _ _ ih =>
    obtain ⟨hbehind, hinside, hordered⟩ := ih
    have hspan := hextent.nonempty
    refine ⟨by omega, List.forall_mem_cons.2 ⟨⟨hle, hbehind⟩, fun t ht => ?_⟩,
      List.pairwise_cons.2 ⟨fun t ht => (hinside t ht).1, hordered⟩⟩
    have ht := hinside t ht
    exact ⟨by simp only at ht ⊢; omega, ht.2⟩

/-- What is known of the statements of a row is known of those within them. -/
theorem of_mem_withinAll (h : Row ts start ss stop) {s : Stmt} (hs : s ∈ withinAll ss) :
    Token.Extent ts s.span ∧ ∀ b ∈ s.blocks, InOrder b s.span := by
  induction h with
  | nil => cases hs
  | cons _ hextent hblocks _ hwithin ih =>
    rcases List.mem_append.1 hs with hs | hs
    · rcases mem_within.1 hs with rfl | ⟨b, hb, hs⟩
      · exact ⟨hextent, fun b hb => (hblocks b hb).inOrder.2⟩
      · exact hwithin b hb hs
    · exact ih hs

end Row

end Stmt

/-! ## Cursors in a text -/

namespace Cursor

variable {ts : List Token} {c c' d : Cursor}

/-- The tokens with characters of their own that a cursor has ahead. -/
def words (c : Cursor) : List Token := c.rest.filter Layout.isInner

/-- What a cursor has ahead are the last of the tokens, and these are behind all that has been
read. -/
structure Within (ts : List Token) (c : Cursor) : Prop where
  suffix : c.words <:+ ts
  behind : ∀ t ∈ c.words, c.lastWordStop ≤ t.span.start

theorem Reaches.words (h : c.Reaches c') : ∃ us, c.words = us ++ c'.words ∧
    c'.lastWordStop = (us.getLast?.map (·.span.stop)).getD c.lastWordStop := by
  obtain ⟨used, hmoved⟩ := h
  obtain ⟨us, hrest, -, hstop⟩ := hmoved.rest
  exact ⟨us.filter Layout.isInner, by rw [Cursor.words, hrest, List.filter_append]; rfl, hstop⟩

section

variable (hts : Token.Spaced ts)
include hts

theorem Within.of_reaches (hc : c.Within ts) (h : c.Reaches c') :
    c'.Within ts ∧ c.lastWordStop ≤ c'.lastWordStop := by
  obtain ⟨us, hwords, hstop⟩ := h.words
  have hspaced : Token.Spaced (us ++ c'.words) := hwords ▸ hts.sublist hc.suffix.sublist
  refine ⟨⟨(hwords ▸ List.suffix_append us c'.words).trans hc.suffix, fun t ht => ?_⟩, ?_⟩
  all_goals
    rw [hstop]
    cases hlast : us.getLast? with
    | none => ?_
    | some u => ?_
  · exact hc.behind t (hwords ▸ List.mem_append_right _ ht)
  · exact (List.pairwise_append.1 hspaced.ordered).2.2 u (List.mem_of_getLast? hlast) t ht
  · exact Nat.le_refl _
  · have hu := List.mem_append_left c'.words (List.mem_of_getLast? hlast)
    have hbehind := hc.behind u (hwords ▸ hu)
    have hpos := hspaced.nonempty u hu
    simp only [Option.map_some, Option.getD_some]
    omega

/-- From a word on, what is read takes up tokens. -/
theorem Within.extent (hc : c.Within ts) (hk : c.kind.Inner) (h : c.Precedes c') :
    c.lastWordStop ≤ c.token.span.start ∧
    Token.Extent ts ⟨c.token.span.start, c'.lastWordStop⟩ := by
  obtain ⟨k, used, hmoved⟩ := h
  obtain ⟨us, hrest, hkinds, hstop⟩ := hmoved.rest
  obtain ⟨t, us, rfl, -, -⟩ := List.map_eq_cons_iff.1 hkinds
  have htoken : c.token = t := by
    unfold Cursor.token
    rw [hrest]
    rfl
  have ht : Layout.isInner t = true := Layout.isInner_of_inner (htoken ▸ hk)
  have hwords : c.words = t :: (us.filter Layout.isInner ++ c'.words) := by
    rw [words, hrest, List.cons_append, List.filter_cons_of_pos ht, List.filter_append]
    rfl
  have hspaced : Token.Spaced (t :: (us.filter Layout.isInner ++ c'.words)) :=
    hwords ▸ hts.sublist hc.suffix.sublist
  have hmem (u : Token) (hu : u ∈ t :: us.filter Layout.isInner) : u ∈ ts ∧
      t.span.start < u.span.stop := by
    have hu : u ∈ t :: (us.filter Layout.isInner ++ c'.words) := by
      rw [← List.cons_append]
      exact List.mem_append_left _ hu
    refine ⟨hc.suffix.subset (hwords ▸ hu), ?_⟩
    have hpos := hspaced.nonempty t List.mem_cons_self
    rcases List.mem_cons.1 hu with rfl | hlater
    · exact hpos
    · have hle := (List.pairwise_cons.1 hspaced.ordered).1 u hlater
      have hlt := hspaced.nonempty u hu
      omega
  -- The last word that is read is the first one or behind it.
  have hlast : ∃ u ∈ t :: us.filter Layout.isInner, c'.lastWordStop = u.span.stop := by
    rw [Token.wordStop, List.filter_cons_of_pos ht, List.getLast?_eq_some_getLast (by simp)]
      at hstop
    exact ⟨_, List.getLast_mem _, hstop⟩
  obtain ⟨u, hu, hstop⟩ := hlast
  rw [htoken, hstop]
  exact ⟨hc.behind t (by rw [hwords]; simp), (hmem u hu).2, ⟨t, (hmem t (by simp)).1, rfl⟩, u,
    (hmem u hu).1, rfl⟩

end

end Cursor

/-! ## What is read between two cursors -/

namespace Ensures

variable {α β : Type} {Q : β → Cursor → Prop} {c : Cursor}

/-- Of the first step it is only asked how far it goes. -/
theorem paced {p : Pace} {x y : Parse α} {f : α → Parse β} (hx : Paced p x y c)
    (hf : ∀ a d, p.Reads c d → Ensures (f a) d Q) : Ensures (x >>= f) c Q := bind hx.reads hf

theorem atHere {f : Span → Parse β} (hf : Ensures (f c.token.span) c Q) :
    Ensures (Parse.here >>= f) c Q := hf

theorem sees {f : Bool → Parse β} {k : Kind} (hyes : c.sees k = true → Ensures (f true) c Q)
    (hno : Ensures (f false) c Q) : Ensures (Parse.sees k >>= f) c Q := by
  change Ensures (f (c.sees k)) c Q
  cases hk : c.sees k with
  | true => exact hyes hk
  | false => exact hno

theorem accept {f : Bool → Parse β} {k : Kind} (hk : k ≠ .eof)
    (hyes : c.Precedes c.advance → Ensures (f true) c.advance Q) (hno : Ensures (f false) c Q) :
    Ensures (Parse.accept k >>= f) c Q := by
  intro b c' h
  obtain ⟨a, d, ha, hb⟩ := EStateM.bind_eq_ok.1 h
  have haccept : Parse.accept k c = if c.sees k = true then .ok true c.advance
      else .ok false c := by
    change (if c.sees k = true then _ else _ : Parse Bool) c = _
    cases c.sees k <;> rfl
  rw [haccept] at ha
  split at ha
  · next hs =>
    cases ha
    exact hyes (Cursor.precedes_advance (Cursor.kind_ne_eof_of_sees hs hk)) b c' hb
  · cases ha
    exact hno b c' hb

theorem skipNewlines {f : Unit → Parse β} (hf : Ensures (f ()) c.skipNewlines Q) :
    Ensures (modify Cursor.skipNewlines >>= f) c Q := hf

end Ensures

/-- The statement is read from the one cursor to the other.  It reaches from the first token to the
end of the last word, and its blocks stand within it. -/
structure Stmt.Taken (ts : List Token) (c : Cursor) (s : Stmt) (c' : Cursor) : Prop where
  moved : c.Precedes c'
  span : s.span = ⟨c.token.span.start, c'.lastWordStop⟩
  blocks : ∀ b ∈ s.blocks, Row ts c.token.span.start b c'.lastWordStop

/-- The statements are read from the one cursor to the other, as a row. -/
def Stmt.Laid (ts : List Token) (c : Cursor) (ss : List Stmt) (c' : Cursor) : Prop :=
  c.Reaches c' ∧ Row ts c.lastWordStop ss c'.lastWordStop

section

variable {ts : List Token} (hts : Token.Spaced ts) {c c' d : Cursor} {s : Stmt} {ss us : List Stmt}

theorem Stmt.Laid.trans (h : Laid ts c ss d) (h' : Laid ts d us c') : Laid ts c (ss ++ us) c' :=
  ⟨h.1.trans h'.1, h.2.append h'.2⟩

include hts

/-- Tokens are passed. -/
theorem Stmt.Laid.passed (hc : c.Within ts) (h : c.Reaches d) : Laid ts c [] d :=
  ⟨h, .nil (hc.of_reaches hts h).2⟩

theorem Stmt.Taken.laid (h : Taken ts c s c') (hc : c.Within ts) (hk : c.kind.Inner) :
    Laid ts c [s] c' := by
  obtain ⟨hstart, hextent⟩ := hc.extent hts hk h.moved
  obtain ⟨hmoved, hspan, hblocks⟩ := h
  refine ⟨hmoved.reaches, .cons ?_ ?_ ?_ (.nil ?_)⟩
  all_goals rw [hspan]
  · exact hstart
  · exact hextent
  · exact hblocks

/-- A block that is read in a statement stands behind the first token of the statement. -/
theorem Stmt.Laid.block (h : Laid ts d ss c') (hc : c.Within ts) (hk : c.kind.Inner)
    (hd : c.Precedes d) {e : Cursor} (he : c'.Reaches e) :
    Row ts c.token.span.start ss e.lastWordStop := by
  have hd' := (hc.of_reaches hts hd.reaches).1
  have hstart := (hc.extent hts hk hd).2.nonempty
  exact h.2.mono (Nat.le_of_lt hstart) ((hd'.of_reaches hts h.1).1.of_reaches hts he).2

end

/-! ## Simple statements -/

/-- The tokens are none of the layout. -/
def Token.Trait.unmarked : Trait where
  Holds ks := ∀ k ∈ ks, k.isLayout = false
  Word k := k.isLayout = false
  ToError := False
  nil := by simp
  append hks hls := List.forall_mem_append.2 ⟨hks, hls⟩
  word h := by simpa using h
  alike {k l} h hl := by cases k <;> cases l <;> simp_all [Kind.alike, Kind.isLayout]
  common {k} h := by
    obtain ⟨hindent, hdedent, hnewline, -⟩ := h
    cases k <;> first | rfl | exact absurd rfl ‹_›

/-- Where no mark is read, the last token is the last word. -/
theorem Cursor.Moved.lastStop {c c' : Cursor} {ks : List Kind} (h : c.Moved ks c')
    (hks : ∀ k ∈ ks, k.isLayout = false) (hc : ks = [] → c.lastStop = c.lastWordStop) :
    c'.lastStop = c'.lastWordStop := by
  induction ks generalizing c with
  | nil =>
    obtain rfl : c' = c := h.after
    exact hc rfl
  | cons k ks ih =>
    obtain ⟨heof, hadvance⟩ := h.uncons
    obtain ⟨t, us, hrest, rfl, -⟩ := rest_of_ahead h.ahead
    obtain ⟨-, hstop, hword⟩ := advance_of_rest hrest heof
    obtain ⟨hk, hks⟩ := List.forall_mem_cons.1 hks
    refine ih hadvance hks fun _ => ?_
    rw [hstop, hword, hk, if_neg Bool.false_ne_true]

theorem Ensures.span_exprStmt (start : Nat) {c : Cursor} :
    Ensures (exprStmt start) c fun s c' => s.span = ⟨start, c'.lastStop⟩ := by
  unfold exprStmt
  refine .last fun first c' => .sees (fun _ => .last fun _ _ => .last fun _ _ =>
    .last fun _ _ => ?_) (.last fun k c' => ?_)
  · rintro _ _ ⟨⟩
    rfl
  · split
    · refine .last fun _ c' => ?_
      split
      · exact .bind (P := fun _ _ => False) .failAt fun _ _ h => h.elim
      · refine .last fun _ _ => ?_
        rintro _ _ ⟨⟩
        rfl
    · rintro _ _ ⟨⟩
      rfl

theorem Ensures.span_simple {c : Cursor} :
    Ensures simple c fun s c' => s.span = ⟨c.token.span.start, c'.lastStop⟩ := by
  unfold simple
  refine .get ?_
  dsimp only
  split
  case h_4 =>
    refine .last fun _ c' => .get ?_
    split
    · rintro _ _ ⟨⟩
      rfl
    · refine .last fun _ _ => ?_
      rintro _ _ ⟨⟩
      rfl
  case h_5 => exact .failAt
  case h_6 => exact span_exprStmt _
  all_goals
    rintro _ _ ⟨⟩
    rfl

theorem Stmt.blocks_of_isSimple {s : Stmt} (h : s.isSimple = true) : s.blocks = [] := by
  cases s <;> first | rfl | cases h

theorem Ensures.taken_simple (ts : List Token) (c : Cursor) :
    Ensures simple c fun s c' => Stmt.Taken ts c s c' ∧ c.kind.Inner := by
  intro s c' h
  obtain ⟨k, used, hmoved⟩ := (paced_simple c).reads s c' h
  obtain ⟨read, hread, hunmarked⟩ := (consumes_simple (τ := .unmarked) c).reads s c' h
  obtain rfl := List.append_cancel_right (hmoved.ahead.symm.trans hread)
  obtain ⟨hindent, hdedent, heof⟩ := starts_simple s c' h
  have hnewline : c.kind ≠ .newline := fun hk => by
    have hbegins := (begins_simple s c' h).newline
    rw [hk] at hbegins
    cases hbegins
  refine ⟨⟨⟨k, used, hmoved⟩, ?_, ?_⟩, ⟨hindent, hdedent⟩, hnewline, heof⟩
  · rw [span_simple s c' h, hmoved.lastStop hunmarked (by simp)]
  · rw [Stmt.blocks_of_isSimple (isSimple_simple s c' h)]
    exact fun _ hb => (List.not_mem_nil hb).elim

section

variable {ts : List Token} (hts : Token.Spaced ts) {c : Cursor}
include hts

theorem Ensures.laid_moreSimple (n : Nat) (hc : c.Within ts) :
    Ensures (moreSimple n) c fun ss c' => Stmt.Laid ts c ss c' := by
  induction n generalizing c with
  | zero => exact .pure (.passed hts hc (.refl c))
  | succ n ih =>
    have hnone : Stmt.Laid ts c [] c := .passed hts hc (.refl c)
    unfold moreSimple
    refine .accept (by simp) (fun hd => .sees (fun _ => ?_) ?_) (.pure hnone)
    · exact .pure (.passed hts hc hd.reaches)
    · have hdWithin := (hc.of_reaches hts hd.reaches).1
      refine (taken_simple ts _).bind fun s d' htaken => ?_
      obtain ⟨hs, hk⟩ := htaken
      have hpassed := (Stmt.Laid.passed hts hc hd.reaches).trans (hs.laid hts hdWithin hk)
      refine (ih (hc.of_reaches hts hpassed.1).1).bind fun ss c' hss => .pure ?_
      exact hpassed.trans hss

theorem Ensures.laid_simpleLine (hc : c.Within ts) :
    Ensures simpleLine c fun ss c' => Stmt.Laid ts c ss c' := by
  unfold simpleLine
  refine (taken_simple ts _).bind fun s d htaken => .rounds fun n _ => ?_
  obtain ⟨hs, hk⟩ := htaken
  have hs := hs.laid hts hc hk
  have hd := (hc.of_reaches hts hs.1).1
  refine (laid_moreSimple hts n hd).bind fun ss d' hss => ?_
  have hss := hs.trans hss
  refine .paced (Paced.expected (by simp)) fun _ c' hc' => .pure ?_
  have hend := hss.trans (.passed hts (hc.of_reaches hts hss.1).1 (Cursor.Precedes.reaches hc'))
  rwa [List.append_nil] at hend

end

/-! ## Statements with blocks -/

section

variable {ts : List Token} (hts : Token.Spaced ts) {sub : Parse (List Stmt)}
  (hsub : ∀ c : Cursor, c.Within ts → Ensures sub c fun ss c' => Stmt.Laid ts c ss c') {c : Cursor}
include hts hsub

namespace Ensures

theorem laid_blockBody (n : Nat) (hc : c.Within ts) :
    Ensures (blockBody sub n) c fun ss c' => Stmt.Laid ts c ss c' := by
  induction n generalizing c with
  | zero => exact .pure (.passed hts hc (.refl c))
  | succ n ih =>
    unfold blockBody
    refine .get ?_
    split
    · exact .pure (.passed hts hc (.refl c))
    · refine (hsub c hc).bind fun ss d hss => .skipNewlines ?_
      have hd := (hc.of_reaches hts hss.1).1
      have hpassed := hss.trans (.passed hts hd d.reaches_skipNewlines)
      refine (ih (hc.of_reaches hts hpassed.1).1).bind fun us c' hus => .pure ?_
      have hall := hpassed.trans hus
      rwa [List.append_nil] at hall

theorem laid_block (hc : c.Within ts) :
    Ensures (block sub) c fun ss c' => c.Precedes c' ∧ Stmt.Laid ts c ss c' := by
  unfold block
  refine .paced (Paced.expected (by simp)) fun _ d₁ (h₁ : c.Precedes d₁) => ?_
  -- What is read behind the colon is read in the block.
  have hbehind {d e : Cursor} {ss : List Stmt} (hd : c.Precedes d) (h : Stmt.Laid ts d ss e) :
      c.Precedes e ∧ Stmt.Laid ts c ss e :=
    ⟨hd.trans_reaches h.1, (Stmt.Laid.passed hts hc hd.reaches).trans h⟩
  have hwithin {d : Cursor} (hd : c.Precedes d) : d.Within ts := (hc.of_reaches hts hd.reaches).1
  refine .accept (by simp) (fun h₂ => .accept (by simp) (fun h₃ => .rounds fun n _ => ?_) ?_) ?_
  · have h₃ := (h₁.trans h₂).trans h₃
    refine (laid_blockBody hts hsub n (hwithin h₃)).bind fun body d hbody => ?_
    refine .paced (Paced.expected (by simp)) fun _ c' (hc' : d.Precedes c') => .pure (hbehind h₃ ?_)
    have hd := ((hwithin h₃).of_reaches hts hbody.1).1
    have hall := hbody.trans (.passed hts hd hc'.reaches)
    rwa [List.append_nil] at hall
  · rintro _ _ ⟨⟩
  · exact (laid_simpleLine hts (hwithin h₁)).mono fun ss c' hss => hbehind h₁ hss

end Ensures

namespace Ensures

theorem taken_choice (n : Nat) (hc : c.Within ts) (hk : c.kind.Inner) :
    Ensures (choice sub n) c fun s c' => Stmt.Taken ts c s c' := by
  induction n generalizing c with
  | zero => exact .here fun _ => .failAt
  | succ n ih =>
    unfold choice
    refine .atHere (.advance ?_)
    have h₁ := Cursor.precedes_advance hk.2.2
    refine .paced (paced_expr _) fun test d₂ h₂ => ?_
    have h₂ := h₁.trans h₂
    refine (laid_block hts hsub (hc.of_reaches hts h₂.reaches).1).bind fun thenBody d₃ hlaid => ?_
    obtain ⟨h₃, hthen⟩ := hlaid
    have h₃ := h₂.trans h₃
    have hd₃ := (hc.of_reaches hts h₃.reaches).1
    refine .sees (fun helif => ?_) (.accept (by simp) (fun h₄ => ?_) ?_)
    · have hinner : d₃.kind.Inner := by
        rw [Cursor.kind_of_sees (k := .keyword .elif_) trivial helif]
        simp [Kind.Inner, Kind.Flat]
      refine (ih hd₃ hinner).bind fun t c' ht => ?_
      rintro _ _ ⟨⟩
      have helse := ht.laid hts hd₃ hinner
      refine ⟨h₃.trans_reaches helse.1, rfl,
        List.forall_mem_cons.2 ⟨?_, List.forall_mem_singleton.2 ?_⟩⟩
      · exact hthen.block hts hc hk h₂ helse.1
      · exact helse.block hts hc hk h₃ (.refl c')
    · have h₄' := h₃.trans h₄
      refine (laid_block hts hsub (hc.of_reaches hts h₄'.reaches).1).bind
        fun elseBody c' hlaid => ?_
      obtain ⟨h₅, helse⟩ := hlaid
      rintro _ _ ⟨⟩
      refine ⟨h₄'.trans h₅, rfl, List.forall_mem_cons.2 ⟨?_, List.forall_mem_singleton.2 ?_⟩⟩
      · exact hthen.block hts hc hk h₂ (h₄.trans h₅).reaches
      · exact helse.block hts hc hk h₄' (.refl c')
    · rintro _ _ ⟨⟩
      refine ⟨h₃, rfl, List.forall_mem_cons.2 ⟨?_, List.forall_mem_singleton.2 ?_⟩⟩
      · exact hthen.block hts hc hk h₂ (.refl d₃)
      · exact (Stmt.Laid.passed hts hd₃ (.refl d₃)).block hts hc hk h₃ (.refl d₃)

theorem taken_whileLoop (hc : c.Within ts) (hk : c.kind.Inner) :
    Ensures (whileLoop sub) c fun s c' => Stmt.Taken ts c s c' := by
  unfold whileLoop
  refine .atHere (.paced (Paced.expected (by simp)) fun _ d₁ h₁ => ?_)
  refine .paced (paced_expr d₁) fun test d₂ h₂ => ?_
  have h₂ : c.Precedes d₂ := Cursor.Precedes.trans h₁ h₂
  refine (laid_block hts hsub (hc.of_reaches hts h₂.reaches).1).bind fun body c' hlaid => ?_
  obtain ⟨h₃, hbody⟩ := hlaid
  rintro _ _ ⟨⟩
  exact ⟨h₂.trans h₃, rfl, List.forall_mem_singleton.2 (hbody.block hts hc hk h₂ (.refl c'))⟩

theorem taken_forLoop (hc : c.Within ts) (hk : c.kind.Inner) :
    Ensures (forLoop sub) c fun s c' => Stmt.Taken ts c s c' := by
  unfold forLoop
  refine .atHere (.paced (Paced.expected (by simp)) fun _ d₁ (h₁ : c.Precedes d₁) => ?_)
  refine .paced (paced_loopTarget d₁) fun target d₂ (h₂ : d₁.Precedes d₂) => ?_
  refine .paced (paced_checkTarget target d₂) fun _ d₃ (h₃ : d₂.Reaches d₃) => ?_
  refine .paced (Paced.expected (by simp)) fun _ d₄ (h₄ : d₃.Precedes d₄) => ?_
  refine .paced (paced_exprs d₄) fun iter d₅ (h₅ : d₄.Precedes d₅) => ?_
  have h₅ := (((h₁.trans h₂).trans_reaches h₃).trans h₄).trans h₅
  refine (laid_block hts hsub (hc.of_reaches hts h₅.reaches).1).bind fun body d₆ hlaid => ?_
  obtain ⟨h₆, hbody⟩ := hlaid
  have h₆ := h₅.trans h₆
  refine .accept (by simp) (fun h₇ => ?_) ?_
  · have h₇' := h₆.trans h₇
    refine (laid_block hts hsub (hc.of_reaches hts h₇'.reaches).1).bind fun elseBody c' hlaid => ?_
    obtain ⟨h₈, helse⟩ := hlaid
    rintro _ _ ⟨⟩
    refine ⟨h₇'.trans h₈, rfl, List.forall_mem_cons.2 ⟨?_, List.forall_mem_singleton.2 ?_⟩⟩
    · exact hbody.block hts hc hk h₅ (h₇.trans h₈).reaches
    · exact helse.block hts hc hk h₇' (.refl c')
  · rintro _ _ ⟨⟩
    have hd₆ := (hc.of_reaches hts h₆.reaches).1
    refine ⟨h₆, rfl, List.forall_mem_cons.2 ⟨?_, List.forall_mem_singleton.2 ?_⟩⟩
    · exact hbody.block hts hc hk h₅ (.refl d₆)
    · exact (Stmt.Laid.passed hts hd₆ (.refl d₆)).block hts hc hk h₆ (.refl d₆)

theorem taken_definition (hc : c.Within ts) (hk : c.kind.Inner) :
    Ensures (definition sub) c fun s c' => Stmt.Taken ts c s c' := by
  unfold definition
  refine .atHere (.rounds fun n _ =>
    .paced (paced_decorators n c) fun ds d (hd : c.Reaches d) => ?_)
  refine .sees (fun hdef => ?_) (.bind (P := fun _ _ => False) (by rintro _ _ ⟨⟩) fun _ _ h =>
    h.elim)
  have h₁ := Cursor.precedes_advance (Cursor.kind_ne_eof_of_sees hdef (by simp))
  refine .advance (.paced Paced.named fun x d₂ (h₂ : d.advance.Precedes d₂) => ?_)
  refine .paced (Paced.expected (by simp)) fun _ d₃ (h₃ : d₂.Precedes d₃) => .rounds fun n _ => ?_
  refine .paced (paced_params n [] d₃) fun ps d₄ (h₄ : d₃.Reaches d₄) => ?_
  refine .paced (Paced.expected (by simp)) fun _ d₅ (h₅ : d₄.Precedes d₅) => ?_
  have h₅ := hd.trans_precedes ((((h₁.trans h₂).trans h₃).trans_reaches h₄).trans h₅)
  refine (laid_block hts hsub (hc.of_reaches hts h₅.reaches).1).bind fun body c' hlaid => ?_
  obtain ⟨h₆, hbody⟩ := hlaid
  rintro _ _ ⟨⟩
  exact ⟨h₅.trans h₆, rfl, List.forall_mem_singleton.2 (hbody.block hts hc hk h₅ (.refl c'))⟩

theorem taken_classDefinition (hc : c.Within ts) (hk : c.kind.Inner) :
    Ensures (classDefinition sub) c fun s c' => Stmt.Taken ts c s c' := by
  unfold classDefinition
  refine .atHere (.paced (Paced.expected (by simp)) fun _ d₁ (h₁ : c.Precedes d₁) => ?_)
  refine .paced Paced.named fun x d₂ (h₂ : d₁.Precedes d₂) => ?_
  have h₂ := h₁.trans h₂
  have hrest (base : Option Expr) {d : Cursor} (hd : c.Precedes d) : Ensures (do
      let body ← block sub
      return Stmt.class_ (← Parse.blockSpanFrom c.token.span.start) x base body) d
        fun s c' => Stmt.Taken ts c s c' := by
    refine (laid_block hts hsub (hc.of_reaches hts hd.reaches).1).bind fun body c' hlaid => ?_
    obtain ⟨h₃, hbody⟩ := hlaid
    rintro _ _ ⟨⟩
    exact ⟨hd.trans h₃, rfl, List.forall_mem_singleton.2 (hbody.block hts hc hk hd (.refl c'))⟩
  refine .accept (by simp) (fun h₃ => .sees (fun _ => ?_) ?_) (hrest none h₂)
  · refine .bind (P := fun _ d => d = d₂.advance) (by rintro _ _ ⟨⟩; rfl) ?_
    rintro base _ rfl
    refine .paced (Paced.expected (by simp)) fun _ d₄ (h₄ : d₂.advance.Precedes d₄) => ?_
    exact hrest base ((h₂.trans h₃).trans h₄)
  · refine .paced (Paced.map (paced_expr _).onward) fun base d₄ (h₄ : d₂.advance.Reaches d₄) => ?_
    refine .paced (Paced.expected (by simp)) fun _ d₅ (h₅ : d₄.Precedes d₅) => ?_
    exact hrest base (((h₂.trans h₃).trans_reaches h₄).trans h₅)

end Ensures

end

theorem Ensures.laid_stmtWithin {ts : List Token} (hts : Token.Spaced ts) (depth : Nat) {c : Cursor}
    (hc : c.Within ts) : Ensures (stmtWithin depth) c fun ss c' => Stmt.Laid ts c ss c' := by
  induction depth generalizing c with
  | zero => exact .here fun _ => .failAt
  | succ depth ih =>
    have hone {x : Parse Stmt} (hk : c.kind.Inner) (hx : Ensures x c fun s c' =>
        Stmt.Taken ts c s c') : Ensures (do return [← x]) c fun ss c' => Stmt.Laid ts c ss c' :=
      hx.bind fun s c' hs => .pure (hs.laid hts hc hk)
    have hsub (d : Cursor) (hd : d.Within ts) := ih hd
    unfold stmtWithin
    refine .get ?_
    split
    case h_7 => exact .failAt
    case h_8 => exact laid_simpleLine hts hc
    all_goals
      next hk =>
        have hinner : c.kind.Inner := by
          rw [hk]
          simp [Kind.Inner, Kind.Flat]
        first
        | exact .rounds fun n _ => hone hinner (taken_choice hts hsub n hc hinner)
        | exact hone hinner (taken_whileLoop hts hsub hc hinner)
        | exact hone hinner (taken_forLoop hts hsub hc hinner)
        | exact hone hinner (taken_definition hts hsub hc hinner)
        | exact hone hinner (taken_classDefinition hts hsub hc hinner)

/-! ## Whole texts -/

/-- The statements of a text that is read without errors are a row. -/
theorem Parsed.row_of_ofCursor {ts : List Token} (hts : Token.Spaced ts) {n room : Nat} {c : Cursor}
    (hc : c.Within ts) (h : (ofCursor n room c).errors = []) :
    ∃ stop, Stmt.Row ts c.lastWordStop (ofCursor n room c).body stop := by
  induction n generalizing c with
  | zero => exact ⟨_, .nil (Nat.le_refl _)⟩
  | succ n ih =>
    unfold ofCursor at h ⊢
    cases hend : c.atEnd with
    | true => exact ⟨_, .nil (Nat.le_refl _)⟩
    | false =>
      rw [hend, if_neg Bool.false_ne_true] at h
      rw [if_neg Bool.false_ne_true]
      cases hstmt : Parse.stmt.run c with
      | ok ss d =>
        rw [hstmt] at h
        have hss : Stmt.Laid ts c ss d := Ensures.laid_stmtWithin hts _ hc ss d hstmt
        have hd := (hc.of_reaches hts hss.1).1
        have hpassed := hss.trans (.passed hts hd d.reaches_skipNewlines)
        obtain ⟨stop, hrest⟩ := ih (hd.of_reaches hts d.reaches_skipNewlines).1 h
        rw [List.append_nil] at hpassed
        exact ⟨stop, hpassed.2.append hrest⟩
      | error e d =>
        rw [hstmt] at h
        dsimp only at h
        split at h <;> cases h

/-- The tokens of a text without lexical errors stand one behind the other, in the text. -/
theorem Token.spaced_scan {text : List Char} (h : (Token.scan text).2 = []) :
    Token.Spaced (Token.scan text).1 ∧ ∀ t ∈ (Token.scan text).1, t.span.stop ≤
      Text.byteLength text := by
  obtain ⟨ps, tail, rfl, hread, hplace⟩ : ∃ ps tail, text = Piece.text ps ++ tail ∧
      Piece.Read ps tail ∧ (Token.scan text).1 = Piece.place 0 ps :=
    Token.pieces_of_scanFrom (Prod.ext rfl h)
  obtain ⟨htokens, hordered, -⟩ := hread.tile []
  rw [hplace]
  exact ⟨⟨fun t ht => (htokens t ht).2.1, hordered⟩, fun t ht => (htokens t ht).2.2.1⟩

theorem Lexed.rest_ofTokens (text : List Char) :
    (Cursor.ofTokens (Lexed.ofText text).tokens).rest = (Lexed.ofText text).tokens :=
  Cursor.rest_ofTokens (Lexed.kind_getLast? text) (Lexed.tokens_ne_nil text)

/-- The statements of a script stand in order, and so do those of every block, within the statement
that the block belongs to.  Every statement starts where a token of the text does and stops further
on, where one does. -/
theorem Script.statements_nest {text label : String} {script : Script}
    (h : parse text label = .ok script) :
    let tokens := (Token.scan text.toList).1.filter (!·.kind.alike .newline)
    Stmt.InOrder script.body ⟨0, Text.byteLength text.toList⟩ ∧
    ∀ s ∈ Stmt.withinAll script.body, Token.Extent tokens s.span ∧
      s.span.stop ≤ Text.byteLength text.toList ∧ ∀ b ∈ s.blocks, Stmt.InOrder b s.span := by
  intro tokens
  obtain ⟨herrors, hparsed, -⟩ := (parse_eq_ok script).1 h
  have hscan : (Token.scan text.toList).2 = [] := (List.append_eq_nil_iff.1 herrors).1
  obtain ⟨hspaced, hstops⟩ := Token.spaced_scan hscan
  have htokens : Token.Spaced tokens := hspaced.sublist List.filter_sublist
  -- Before anything is read, all words are ahead.
  have hstart : (Cursor.ofTokens (Lexed.ofText text.toList).tokens).Within tokens := by
    have hwords : (Cursor.ofTokens (Lexed.ofText text.toList).tokens).words = tokens := by
      rw [Cursor.words, Lexed.rest_ofTokens, Layout.filter_isInner_ofText]
    exact ⟨hwords ▸ List.suffix_refl _, fun t _ => Nat.zero_le _⟩
  obtain ⟨stop, hrow⟩ : ∃ stop, Stmt.Row tokens 0 script.body stop := by
    have hskip := Cursor.reaches_skipNewlines (Cursor.ofTokens (Lexed.ofText text.toList).tokens)
    obtain ⟨hwithin, hle⟩ := hstart.of_reaches htokens hskip
    obtain ⟨stop, hrow⟩ := Parsed.row_of_ofCursor htokens hwithin (congrArg Parsed.errors hparsed)
    have hbody : Parsed.body (Parsed.ofTokens (Lexed.ofText text.toList).tokens) = script.body :=
      congrArg Parsed.body hparsed
    exact ⟨stop, hbody ▸ hrow.mono hle (Nat.le_refl _)⟩
  have hwithin {s : Stmt} (hs : s ∈ Stmt.withinAll script.body) : Token.Extent tokens s.span ∧
      s.span.stop ≤ Text.byteLength text.toList ∧ ∀ b ∈ s.blocks, Stmt.InOrder b s.span := by
    obtain ⟨hextent, hblocks⟩ := hrow.of_mem_withinAll hs
    obtain ⟨t, ht, hstop⟩ := hextent.stops
    exact ⟨hextent, hstop ▸ hstops t (List.mem_of_mem_filter ht), hblocks⟩
  obtain ⟨-, hinside, hordered⟩ := hrow.inOrder
  exact ⟨⟨fun s hs => ⟨(hinside s hs).1, (hwithin (Stmt.subset_withinAll _ hs)).2.1⟩, hordered⟩,
    fun s hs => hwithin hs⟩

/-- A text in which statements with blocks of all kinds stand in each other. -/
def Script.sampleNested : String :=
  "@d\ndef f(a):\n    if a: x = 1; y = 2;\n    elif b:\n        pass\n    else:\n" ++
  "        for i in a:\n            z = (i,\n  1) # z\n        else: pass\n\n    # end\n" ++
  "class C:\n  while 1:\n\n    'é'\n"

theorem Script.sampleNested_nests : ∃ script, parse sampleNested "sample" = .ok script ∧
    (Stmt.withinAll script.body).map Stmt.span =
    [⟨0, 139⟩, ⟨17, 139⟩, ⟨23, 28⟩, ⟨30, 35⟩, ⟨41, 139⟩, ⟨57, 61⟩,
      ⟨80, 139⟩, ⟨104, 116⟩, ⟨135, 139⟩, ⟨151, 180⟩, ⟨162, 180⟩, ⟨176, 180⟩] ∧
    Stmt.InOrder script.body ⟨0, Text.byteLength sampleNested.toList⟩ ∧
    ∀ s ∈ Stmt.withinAll script.body,
      Token.Extent ((Token.scan sampleNested.toList).1.filter (!·.kind.alike .newline)) s.span ∧
        ∀ b ∈ s.blocks, Stmt.InOrder b s.span := by
  have hspans : (parse sampleNested "sample").toOption.map
      (fun script => (Stmt.withinAll script.body).map Stmt.span) =
      some [⟨0, 139⟩, ⟨17, 139⟩, ⟨23, 28⟩,
        ⟨30, 35⟩, ⟨41, 139⟩, ⟨57, 61⟩, ⟨80, 139⟩, ⟨104, 116⟩, ⟨135, 139⟩, ⟨151, 180⟩, ⟨162, 180⟩,
        ⟨176, 180⟩] := by
    decide +kernel
  cases hparse : parse sampleNested "sample" with
  | error e =>
    rw [hparse] at hspans
    cases hspans
  | ok script =>
    rw [hparse] at hspans
    obtain ⟨hbody, hwithin⟩ := statements_nest hparse
    exact ⟨script, rfl, Option.some.inj hspans, hbody, fun s hs =>
      ⟨(hwithin s hs).1, (hwithin s hs).2.2⟩⟩

end StagedScript
