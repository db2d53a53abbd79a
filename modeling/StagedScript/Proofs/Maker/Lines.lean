import StagedScript.Proofs.Maker.Written
import StagedScript.Proofs.Parsing.Sites
import StagedScript.Proofs.Reading.Margins
import StagedScript.Proofs.Reading.Reread
import StagedScript.Proofs.Reading.Rows

/-!
# The lines of a maker

The definition that is written into a maker is indented anew.  It is read as the same tokens, but
for the texts of its strings, and it ends where it did.
-/

namespace StagedScript

open Token (Kind Counts)

/-! ## Pieces side by side -/

namespace Token.Kind.Akin

variable {k k' : Kind}

theorem eq_of_ne_str (h : k.Akin k') (hk : ∀ text, k ≠ .str text) : k' = k := by
  cases h with
  | refl => rfl
  | str text => exact absurd rfl (hk text)

theorem inner (h : k.Akin k') (hk : k.Inner) : k'.Inner := by
  cases h with
  | refl => exact hk
  | str => simp [Inner, Flat]

theorem counts (h : k.Akin k') {n m : Nat} (hk : k.Counts n m) : k'.Counts n m := by
  cases h with
  | refl => exact hk
  | str => exact hk

theorem isWord (h : k.Akin k') : k'.isWord = k.isWord := by
  cases h <;> rfl

end Token.Kind.Akin

theorem Token.akin_words {ks ls : List Kind} (h : List.Forall₂ Kind.Akin ks ls) :
    List.Forall₂ Kind.Akin (words ks) (words ls) := by
  induction h with
  | nil => exact .nil
  | @cons k l ks ls hkl _ ih =>
    rw [words, words, List.filter_cons, List.filter_cons, hkl.isWord]
    split
    · exact .cons hkl ih
    · exact ih

namespace Reindent.Alongside

variable {ρ : Reindent} {side : Bool} {ps qs : List Piece}

/-- The lines start alike. -/
theorem starts {P Q : List Char → Prop} {fresh : Bool} {n m : Nat} (h : ρ.Alongside side ps qs)
    (hps : Layout.Starts P fresh n ps m) (hside : fresh = true → side = true)
    (hPQ : ∀ gap gap', P gap → ρ.Indents gap gap' → Q gap') : Layout.Starts Q fresh n qs m := by
  induction hps generalizing side qs with
  | nil =>
    cases h
    exact .nil
  | newline hk _ ih =>
    cases h with
    | ends _ hk' h => exact .newline hk' (ih h fun _ => rfl)
    | token hne => exact absurd hk hne
  | token hk hgap hcounts _ ih =>
    cases h with
    | ends hnewline => exact absurd hnewline hk.2.1
    | token _ hakin hindents h =>
      exact .token (hakin.inner hk) (fun hfresh => hPQ _ _ (hgap hfresh) (hindents (hside hfresh)))
        (hakin.counts hcounts) (ih h (by simp))

/-- The tokens are those of the other pieces, but for the texts of strings. -/
theorem kinds (h : ρ.Alongside side ps qs) :
    List.Forall₂ Kind.Akin (ps.map Piece.kind) (qs.map Piece.kind) := by
  induction h with
  | nil => exact .nil
  | ends hp hq _ ih =>
    rw [List.map_cons, List.map_cons, hp, hq]
    exact .cons (.refl _) ih
  | token _ hakin _ _ ih => exact .cons hakin ih

/-- The first token stays a name. -/
theorem named {p : Piece} {name : String} (h : ρ.Alongside side (p :: ps) qs)
    (hp : p.kind = .ident name) : ∃ q more, qs = q :: more ∧ q.kind = .ident name := by
  cases h with
  | ends hnewline =>
    rw [hp] at hnewline
    cases hnewline
  | @token _ _ q _ qs _ hakin =>
    rw [hp] at hakin
    exact ⟨q, qs, rfl, hakin.eq_of_ne_str (by simp)⟩

/-- The last token stays one that ends no line. -/
theorem last (h : ρ.Alongside side ps qs) (hps : ∀ p ∈ ps.getLast?, p.kind ≠ .newline) :
    ∀ q ∈ qs.getLast?, q.kind ≠ .newline := by
  have hrest {p : Piece} {ps : List Piece} (hps : ∀ q ∈ (p :: ps).getLast?, q.kind ≠ .newline) :
      ∀ q ∈ ps.getLast?, q.kind ≠ .newline := by
    intro q hq
    refine hps q ?_
    rw [List.getLast?_cons, hq]
    rfl
  induction h with
  | nil => exact hps
  | @ends _ p q ps qs hp _ h ih =>
    cases h with
    | nil => exact absurd hp (hps p rfl)
    | ends | token => exact fun r hr => ih (hrest hps) r (by rwa [List.getLast?_cons_cons] at hr)
  | @token _ p q ps qs hp hakin _ h ih =>
    cases h with
    | nil =>
      rintro r hr
      cases hr
      exact fun hq => hp (hakin.newline_iff.2 hq)
    | ends | token => exact fun r hr => ih (hrest hps) r (by rwa [List.getLast?_cons_cons] at hr)

end Reindent.Alongside

/-! ## The definition indented anew -/

/-- The lines of a definition that are written with another margin are the same tokens side by side,
if they are any. -/
theorem Inset.reindented {text done margin chars behind newBehind z : List Char} {span : Span}
    {k : Kind} {ps : List Piece} (h : Inset text span done margin k chars ps behind)
    (hnew : ∃ rest, newBehind = '\n' :: rest)
    (hz : z = Text.below 4 (Text.dedent (margin ++ (chars ++ Piece.text ps))) ++ newBehind)
    {start room : Nat} (herrors : (Token.scanFrom start (room + 1) z).2 = []) :
    ∃ (ρ : Reindent) (more chars' : List Char) (qs : List Piece), ρ.new = List.replicate 4 ' ' ∧
      margin = ρ.old ++ more ∧
      z = '\n' :: (List.replicate 4 ' ' ++ more ++ (chars' ++ (Piece.text qs ++ newBehind))) ∧
      Piece.Fits ⟨List.replicate 4 ' ' ++ more, k, chars'⟩ (Piece.text qs ++ newBehind) ∧
      Piece.Fit qs newBehind ∧ ρ.Alongside false ps qs := by
  obtain ⟨c, cs, hchars, hread⟩ := h.opening.token
  have hchars : chars = c :: cs := hchars
  have hread : Lexeme.read c (cs ++ (Piece.text ps ++ behind)) = (.token k, cs.length) := hread
  obtain ⟨ρ, more, y, rfl, rfl, hρ, hmargin, hy, hinside⟩ := Reindent.exists_of_dedent h.blank
    h.stretch.first h.stretch.last h.stops hnew
  rw [← hz] at hy
  rw [hchars] at hinside
  have hinside : ρ.Inside (c :: (cs ++ (Piece.text ps ++ ρ.oldBehind))) y := by simpa using hinside
  have hlength : ρ.oldBehind.length + cs.length ≤
      (cs ++ (Piece.text ps ++ ρ.oldBehind)).length := by
    simp only [List.length_append]
    omega
  have hblank : ∀ d ∈ List.replicate 4 ' ' ++ more, Lexeme.isBlank d = true := by
    intro d hd
    rcases List.mem_append.1 hd with hd | hd
    · rw [List.eq_of_mem_replicate hd]
      rfl
    · exact h.blank d (by rw [hmargin]; exact List.mem_append_right _ hd)
  have hgap : Skips (List.replicate 4 ' ' ++ more) y :=
    .blanks hblank (hinside.without_blank hread hlength)
  -- Without errors the first token is read on the other side as well, and then the tokens behind
  -- it.
  have hskip : (Token.scanFrom (start + 1 + Text.byteLength (List.replicate 4 ' ' ++ more))
      (room + 1) y).2 = [] := by
    rw [hy, ← List.append_assoc, Token.scanFrom_token (show Lexeme.read '\n' _ =
        (.token .newline, 0) from rfl)] at herrors
    rw [← Token.scanFrom_skips hgap]
    exact herrors
  obtain ⟨d, ds, k', n', rfl, hread', hakin, hinside', -⟩ := hinside.token hread hlength
    fun d ds hd => by rw [hd] at hskip; exact Token.fine_of_scanFrom hskip
  obtain rfl := hakin.eq_of_ne_str h.ne_str
  have hinside' := hinside' h.inner.2.1
  rw [List.drop_left] at hinside'
  rw [Token.scanFrom_token hread'] at hskip
  have hfrom : ρ.From false (Piece.text ps ++ ρ.oldBehind) (ds.drop n') := hinside'
  obtain ⟨qs, hqs, hfit, halong⟩ := hfrom.pieces h.fit (by simp) h.last hskip
  have hle := Lexeme.read_le d ds
  rw [hread'] at hle
  have hds : ds = ds.take n' ++ (Piece.text qs ++ ρ.newBehind) := by
    rw [← hqs, List.take_append_drop]
  refine ⟨ρ, more, d :: ds.take n', qs, hρ, hmargin, ?_, ⟨?_, d, ds.take n', rfl, ?_⟩, hfit, halong⟩
  · rw [hy, List.cons_append, ← hds, List.append_assoc]
  · rw [List.cons_append, ← hds]
    exact hgap
  · rw [← hds, hread', List.length_take, Nat.min_eq_left hle]

/-! ## The layout of the lines -/

/-- The line that returns a function from its maker. -/
def Maker.returnLine (name : String) : List Piece :=
  [Piece.word (List.replicate 4 ' ') "return", Piece.word [' '] name]

/-- The lines below the header of a maker: a definition, and the line that returns the function. -/
def Maker.lines (gap chars : List Char) (qs : List Piece) (name : String) : List Piece :=
  Piece.newline [] :: ⟨gap, .keyword .def_, chars⟩ ::
  (qs ++ ([Piece.newline []] ++ returnLine name))

namespace Layout

/-- The last line of a maker closes the blocks that are open further in than it. -/
theorem through_returnLine {y : List Nat} {w : Nat} {fresh : Bool} {name : String}
    (hs : State.Nested ⟨y ++ [w], 0, fresh⟩) (hw : 4 ≤ w) (hname : Word.isName name = true)
    {start : Nat}
    (herrors :
      (through start ⟨y ++ [w], 0, fresh⟩ ([Piece.newline []] ++ Maker.returnLine name)).errors =
      []) :
    w = 4 ∧ Arranges ⟨y ++ [w], 0, fresh⟩ ([Piece.newline []] ++ Maker.returnLine name)
      ((if fresh then [] else [.newline]) ++ (List.replicate y.length .dedent ++
        [.keyword .return_, .ident name])) ⟨[4], 0, false⟩ := by
  have hindent : indentation (List.replicate 4 ' ') = 4 := by decide
  have hend : Arranges ⟨y ++ [w], 0, fresh⟩ [Piece.newline []] (if fresh then [] else [.newline])
      ⟨y ++ [w], 0, true⟩ := by
    cases fresh with
    | true => exact .blank rfl (.inr rfl)
    | false => exact .line rfl rfl rfl
  have hnested : State.Nested ⟨y ++ [w], 0, true⟩ := hs
  have hw' : w = 4 := by
    rw [through_append] at herrors
    dsimp only at herrors
    obtain ⟨-, herrors⟩ := List.append_eq_nil_iff.1 herrors
    rw [hend.state, Maker.returnLine, through] at herrors
    obtain ⟨hreturn, -⟩ := List.append_eq_nil_iff.1 herrors
    obtain ⟨hw', -⟩ := step_outermost (p := Piece.word (List.replicate 4 ' ') "return") hnested rfl
      (Inside.kind_word "return").1 (by decide) hw hreturn
    exact hw'.symm
  subst hw'
  have hline : Arranges ⟨[4], 0, false⟩ (Maker.returnLine name)
      [.keyword .return_, .ident name] ⟨[4], 0, false⟩ := by
    have hwords := (Inside.word (n := 0) (List.replicate 4 ' ') "return").append (.word [' '] name)
        [4]
    have hkinds : [Word.kind "return"] ++ [Word.kind name] = [.keyword .return_, .ident name] := by
      rw [Word.kind_of_isName hname]
      rfl
    exact hkinds ▸ hwords
  refine ⟨rfl, hend.append (.leads (Inside.kind_word "return").1 ?_ hline)⟩
  have hdedents : List.replicate y.length Kind.dedent = y.map fun _ => .dedent :=
    (List.map_const' ..).symm
  rw [hdedents]
  have hopen (level : Nat) (hlevel : level ∈ y) : [4].headD 0 < level := lt_of_nested hnested hlevel
  exact Leads.back hopen rfl

/-- Behind the header of a maker a block is opened. -/
theorem through_opening {gap : List Char} (hgap : 0 < indentation gap) (chars : List Char)
    (ps : List Piece) (start : Nat) :
    through start ⟨[], 0, false⟩ (Piece.newline [] :: ⟨gap, .keyword .def_, chars⟩ :: ps) =
      let first := start + 1 + Text.byteLength gap
      let stop := first + Text.byteLength chars
      let rest := through stop ⟨[indentation gap], 0, false⟩ ps
      ⟨rest.state, [⟨.newline, ⟨start, start + 1⟩⟩, mark .indent first,
          ⟨.keyword .def_, ⟨first, stop⟩⟩] ++
        rest.tokens, rest.errors⟩ := by
  have hend (span : Span) : step [] ⟨.newline, span⟩ ⟨[], 0, false⟩ =
      ⟨⟨[], 0, true⟩, [⟨.newline, span⟩], []⟩ := rfl
  have hopen (span : Span) : step gap ⟨.keyword .def_, span⟩ ⟨[], 0, true⟩ =
      ⟨⟨[indentation gap], 0, false⟩, [mark .indent span.start, ⟨.keyword .def_, span⟩], []⟩ := by
    have hindent : indent (indentation gap) span.start ⟨[], 0, true⟩ =
        ⟨⟨[indentation gap], 0, false⟩, [mark .indent span.start], []⟩ := if_pos hgap
    rw [Arranges.step_eq (p := ⟨gap, .keyword .def_, chars⟩) (by simp), if_pos (by rfl)]
    dsimp only
    rw [hindent]
    rfl
  simp only [through, Piece.newline, hend, hopen]
  rfl

/-- The tokens of the lines of a maker: behind the end of its header the block is opened with the
keyword of the definition, the rest of which hangs off its line, and the line that returns the
function is in the block as well. -/
theorem through_maker {P : List Char → Prop} {gap chars : List Char} {qs : List Piece}
    {name : String} (hgap : 4 ≤ indentation gap) (hstarts : Starts P false 0 qs 0)
    (hpos : ∀ gap', P gap' → 0 < indentation gap')
    (hdeep : indentation gap = 4 → ∀ gap', P gap' → 4 < indentation gap')
    (hinner : ∀ q ∈ qs, q.kind ≠ .newline → q.kind.Inner) (hname : Word.isName name = true)
    {start : Nat}
    (herrors : (through start ⟨[], 0, false⟩ (Maker.lines gap chars qs name)).errors = [])
    (stop : Nat) :
    indentation gap = 4 ∧ ∃ before hung rest,
      (through start ⟨[], 0, false⟩ (Maker.lines gap chars qs name)).tokens ++
        finish stop (through start ⟨[], 0, false⟩ (Maker.lines gap chars qs name)).state =
          before ++ ⟨.keyword .def_, ⟨start + 1 + Text.byteLength gap,
            start + 1 + Text.byteLength gap + Text.byteLength chars⟩⟩ :: (hung ++ rest) ∧
      before.map Token.kind = [.newline, .indent] ∧ Token.Hung 0 false (hung.map Token.kind) ∧
      hung.filter isInner = (Piece.place (start + 1 + Text.byteLength gap + Text.byteLength chars)
        qs).filter isInner ∧
      rest.map Token.kind = [.keyword .return_, .ident name, .newline, .dedent, .eof] := by
  unfold Maker.lines at herrors ⊢
  rw [through_opening (Nat.lt_of_lt_of_le (by decide) hgap)] at herrors ⊢
  dsimp only at herrors ⊢
  generalize hfirst : start + 1 + Text.byteLength gap = first at herrors ⊢
  generalize hwidth : indentation gap = w at *
  rw [through_append] at herrors ⊢
  dsimp only at herrors ⊢
  obtain ⟨hqs, hlast⟩ := List.append_eq_nil_iff.1 herrors
  have hnested : State.Nested ⟨[] ++ [w], 0, false⟩ := by
    have hpositive : 0 < w := Nat.lt_of_lt_of_le (by decide) hgap
    simpa [State.Nested] using hpositive
  obtain ⟨y, fresh, hstate, hnested', hfresh, hung⟩ :=
    hstarts.through (x := []) hpos hnested (by simp) hqs
  have hstate : (through (first + Text.byteLength chars) ⟨[w], 0, false⟩ qs).state =
    ⟨y ++ [w], 0, fresh⟩ := hstate
  rw [hstate] at hlast ⊢
  obtain ⟨rfl, hreturn⟩ := through_returnLine hnested' hgap hname hlast
  refine ⟨rfl, [⟨.newline, ⟨start, start + 1⟩⟩, mark .indent first], ?_⟩
  rw [hreturn.state]
  have hkinds := hreturn.kinds (first + Text.byteLength chars + Text.byteLength (Piece.text qs))
  obtain ⟨ends, ls, hsplit, hends, hls⟩ := List.map_eq_append_iff.1 hkinds
  obtain ⟨dedents, words, rfl, hdedents, hwords⟩ := List.map_eq_append_iff.1 hls
  rw [hsplit]
  have hmarks : (ends ++ dedents).filter isInner = [] := by
    refine List.filter_eq_nil_iff.2 fun t ht => ?_
    have hkind : t.kind = .newline ∨ t.kind = .dedent := by
      rcases List.mem_append.1 ht with ht | ht
      · have hk := List.mem_map_of_mem (f := Token.kind) ht
        rw [hends] at hk
        split at hk
        · cases hk
        · exact .inl (List.mem_singleton.1 hk)
      · have hk := List.mem_map_of_mem (f := Token.kind) ht
        rw [hdedents] at hk
        exact .inr (List.eq_of_mem_replicate hk)
    rcases hkind with hk | hk <;> simp [isInner, hk]
  refine ⟨(through (first + Text.byteLength chars) ⟨[4], 0, false⟩ qs).tokens ++ (ends ++ dedents),
    words ++ finish stop ⟨[4], 0, false⟩, ?_, rfl, ?_, ?_, ?_⟩
  · simp
  · rw [List.map_append, List.map_append, hends, hdedents]
    refine hung (hdeep rfl) _ ?_
    cases fresh with
    | true => exact .dedents _
    | false => exact .newline (by simp) (.dedents _)
  · rw [List.filter_append, hmarks, List.append_nil]
    exact through_isInner hinner (by simp) hqs
  · rw [List.map_append, hwords]
    rfl

end Layout

end StagedScript
