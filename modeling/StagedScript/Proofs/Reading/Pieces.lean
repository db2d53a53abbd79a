import StagedScript.Proofs.Basic
import StagedScript.Token.Layout
import StagedScript.Token.Lexeme

/-!
# Texts in pieces

A text without lexical errors is a sequence of pieces: a token, and in front of it what is skipped.
Where the tokens stand follows from the lengths of the pieces, so a text can be taken apart and put
together piece by piece.
-/

/-!
## How far lexemes reach

A lexeme ends within the text that it is read from.
-/

namespace StagedScript

namespace Numeral

theorem length_takeWhile_le (p : Char → Bool) (cs : List Char) :
    (cs.takeWhile p).length ≤ cs.length := (List.takeWhile_sublist p).length_le

theorem exponent?_le {cs : List Char} {e : Int} {n : Nat} (h : exponent? cs = some (e, n)) :
    n ≤ cs.length := by
  unfold exponent? at h
  split at h
  · next c cs =>
    split at h
    · split at h
      next sign signs ds heq =>
      have hsigns : signs + ds.length = cs.length := by
        split at heq
        · cases heq
          exact Nat.add_comm _ _
        · cases heq
          exact Nat.add_comm _ _
        · cases heq
          exact Nat.zero_add _
      have hdigits := length_takeWhile_le (isDigit 10) ds
      dsimp only at h
      split at h
      · cases h
      · cases h
        rw [List.length_cons]
        omega
    · cases h
  · cases h

theorem decimal_le (cs : List Char) : (decimal cs).2 ≤ cs.length := by
  have hwhole := length_takeWhile_le (isPart 10) cs
  have hdrop : (cs.drop (cs.takeWhile (isPart 10)).length).length =
      cs.length - (cs.takeWhile (isPart 10)).length := List.length_drop
  unfold decimal
  dsimp only
  split
  · next d r heq =>
    rw [heq, List.length_cons, List.length_cons] at hdrop
    split
    · have hfraction := length_takeWhile_le (isPart 10) (d :: r)
      split
      · next e n hexp =>
        have hn := exponent?_le hexp
        rw [List.length_drop] at hn
        simp only [List.length_cons] at hn hfraction
        omega
      · simp only [List.length_cons] at hfraction
        omega
    · exact hwhole
  · split
    · next e n hexp =>
      have hn := exponent?_le hexp
      omega
    · exact hwhole

theorem literal_le (cs : List Char) : (literal cs).2 ≤ cs.length := by
  unfold literal
  split
  · next m r =>
    split
    · next base _ =>
      dsimp only
      split
      · exact decimal_le _
      · have := length_takeWhile_le (isPart base.radix) r
        simp only [List.length_cons]
        omega
    · exact decimal_le _
  · exact decimal_le _

end Numeral

namespace Quoted

/-- The literal ends within a text that has so many characters behind its last item. -/
def Extent.Within (closing length : Nat) : Extent → Prop
  | closed n => n + closing ≤ length
  | unclosed n => n ≤ length

theorem Extent.Within.after {closing length : Nat} {e : Extent} (he : e.Within closing length)
    (n : Nat) : (e.after n).Within closing (length + n) := by
  cases e with
  | closed k => simp only [Extent.after, Within] at he ⊢; omega
  | unclosed k => simp only [Extent.after, Within] at he ⊢; omega

theorem short_within (quote : Char) (cs : List Char) : (short quote cs).Within 1 cs.length := by
  fun_induction short quote cs
  case case7 ih => exact ih.after 2
  case case9 ih => exact ih.after 1
  all_goals simp [Extent.Within]

theorem long_within (quote : Char) (cs : List Char) : (long quote cs).Within 3 cs.length := by
  fun_induction long quote cs
  case case1 cs n hitem hlt ih =>
    have hdrop : (cs.drop (n + 1)).length + (n + 1) = cs.length := by
      rw [List.length_drop]
      omega
    exact hdrop ▸ ih.after (n + 1)
  case case3 hprefix _ => 
    have := (List.isPrefixOf_iff_prefix.1 hprefix).length_le
    simpa [Extent.Within] using this
  all_goals simp [Extent.Within]

/-- How many characters of a text a literal takes, or are skipped. -/
def Literal.taken : Literal → Nat
  | whole _ n => n
  | broken n => n

theorem literal_le (quote : Char) (cs : List Char) :
    (literal quote (quote :: cs)).taken ≤ cs.length + 1 := by
  unfold literal
  split
  · next h =>
    have hlong := long_within quote ((quote :: cs).drop 3)
    have hlen := (List.isPrefixOf_iff_prefix.1 h).length_le
    simp only [List.length_cons, List.length_nil] at hlen
    dsimp only
    split
    · next n heq =>
      rw [heq] at hlong
      simp only [Extent.Within, List.length_drop, List.length_cons] at hlong
      simp only [Literal.taken]
      omega
    · next n heq =>
      rw [heq] at hlong
      simp only [Extent.Within, List.length_drop, List.length_cons] at hlong
      simp only [Literal.taken]
      omega
  · have hshort := short_within quote ((quote :: cs).drop 1)
    dsimp only
    split
    · next n heq =>
      rw [heq] at hshort
      simp only [Extent.Within, List.length_drop, List.length_cons] at hshort
      simp only [Literal.taken]
      omega
    · next n heq =>
      rw [heq] at hshort
      simp only [Extent.Within, List.length_drop, List.length_cons] at hshort
      simp only [Literal.taken]
      omega

end Quoted

namespace Lexeme

/-- A lexeme takes no more characters than there are. -/
theorem read_le (c : Char) (cs : List Char) : (read c cs).2 ≤ cs.length := by
  unfold read
  split
  · exact Numeral.length_takeWhile_le _ _
  split
  · exact Numeral.length_takeWhile_le _ _
  split
  · unfold backslash
    split <;> simp
  split
  · simp
  split
  · split <;> simp
  split
  · exact Numeral.length_takeWhile_le _ _
  split
  · have := Numeral.literal_le (c :: cs)
    rw [List.length_cons] at this
    unfold number
    dsimp only
    split
    · dsimp only; omega
    · dsimp only; omega
  split
  · have := Quoted.literal_le c cs
    unfold quoted
    split
    · next heq =>
      rw [heq, Quoted.Literal.taken] at this
      dsimp only
      omega
    · next heq =>
      rw [heq, Quoted.Literal.taken] at this
      dsimp only
      omega
  · unfold symbol
    split
    · next s hs =>
      have hprefix : s.chars.isPrefixOf (c :: cs) = true := by
        have := List.find?_some hs
        simpa using this
      have := (List.isPrefixOf_iff_prefix.1 hprefix).length_le
      rw [List.length_cons] at this
      dsimp only
      omega
    · simp

end Lexeme

/-- A token with its characters, and what is skipped in front of it. -/
structure Piece where
  /-- What is skipped in front of the token. -/
  gap : List Char
  /-- What the token is. -/
  kind : Token.Kind
  /-- The characters of the token. -/
  chars : List Char

/-- Characters are skipped in front of a text: blanks, comments, and joined lines. -/
inductive Skips : List Char → List Char → Prop
  | nil {rest : List Char} : Skips [] rest
  | step {c : Char} {cs gap rest : List Char} :
      Lexeme.read c (cs ++ (gap ++ rest)) = (.gap, cs.length) → Skips gap rest →
      Skips (c :: (cs ++ gap)) rest

namespace Piece

/-- The text that pieces make. -/
def text : List Piece → List Char
  | [] => []
  | p :: ps => p.gap ++ (p.chars ++ text ps)

/-- The tokens of pieces that stand from a position on. -/
def place (start : Nat) : List Piece → List Token
  | [] => []
  | p :: ps =>
    let first := start + Text.byteLength p.gap
    let stop := first + Text.byteLength p.chars
    ⟨p.kind, ⟨first, stop⟩⟩ :: place stop ps

/-- The piece is what is read in front of a text. -/
structure Fits (p : Piece) (rest : List Char) : Prop where
  gap : Skips p.gap (p.chars ++ rest)
  token : ∃ c cs, p.chars = c :: cs ∧ Lexeme.read c (cs ++ rest) = (.token p.kind, cs.length)

/-- The pieces are what the text is read as that they make, with a tail that is skipped. -/
def Read : List Piece → List Char → Prop
  | [], tail => Skips tail []
  | p :: ps, tail => p.Fits (text ps ++ tail) ∧ Read ps tail

theorem text_append (ps qs : List Piece) : text (ps ++ qs) = text ps ++ text qs := by
  induction ps with
  | nil => rfl
  | cons p ps ih => simp [text, ih]

end Piece

namespace Token

theorem scanFrom_gap {start room n : Nat} {c : Char} {cs : List Char}
    (h : Lexeme.read c cs = (.gap, n)) : scanFrom start (room + 1) (c :: cs) =
      scanFrom (start + Text.byteLength (c :: cs.take n)) (room + 1) (cs.drop n) := by
  rw [scanFrom, h]
  rfl

theorem scanFrom_token {start room n : Nat} {c : Char} {cs : List Char} {kind : Kind}
    (h : Lexeme.read c cs = (.token kind, n)) : scanFrom start (room + 1) (c :: cs) =
      (⟨kind, ⟨start, start + Text.byteLength (c :: cs.take n)⟩⟩ ::
        (scanFrom (start + Text.byteLength (c :: cs.take n)) (room + 1) (cs.drop n)).1,
        (scanFrom (start + Text.byteLength (c :: cs.take n)) (room + 1) (cs.drop n)).2) := by
  rw [scanFrom, h]

theorem scanFrom_skips {start room : Nat} {gap rest : List Char} (h : Skips gap rest) :
    scanFrom start (room + 1) (gap ++ rest) =
      scanFrom (start + Text.byteLength gap) (room + 1) rest := by
  induction h generalizing start with
  | nil => rfl
  | @step c cs gap rest hread _ ih =>
    rw [List.cons_append, List.append_assoc, scanFrom_gap hread, List.take_left, List.drop_left, ih]
    simp [Text.byteLength, Nat.add_assoc]

/-- The tokens of a text that is made of pieces are those of the pieces. -/
theorem scanFrom_text {start room : Nat} {ps : List Piece} {tail : List Char}
    (h : Piece.Read ps tail) :
    scanFrom start (room + 1) (Piece.text ps ++ tail) = (Piece.place start ps, []) := by
  induction ps generalizing start with
  | nil =>
    have hskip : scanFrom start (room + 1) _ = _ := scanFrom_skips h
    rw [List.append_nil] at hskip
    rw [Piece.text, List.nil_append, hskip, scanFrom]
    rfl
  | cons p ps ih =>
    obtain ⟨⟨hgap, c, cs, hchars, hread⟩, hps⟩ := h
    have htext : Piece.text (p :: ps) ++ tail = p.gap ++ (p.chars ++ (Piece.text ps ++ tail)) := by
      simp [Piece.text]
    rw [htext, scanFrom_skips hgap, hchars, List.cons_append, scanFrom_token hread, Piece.place,
      hchars, List.take_left, List.drop_left, ih hps]

end Token

namespace Piece

/-- Pieces with more that is skipped in front of the first one. -/
theorem Read.skip {c : Char} {cs : List Char} {ps : List Piece} {tail : List Char}
    (hread : Lexeme.read c (cs ++ (text ps ++ tail)) = (.gap, cs.length)) (h : Read ps tail)
    (start : Nat) :
    ∃ qs tail', c :: (cs ++ (text ps ++ tail)) = text qs ++ tail' ∧ Read qs tail' ∧
      place (start + Text.byteLength (c :: cs)) ps = place start qs := by
  cases ps with
  | nil =>
    refine ⟨[], c :: (cs ++ tail), rfl, ?_, rfl⟩
    rw [text, List.nil_append, ← List.append_nil tail] at hread
    exact .step hread h
  | cons p ps =>
    obtain ⟨⟨hgap, htoken⟩, hps⟩ := h
    refine ⟨⟨c :: (cs ++ p.gap), p.kind, p.chars⟩ :: ps, tail, ?_, ⟨⟨?_, htoken⟩, hps⟩, ?_⟩
    · simp [text]
    · refine .step ?_ hgap
      simpa [text] using hread
    · simp [place, Text.byteLength, Nat.add_assoc]

end Piece

/-- A text without lexical errors is made of pieces. -/
theorem Token.pieces_of_scanFrom {start room : Nat} {cs : List Char} {ts : List Token}
    (h : Token.scanFrom start (room + 1) cs = (ts, [])) :
    ∃ ps tail, cs = Piece.text ps ++ tail ∧ Piece.Read ps tail ∧ ts = Piece.place start ps := by
  -- A lexeme takes at least one character, so what is left is shorter.
  induction hn : cs.length using Nat.strongRecOn generalizing cs ts start with
  | ind n ih =>
    cases cs with
    | nil =>
      rw [Token.scanFrom] at h
      cases h
      exact ⟨[], [], rfl, .nil, rfl⟩
    | cons c cs =>
      cases hread : Lexeme.read c cs with
      | mk lexeme k =>
      have hk : k ≤ cs.length := by
        have := Lexeme.read_le c cs
        rwa [hread] at this
      have hlt : (cs.drop k).length < n := by
        rw [← hn, List.length_drop, List.length_cons]
        omega
      have htake : (cs.take k).length = k := by
        rw [List.length_take, Nat.min_eq_left hk]
      have hcs : cs = cs.take k ++ cs.drop k := (List.take_append_drop k cs).symm
      cases lexeme with
      | gap =>
        rw [Token.scanFrom_gap hread] at h
        obtain ⟨ps, tail, hrest, hps, rfl⟩ := ih _ hlt h rfl
        have hskip : Lexeme.read c (cs.take k ++ (Piece.text ps ++ tail)) =
            (.gap, (cs.take k).length) := by rw [← hrest, ← hcs, htake, hread]
        obtain ⟨qs, tail', htext, hqs, hplace⟩ := hps.skip hskip start
        refine ⟨qs, tail', ?_, hqs, hplace⟩
        rw [← htext, ← hrest, ← hcs]
      | token kind =>
        rw [Token.scanFrom_token hread] at h
        cases hrest : Token.scanFrom (start + Text.byteLength (c :: cs.take k)) (room + 1)
          (cs.drop k) with
        | mk ts' es =>
        rw [hrest] at h
        cases h
        obtain ⟨ps, tail, hdrop, hps, rfl⟩ := ih _ hlt hrest rfl
        refine ⟨⟨[], kind, c :: cs.take k⟩ :: ps, tail, ?_,
          ⟨⟨.nil, c, cs.take k, rfl, ?_⟩, hps⟩, ?_⟩
        · conv_lhs => rw [hcs, hdrop]
          simp [Piece.text]
        · rw [← hdrop, ← hcs, htake, hread]
        · simp [Piece.place, Text.byteLength]
      | bad cause =>
        rw [Token.scanFrom, hread] at h
        cases h
      | badNumber =>
        rw [Token.scanFrom, hread] at h
        cases h

end StagedScript
