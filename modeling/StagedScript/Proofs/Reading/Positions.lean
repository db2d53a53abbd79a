import Mathlib.Data.List.DropRight
import Mathlib.Data.Nat.SuccPred
import Mathlib.Data.Prod.Lex
import Mathlib.Order.Interval.Set.Monotone
import StagedScript.Proofs.Parsing.Sites
import StagedScript.Proofs.Writing.Dedented

/-!
# Positions in lines

A position counts bytes.  The line map of a text, which is made by walking over its characters,
knows the newlines among its bytes: it tells for every position, inside a character or not, how many
newlines are in front of it and how far behind the last of them it is, and it gives back the texts
between them.
-/

namespace StagedScript

/-! ## Bytes -/

namespace Text

/-- The bytes of a text in UTF-8. -/
def bytes (cs : List Char) : List UInt8 := cs.flatMap String.utf8EncodeChar

/-- The byte of a newline. -/
def newlineByte : UInt8 := 10

theorem bytes_cons (c : Char) (cs : List Char) :
    bytes (c :: cs) = String.utf8EncodeChar c ++ bytes cs :=
  List.flatMap_cons

theorem length_bytes (cs : List Char) : (bytes cs).length = byteLength cs := by
  induction cs with
  | nil => rfl
  | cons c cs ih =>
    rw [byteLength, ← ih, bytes_cons, List.length_append, String.length_utf8EncodeChar]

theorem byteLength_replicate {c : Char} (hc : c.utf8Size = 1) (n : Nat) :
    byteLength (List.replicate n c) = n := by
  induction n with
  | zero => rfl
  | succ n ih => rw [List.replicate_succ, byteLength, ih, hc, Nat.add_comm]

/-- Of all characters the newline alone has its byte. -/
theorem newlineByte_not_mem {c : Char} (hc : c ≠ '\n') : newlineByte ∉ String.utf8EncodeChar c := by
  have hval : c.val.toNat ≠ 10 := fun h => hc (Char.ext (UInt32.toNat_inj.1 h))
  have hbyte (n : Nat) : newlineByte = UInt8.ofNat n ↔ n % 256 = 10 := by
    rw [← UInt8.toNat_inj, UInt8.toNat_ofNat']
    exact eq_comm
  unfold String.utf8EncodeChar
  dsimp only
  split_ifs
  all_goals
    simp only [List.mem_cons, List.not_mem_nil, or_false, hbyte]
    omega

/-- How far behind the last newline the end of bytes is, if the start is this far behind one. -/
def behindNewline (n : Nat) : List UInt8 → Nat
  | [] => n
  | b :: bs => if b = newlineByte then behindNewline 0 bs else behindNewline (n + 1) bs

/-- What is behind the last newline of bytes, or all of them. -/
def lastLine (bs : List UInt8) : List UInt8 := bs.rtakeWhile (· != newlineByte)

theorem behindNewline_concat (n : Nat) (bs : List UInt8) (b : UInt8) :
    behindNewline n (bs ++ [b]) = if b = newlineByte then 0 else behindNewline n bs + 1 := by
  induction bs generalizing n with
  | nil => rfl
  | cons c bs ih =>
    rw [List.cons_append, behindNewline, behindNewline, ih, ih]
    split_ifs <;> rfl

theorem lastLine_concat (bs : List UInt8) (b : UInt8) :
    lastLine (bs ++ [b]) = if b = newlineByte then [] else lastLine bs ++ [b] := by
  rw [lastLine, List.rtakeWhile_concat]
  by_cases hb : b = newlineByte <;> simp [lastLine, hb]

theorem length_lastLine_le (bs : List UInt8) : (lastLine bs).length ≤ bs.length :=
  (List.rtakeWhile_suffix _ bs).length_le

theorem newlineByte_mem_bytes {cs : List Char} : newlineByte ∈ bytes cs ↔ '\n' ∈ cs := by
  rw [bytes, List.mem_flatMap]
  constructor
  · rintro ⟨c, hc, hbyte⟩
    by_contra hnewline
    exact newlineByte_not_mem (fun h => hnewline (h ▸ hc)) hbyte
  · intro h
    exact ⟨'\n', h, by decide⟩

theorem length_lastLine_eq_iff {cs : List Char} :
    (lastLine (bytes cs)).length = (bytes cs).length ↔ '\n' ∉ cs := by
  have hsuffix : lastLine (bytes cs) <:+ bytes cs := List.rtakeWhile_suffix _ _
  have hwhole : (lastLine (bytes cs)).length = (bytes cs).length ↔ lastLine (bytes cs) = bytes cs :=
    ⟨hsuffix.eq_of_length, congrArg List.length⟩
  rw [← newlineByte_mem_bytes, hwhole, lastLine, List.rtakeWhile_eq_self_iff]
  simp only [bne_iff_ne, ne_eq]
  exact ⟨fun h hmem => h _ hmem rfl, fun h b hb heq => h (heq ▸ hb)⟩

theorem count_newlineByte_eq_iff {cs : List Char} :
    (bytes cs).count newlineByte = (bytes cs).length ↔ ∀ c ∈ cs, c = '\n' := by
  rw [List.count_eq_length]
  constructor
  · intro h c hc
    by_contra hother
    obtain ⟨b, hb⟩ := List.exists_mem_of_length_pos
      (String.length_utf8EncodeChar c ▸ c.utf8Size_pos)
    have hbyte := h b (List.mem_flatMap.2 ⟨c, hc, hb⟩)
    exact newlineByte_not_mem hother (hbyte ▸ hb)
  · intro h b hb
    obtain ⟨c, hc, hbyte⟩ := List.mem_flatMap.1 hb
    rw [h c hc] at hbyte
    exact (List.mem_singleton.1 hbyte).symm

theorem behindNewline_eq (bs : List UInt8) : behindNewline 0 bs = (lastLine bs).length := by
  induction bs using List.reverseRecOn with
  | nil => rfl
  | append_singleton bs b ih =>
    rw [behindNewline_concat, lastLine_concat, ih]
    split_ifs
    · rfl
    · rw [List.length_append, List.length_singleton]

end Text

/-! ## Newlines among bytes -/

namespace LineMap

open Text (bytes newlineByte behindNewline lastLine)

variable {position start last n : Nat}

/-- The positions just past the newlines of bytes, the first of which stands at `position`. -/
def byteEnds (position : Nat) : List UInt8 → List Nat
  | [] => []
  | b :: bs => if b = newlineByte then (position + 1) :: byteEnds (position + 1) bs
    else byteEnds (position + 1) bs

theorem byteEnds_append_of_not_mem {xs : List UInt8} (hxs : newlineByte ∉ xs) (position : Nat)
    (bs : List UInt8) : byteEnds position (xs ++ bs) = byteEnds (position + xs.length) bs := by
  induction xs generalizing position with
  | nil => rfl
  | cons x xs ih =>
    rw [List.mem_cons, not_or] at hxs
    rw [List.cons_append, byteEnds, if_neg (Ne.symm hxs.1), ih hxs.2, List.length_cons,
      Nat.add_assoc, Nat.add_comm 1]

theorem length_byteEnds (start : Nat) (bs : List UInt8) :
    (byteEnds start bs).length = bs.count newlineByte := by
  induction bs generalizing start with
  | nil => rfl
  | cons b bs ih =>
    rw [byteEnds]
    split_ifs with hb
    · rw [List.length_cons, ih, hb, List.count_cons_self]
    · rw [ih, List.count_cons_of_ne hb]

/-- A walk over the characters finds the newlines among the bytes. -/
theorem newlineEnds_eq_byteEnds (position : Nat) (cs : List Char) :
    newlineEnds position cs = byteEnds position (bytes cs) := by
  induction cs generalizing position with
  | nil => rfl
  | cons c cs ih =>
    rw [newlineEnds, ih, Text.bytes_cons]
    split_ifs with hc
    · rw [hc]
      rfl
    · rw [byteEnds_append_of_not_mem (Text.newlineByte_not_mem hc), String.length_utf8EncodeChar]

theorem lt_of_mem_byteEnds {stop : Nat} {bs : List UInt8} (h : stop ∈ byteEnds start bs) :
    start < stop := by
  induction bs generalizing start with
  | nil => cases h
  | cons b bs ih =>
    rw [byteEnds] at h
    split_ifs at h
    · rcases List.mem_cons.1 h with rfl | h
      · exact Nat.lt_succ_self _
      · exact Nat.lt_of_succ_lt (ih h)
    · exact Nat.lt_of_succ_lt (ih h)

/-- No newline stands in front of where the bytes start. -/
theorem from_byteEnds_of_le (h : position ≤ start) (n last : Nat) (bs : List UInt8) :
    lineFrom position n (byteEnds start bs) = n ∧ startFrom position last (byteEnds start bs) =
      last := by
  cases hbs : byteEnds start bs with
  | nil => exact ⟨rfl, rfl⟩
  | cons stop stops =>
    have hmem : stop ∈ byteEnds start bs := by simp [hbs]
    have hlt := lt_of_mem_byteEnds hmem
    have hbehind : ¬ stop ≤ position := by omega
    exact ⟨if_neg hbehind, if_neg hbehind⟩

/-- The newlines in front of a position are counted. -/
theorem lineFrom_byteEnds (position start n : Nat) (bs : List UInt8) :
    lineFrom position n (byteEnds start bs) =
      n + (bs.take (position - start)).count newlineByte := by
  induction bs generalizing start n with
  | nil => simp [byteEnds, lineFrom]
  | cons b bs ih =>
    rcases Nat.lt_or_ge start position with hlt | hle
    · have hstep : position - start = position - (start + 1) + 1 := by omega
      rw [hstep, List.take_succ_cons, byteEnds]
      split_ifs with hb
      · rw [lineFrom, if_pos (Nat.succ_le_of_lt hlt), ih, hb, List.count_cons_self]
        omega
      · rw [ih, List.count_cons_of_ne hb]
    · rw [(from_byteEnds_of_le hle n 0 (b :: bs)).1, Nat.sub_eq_zero_of_le hle]
      rfl

/-- The last line that begins in front of a position begins behind the last newline there. -/
theorem startFrom_byteEnds {bs : List UInt8} (hlast : last ≤ start) (hfirst : start ≤ position)
    (hstop : position ≤ start + bs.length) :
    startFrom position last (byteEnds start bs) +
      behindNewline (start - last) (bs.take (position - start)) = position := by
  induction bs generalizing start last with
  | nil =>
    rw [List.length_nil] at hstop
    rw [List.take_nil]
    simp only [byteEnds, startFrom, behindNewline]
    omega
  | cons b bs ih =>
    rw [List.length_cons] at hstop
    rcases Nat.eq_or_lt_of_le hfirst with rfl | hlt
    · rw [(from_byteEnds_of_le (Nat.le_refl _) 0 last (b :: bs)).2, Nat.sub_self, List.take_zero,
        behindNewline]
      omega
    · have hstep : position - start = position - (start + 1) + 1 := by omega
      rw [hstep, List.take_succ_cons, byteEnds, behindNewline]
      split_ifs with hb
      · have hrest := ih (Nat.le_refl (start + 1)) hlt (by omega)
        rw [Nat.sub_self] at hrest
        rw [startFrom, if_pos (Nat.succ_le_of_lt hlt), hrest]
      · have hrest := ih (Nat.le_succ_of_le hlast) hlt (by omega)
        rwa [Nat.succ_sub hlast] at hrest

/-! ## Lines -/

/-- The lines of a text begin one behind the end of the other. -/
theorem newlineEnds_ended_cons {line : List Char} (hline : '\n' ∉ line) (lines : List (List Char))
    (rest : List Char) : newlineEnds start (Text.ended (line :: lines) rest) =
      (start + Text.byteLength line + 1) ::
        newlineEnds (start + Text.byteLength line + 1) (Text.ended lines rest) := by
  rw [Text.ended_cons, newlineEnds_append, newlineEnds_of_not_mem hline, List.nil_append]
  rfl

theorem length_newlineEnds_ended {lines : List (List Char)} {rest : List Char}
    (hlines : ∀ line ∈ lines, '\n' ∉ line) (hrest : '\n' ∉ rest) :
    (newlineEnds start (Text.ended lines rest)).length = lines.length := by
  induction lines generalizing start with
  | nil => rw [Text.ended, List.flatMap_nil, List.nil_append, newlineEnds_of_not_mem hrest,
      List.length_nil, List.length_nil]
  | cons line lines ih =>
    obtain ⟨hline, hlines⟩ := List.forall_mem_cons.1 hlines
    rw [newlineEnds_ended_cons hline, List.length_cons, ih hlines, List.length_cons]

/-- The text from one start of a line to the next. -/
def textAt? (text : List Char) (starts : List Nat) (i : Nat) : Option (List Char) := do
  let start ← starts[i]?
  let stop := match starts[i + 1]? with
    | some next => next - 1
    | none => Text.byteLength text
  Text.slice? start stop text

theorem lineText?_succ (m : LineMap) (text : List Char) (i : Nat) :
    m.lineText? text (i + 1) = textAt? text m.starts i := rfl

/-- The lines behind `done` are the texts between their starts. -/
theorem textAt?_ended {lines : List (List Char)} {rest : List Char}
    (hlines : ∀ line ∈ lines, '\n' ∉ line) (hrest : '\n' ∉ rest) (done : List Char) (i : Nat) :
    textAt? (done ++ Text.ended lines rest)
        (Text.byteLength done :: newlineEnds (Text.byteLength done) (Text.ended lines rest)) i =
      (lines ++ [rest])[i]? := by
  induction lines generalizing done i with
  | nil =>
    have hended : Text.ended [] rest = rest := rfl
    rw [hended, newlineEnds_of_not_mem hrest, List.nil_append]
    cases i with
    | zero =>
      have hslice := Text.slice?_append done rest []
      rw [List.append_nil] at hslice
      change Text.slice? (Text.byteLength done) (Text.byteLength (done ++ rest)) (done ++ rest) =
        some rest
      rw [Text.byteLength_append, hslice]
    | succ i => rfl
  | cons line lines ih =>
    obtain ⟨hline, hlines⟩ := List.forall_mem_cons.1 hlines
    have hdone : Text.byteLength (done ++ (line ++ ['\n'])) =
        Text.byteLength done + Text.byteLength line + 1 := by
      rw [Text.byteLength_append, Text.byteLength_append, ← Nat.add_assoc]
      rfl
    have htext : done ++ Text.ended (line :: lines) rest =
        (done ++ (line ++ ['\n'])) ++ Text.ended lines rest := by
      rw [Text.ended_cons]
      simp
    rw [newlineEnds_ended_cons hline]
    cases i with
    | zero =>
      rw [Text.ended_cons]
      change Text.slice? (Text.byteLength done) (Text.byteLength done + Text.byteLength line +
        1 - 1) _ = some line
      rw [Nat.add_sub_cancel, Text.slice?_append]
    | succ i =>
      have hrest := ih hlines (done ++ (line ++ ['\n'])) i
      rw [hdone, ← htext] at hrest
      exact hrest

/-! ## Exactness -/

/-- The map tells the line and the column of every position of the text up to one of them. -/
structure ExactTo (text : List Char) (m : LineMap) (stop : Nat) : Prop where
  /-- The line is one more than there are newlines in front of the position. -/
  line : ∀ offset ≤ stop, m.line offset = 1 + ((bytes text).take offset).count newlineByte
  /-- The column is one more than there are bytes from the last of these newlines to the position,
  or from the start of the text if there are none. -/
  column : ∀ offset ≤ stop, m.column offset = 1 + (lastLine ((bytes text).take offset)).length
  lineStart : ∀ offset ≤ stop, m.lineStart offset + (m.column offset - 1) = offset
  /-- Later positions are on later lines, or on the same line further to the right. -/
  ordered : StrictMonoOn (fun offset => toLex (m.line offset, m.column offset)) (Set.Iic stop)

/-- The map tells about every position of the text, its end among them, and it knows the lines of
the text. -/
structure Exact (text : List Char) (m : LineMap) : Prop where
  positions : m.ExactTo text (Text.byteLength text)
  /-- The lines with newlines between them are the text, and there are no others. -/
  lines : ∃ lines : List (List Char), lines.length = m.count ∧ (∀ line ∈ lines, '\n' ∉ line) ∧
    (∀ i, m.lineText? text (i + 1) = lines[i]?) ∧ m.lineText? text 0 = none ∧
    ['\n'].intercalate lines = text

/-- A text that is as long as can be, and one line or nothing but newlines.  The column of its end,
or the number of its lines, is one more than fits in a word. -/
def Brimful (text : List Char) : Prop :=
  Text.byteLength text + 1 = positions ∧ ('\n' ∉ text ∨ ∀ c ∈ text, c = '\n')

/-- The line and the column of a position fit in a word. -/
structure Fits (text : List Char) (offset : Nat) : Prop where
  line : 1 + ((bytes text).take offset).count newlineByte < positions
  column : 1 + (lastLine ((bytes text).take offset)).length < positions

theorem fits_of_lt {offset : Nat} (text : List Char) (hoffset : offset + 1 < positions) :
    Fits text offset := by
  have htake := List.length_take_le offset (bytes text)
  have hcount := List.count_le_length (a := newlineByte) (l := (bytes text).take offset)
  have hlast := Text.length_lastLine_le ((bytes text).take offset)
  constructor <;> omega

section

variable {text : List Char} (hsize : Text.byteLength text < 2 ^ 32) {offset : Nat}
  (hoffset : offset ≤ Text.byteLength text)
include hsize hoffset

theorem mod_positions : offset % positions = offset :=
  Nat.mod_eq_of_lt (Nat.lt_of_le_of_lt hoffset hsize)

theorem line_ofText : (ofText text).line offset =
    (1 + ((bytes text).take offset).count newlineByte) % positions := by
  rw [LineMap.line, mod_positions hsize hoffset, ofText, newlineEnds_eq_byteEnds, lineFrom_byteEnds,
    Nat.sub_zero]

theorem lineStart_ofText :
    (ofText text).lineStart offset + (lastLine ((bytes text).take offset)).length = offset := by
  have hbehind : startFrom offset 0 (byteEnds 0 (bytes text)) +
      behindNewline (0 - 0) ((bytes text).take (offset - 0)) = offset :=
    startFrom_byteEnds (Nat.le_refl 0) (Nat.zero_le offset)
    (by rwa [Text.length_bytes, Nat.zero_add])
  rw [Nat.sub_zero, Nat.sub_zero, Text.behindNewline_eq] at hbehind
  rwa [LineMap.lineStart, mod_positions hsize hoffset, ofText, newlineEnds_eq_byteEnds]

theorem column_ofText : (ofText text).column offset =
    (1 + (lastLine ((bytes text).take offset)).length) % positions := by
  have hstart := lineStart_ofText hsize hoffset
  have hbehind : offset - (ofText text).lineStart offset + 1 =
      1 + (lastLine ((bytes text).take offset)).length := by omega
  rw [LineMap.column, mod_positions hsize hoffset, hbehind]

/-- What is told about positions fits in words. -/
theorem ExactTo.fits (h : (ofText text).ExactTo text offset) : Fits text offset := by
  have hpositions : 0 < positions := Nat.two_pow_pos 32
  constructor
  · rw [← h.line offset (Nat.le_refl _), line_ofText hsize hoffset]
    exact Nat.mod_lt _ hpositions
  · rw [← h.column offset (Nat.le_refl _), column_ofText hsize hoffset]
    exact Nat.mod_lt _ hpositions

/-- The step from one position to the next: behind a newline another line begins, and behind any
other byte the line goes on. -/
theorem lt_succ_ofText (hlt : offset < Text.byteLength text) (hfits : Fits text offset)
    (hnext : Fits text (offset + 1)) :
    toLex ((ofText text).line offset, (ofText text).column offset) <
      toLex ((ofText text).line (offset + 1), (ofText text).column (offset + 1)) := by
  have hbyte : offset < (bytes text).length := by rwa [Text.length_bytes]
  rw [line_ofText hsize hoffset, column_ofText hsize hoffset, line_ofText hsize hlt,
    column_ofText hsize hlt, Nat.mod_eq_of_lt hfits.line, Nat.mod_eq_of_lt hfits.column,
    Nat.mod_eq_of_lt hnext.line, Nat.mod_eq_of_lt hnext.column, ← List.take_append_getElem hbyte,
    List.count_append, Text.lastLine_concat, Prod.Lex.toLex_lt_toLex]
  split_ifs with hb
  · left
    rw [hb, List.count_singleton_self]
    omega
  · right
    rw [List.count_singleton, if_neg (by simpa using hb), List.length_append,
      List.length_singleton]
    exact ⟨rfl, by omega⟩

/-- The map is exact up to a position whose line and column fit in a word. -/
theorem exactTo_ofText (hfits : Fits text offset) : (ofText text).ExactTo text offset := by
  -- Only the last of the positions may be the last that there is.
  have hall : ∀ n ≤ offset, n ≤ Text.byteLength text ∧ Fits text n := by
    intro n hn
    rcases Nat.eq_or_lt_of_le hn with rfl | hlt
    · exact ⟨hoffset, hfits⟩
    · have hpositions : n + 1 < positions := by
        have hlast : positions = 2 ^ 32 := rfl
        omega
      exact ⟨hn.trans hoffset, fits_of_lt text hpositions⟩
  have hcolumn : ∀ n ≤ offset,
      (ofText text).column n = 1 + (lastLine ((bytes text).take n)).length := by
    intro n hn
    obtain ⟨hin, hword⟩ := hall n hn
    rw [column_ofText hsize hin, Nat.mod_eq_of_lt hword.column]
  refine ⟨fun n hn => ?_, hcolumn, fun n hn => ?_, ?_⟩
  · obtain ⟨hin, hword⟩ := hall n hn
    rw [line_ofText hsize hin, Nat.mod_eq_of_lt hword.line]
  · rw [hcolumn n hn, Nat.add_sub_cancel_left, lineStart_ofText hsize (hall n hn).1]
  · refine strictMonoOn_Iic_of_lt_succ fun n hn => ?_
    obtain ⟨hin, hword⟩ := hall n (Nat.le_of_lt hn)
    exact lt_succ_ofText hsize hin (hn.trans_le hoffset) hword (hall (n + 1) hn).2

end

/-- The end of a text has a line and a column that fit in a word, unless the text is brimful. -/
theorem fits_end_iff {text : List Char} (hsize : Text.byteLength text < 2 ^ 32) :
    Fits text (Text.byteLength text) ↔ ¬ Brimful text := by
  have hpositions : positions = 2 ^ 32 := rfl
  have hlength := Text.length_bytes text
  have htake : (bytes text).take (Text.byteLength text) = bytes text :=
    List.take_of_length_le hlength.le
  constructor
  · rintro ⟨hline, hcolumn⟩ ⟨hfull, hall⟩
    rw [htake] at hline hcolumn
    rcases hall with hnone | hall
    · rw [Text.length_lastLine_eq_iff.2 hnone] at hcolumn
      omega
    · rw [Text.count_newlineByte_eq_iff.2 hall] at hline
      omega
  · intro hfull
    by_cases hlt : Text.byteLength text + 1 < positions
    · exact fits_of_lt text hlt
    · have hmost : Text.byteLength text + 1 = positions := by omega
      obtain ⟨hsome, hother⟩ := not_or.1 fun hall => hfull ⟨hmost, hall⟩
      have hcount : (bytes text).count newlineByte ≤ (bytes text).length := List.count_le_length
      have hlast := Text.length_lastLine_le (bytes text)
      have hline := mt Text.count_newlineByte_eq_iff.1 hother
      have hcolumn := mt Text.length_lastLine_eq_iff.1 hsome
      constructor <;> rw [htake] <;> omega

/-- The line map of a text that is shorter than there are positions is exact, with the exception of
brimful texts.  For these too it is exact up to any position in front of the end. -/
theorem ofText_exact {text : List Char} (hsize : Text.byteLength text < 2 ^ 32) :
    ((ofText text).Exact text ↔ ¬ Brimful text) ∧
    ∀ stop < Text.byteLength text, (ofText text).ExactTo text stop := by
  refine ⟨⟨fun h => ?_, fun hfull => ?_⟩, fun stop hstop => ?_⟩
  · exact (fits_end_iff hsize).1 (h.positions.fits hsize (Nat.le_refl _))
  · have hfits := (fits_end_iff hsize).2 hfull
    refine ⟨exactTo_ofText hsize (Nat.le_refl _) hfits, ?_⟩
    cases hended : Text.endedLines text with
    | mk lines rest =>
    have hcount : (ofText text).count = 1 + (bytes text).count newlineByte := by
      have hline := hfits.line
      rw [List.take_of_length_le (Text.length_bytes text).le] at hline
      rw [count, ofText, newlineEnds_eq_byteEnds, length_byteEnds, Nat.add_comm,
        Nat.mod_eq_of_lt hline]
    obtain ⟨rfl, hlines, hrest⟩ := Text.endedLines_eq_iff.1 hended
    refine ⟨lines ++ [rest], ?_, ?_, fun i => ?_, rfl, Text.intercalate_eq_ended lines rest⟩
    · have hnewlines : (bytes (Text.ended lines rest)).count newlineByte = lines.length := by
        rw [← length_byteEnds 0, ← newlineEnds_eq_byteEnds, length_newlineEnds_ended hlines hrest]
      rw [hcount, hnewlines, List.length_append, List.length_singleton, Nat.add_comm]
    · intro line hline
      rcases List.mem_append.1 hline with hline | hline
      · exact hlines line hline
      · exact List.mem_singleton.1 hline ▸ hrest
    · rw [lineText?_succ]
      exact textAt?_ended hlines hrest [] i
  · have hpositions : stop + 1 < positions := Nat.lt_of_le_of_lt hstop hsize
    exact exactTo_ofText hsize hstop.le (fits_of_lt text hpositions)

/-- A text whose second character has two bytes, with an empty line in it and a newline at its
end. -/
def sampleText : List Char := "aé\n\nb\n".toList

theorem sampleText_exact :
    Text.byteLength sampleText < 2 ^ 32 ∧ (ofText sampleText).Exact sampleText ∧
    [0, 2, 3, 4, 7].map (fun offset =>
      ((ofText sampleText).line offset, (ofText sampleText).column offset)) =
        [(1, 1), (1, 3), (1, 4), (2, 1), (4, 1)] ∧
    [0, 1, 2, 4, 5].map (fun n => (ofText sampleText).lineText? sampleText n) =
      [none, some ['a', 'é'], some [], some [], none] := by
  have hsize : Text.byteLength sampleText < 2 ^ 32 := by decide
  have hfull : ¬ Brimful sampleText := fun h => absurd h.1 (by decide)
  exact ⟨hsize, (ofText_exact hsize).1.2 hfull, by decide, by decide⟩

/-- The longest text of one line. -/
def longLine : List Char := List.replicate (2 ^ 32 - 1) 'x'

/-- The column of its end is 0, where it should be the number of positions. -/
theorem longLine_ends_at_zero :
    Text.byteLength longLine < 2 ^ 32 ∧
    (ofText longLine).column (Text.byteLength longLine) = 0 ∧
    ¬ (ofText longLine).Exact longLine := by
  have hlength : Text.byteLength longLine = 2 ^ 32 - 1 := Text.byteLength_replicate rfl _
  have hsize : Text.byteLength longLine < 2 ^ 32 := by omega
  have hnewline : '\n' ∉ longLine := fun h => absurd (List.eq_of_mem_replicate h) (by decide)
  have hzero : (ofText longLine).column (Text.byteLength longLine) = 0 := by
    rw [column_ofText hsize (Nat.le_refl _),
      List.take_of_length_le (Text.length_bytes longLine).le,
      Text.length_lastLine_eq_iff.2 hnewline, Text.length_bytes, hlength]
    rfl
  refine ⟨hsize, hzero, fun h => ?_⟩
  have hcolumn := h.positions.column _ (Nat.le_refl _)
  omega

end LineMap

end StagedScript
