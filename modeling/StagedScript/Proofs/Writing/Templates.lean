import Mathlib.Data.List.TakeWhile
import StagedScript.Proofs.Writing.Emission

/-!
# Templates as they are written

A template is written from segments: texts, in which every brace is doubled, and names in braces.
The written form is read back piece by piece, so that what is put in for the names, braces and all,
stands where the names stood, between the texts.  Nothing but such a form is a template.
-/

namespace StagedScript.Template

/-! ## The written form -/

/-- A text with each brace written twice. -/
def escape (cs : List Char) : List Char := cs.flatMap fun c => if isBrace c then [c, c] else [c]

/-- A name that can stand between braces: there is something of it, and no brace in it. -/
structure IsFieldName (x : String) : Prop where
  nonempty : x ≠ ""
  noBrace : ∀ c ∈ x.toList, isBrace c = false

/-- A part of what a template is written from. -/
inductive Segment where
  /-- A text that stands for itself. -/
  | text (t : String)
  /-- A name that stands for the text that it is bound to. -/
  | name (x : String)

namespace Segment

/-- The segment as it is written. -/
def written : Segment → String
  | text t => String.ofList (escape t.toList)
  | name x => "\x7b" ++ x ++ "\x7d"

/-- Whether the segment can be written: any text can, and a name that can stand between braces. -/
def CanStand : Segment → Prop
  | text _ => True
  | name x => IsFieldName x

/-- The text that the segment stands for, unless it is a name that is not bound. -/
def value? (bindings : Bindings) : Segment → Option String
  | text t => some t
  | name x => bindings.get? x

end Segment

/-! ## Pieces of the written form -/

namespace Piece

/-- The piece as it is written. -/
def written : Piece → List Char
  | char c => escape [c]
  | name x => '\x7b' :: (x.toList ++ ['\x7d'])

/-- The piece as a segment of its own. -/
def toSegment : Piece → Segment
  | char c => .text (String.singleton c)
  | name x => .name x

end Piece

namespace Segment

/-- The pieces that the segment is read as. -/
def pieces : Segment → List Piece
  | text t => t.toList.map .char
  | name x => [.name x]

theorem toList_written (s : Segment) : s.written.toList = s.pieces.flatMap Piece.written := by
  cases s with
  | text t => simp [written, pieces, escape, Piece.written, List.flatMap_map]
  | name x => simp [written, pieces, Piece.written]

theorem pieces_toSegment (p : Piece) : p.toSegment.pieces = [p] := by
  cases p <;> simp [Piece.toSegment, pieces]

theorem canStand_of_mem_pieces {s : Segment} (hs : s.CanStand) {p : Piece} (hp : p ∈ s.pieces) :
    p.toSegment.CanStand := by
  cases s with
  | text t =>
    obtain ⟨c, -, rfl⟩ := List.mem_map.1 hp
    trivial
  | name x =>
    obtain rfl := List.mem_singleton.1 hp
    exact hs

end Segment

theorem escape_brace {c : Char} (hc : isBrace c = true) : escape [c] = [c, c] := by
  simp [escape, hc]

theorem escape_other {c : Char} (hc : isBrace c = false) : escape [c] = [c] := by
  simp [escape, hc]

/-! ## Reading the written form -/

/-- The written form of a piece is read as that piece, and reading goes on behind it. -/
theorem read_piece {p : Piece} (hp : p.toSegment.CanStand) (position : Nat) (cs : List Char) :
    ∃ next, read position (p.written ++ cs) = (p :: (read next cs).1, (read next cs).2) := by
  cases p with
  | char c =>
    by_cases hopen : c = '\x7b'
    · subst hopen
      exact ⟨position + 2, by rw [Piece.written, escape_brace rfl]; simp [read]⟩
    · by_cases hclose : c = '\x7d'
      · subst hclose
        exact ⟨position + 2, by rw [Piece.written, escape_brace rfl]; simp [read]⟩
      · refine ⟨position + c.utf8Size, ?_⟩
        rw [Piece.written, escape_other (by simp [isBrace, hopen, hclose])]
        simp [read, hopen, hclose]
  | name x =>
    obtain ⟨hne, hno⟩ : IsFieldName x := hp
    have htake : (x.toList ++ '\x7d' :: cs).takeWhile (fun c => !isBrace c) = x.toList := by
      rw [List.takeWhile_append_of_pos (by simpa using hno)]
      simp [isBrace]
    have hdrop : (x.toList ++ '\x7d' :: cs).dropWhile (fun c => !isBrace c) = '\x7d' :: cs := by
      rw [List.dropWhile_append_of_pos (by simpa using hno)]
      simp [isBrace]
    have hwritten : (Piece.name x).written ++ cs = '\x7b' :: (x.toList ++ '\x7d' :: cs) := by
      simp [Piece.written]
    refine ⟨position + 1 + Text.byteLength x.toList + 1, ?_⟩
    rw [hwritten, read]
    · split
      · next h =>
        rw [hdrop] at h
        cases h
      · next c rest h =>
        rw [hdrop] at h
        cases h
        simp [htake, hne]
    · -- The brace is not doubled, as the name starts with something else.
      intro more hmore
      obtain ⟨d, ds, hds⟩ : ∃ d ds, x.toList = d :: ds :=
        List.exists_cons_of_ne_nil (by simpa using hne)
      have hd : isBrace d = false := hno d (by simp [hds])
      rw [hds, List.cons_append] at hmore
      rw [(List.cons.inj hmore).1] at hd
      cases hd

theorem read_written {ps : List Piece} (hps : ∀ p ∈ ps, p.toSegment.CanStand) (position : Nat) :
    read position (ps.flatMap Piece.written) = (ps, none) := by
  induction ps generalizing position with
  | nil => simp [read]
  | cons p ps ih =>
    obtain ⟨hp, hps⟩ := List.forall_mem_cons.1 hps
    obtain ⟨next, hnext⟩ := read_piece hp position (ps.flatMap Piece.written)
    rw [List.flatMap_cons, hnext, ih hps]

/-- Characters up to the first brace, which does not open a name, are a name that is closed. -/
theorem closed_eq {cs rest : List Char} {c : Char}
    (h : (cs.dropWhile fun c => !isBrace c) = c :: rest) (hc : c ≠ '\x7b') :
    cs = (cs.takeWhile fun c => !isBrace c) ++ '\x7d' :: rest := by
  have hbrace : isBrace c = true := by
    have hhead := List.head?_dropWhile_not (fun c => !isBrace c) cs
    rw [h] at hhead
    simpa using hhead
  have hclose : c = '\x7d' := by simpa [isBrace, hc] using hbrace
  rw [← hclose, ← h, List.takeWhile_append_dropWhile]

/-- A piece in front of others is written in front of them. -/
theorem written_cons {p : Piece} {front rest : List Char} {ps qs : List Piece} {flaw? : Option Flaw}
    (h : (p :: qs, flaw?) = (ps, none)) (hp : p.toSegment.CanStand) (hfront : p.written = front)
    (hrest : flaw? = none → rest = qs.flatMap Piece.written ∧ ∀ q ∈ qs, q.toSegment.CanStand) :
    front ++ rest = ps.flatMap Piece.written ∧ ∀ q ∈ ps, q.toSegment.CanStand := by
  cases h
  obtain ⟨rfl, hqs⟩ := hrest rfl
  exact ⟨by rw [List.flatMap_cons, hfront], List.forall_mem_cons.2 ⟨hp, hqs⟩⟩

/-- What is read without a flaw is the written form of its pieces. -/
theorem written_of_read {position : Nat} {cs : List Char} {ps : List Piece}
    (h : read position cs = (ps, none)) :
    cs = ps.flatMap Piece.written ∧ ∀ p ∈ ps, p.toSegment.CanStand := by
  fun_induction read position cs generalizing ps with
  | case1 =>
    cases h
    simp
  | case2 position cs qs flaw? hread ih =>
    exact written_cons h trivial rfl fun hflaw => ih (by rw [hread, hflaw])
  | case3 position cs qs flaw? hread ih =>
    exact written_cons h trivial rfl fun hflaw => ih (by rw [hread, hflaw])
  | case4 | case5 | case6 | case7 => cases h
  | case8 position cs _ name stop c rest hdrop hc hname _ qs flaw? hread =>
    rename_i ih
    have hcs : '\x7b' :: cs = ('\x7b' :: (name ++ ['\x7d'])) ++ rest := by
      rw [List.cons_append, List.append_assoc, List.singleton_append, ← closed_eq hdrop hc]
    have hfield : IsFieldName (String.ofList name) := by
      refine ⟨by simpa using hname, fun d hd => ?_⟩
      have hmem : d ∈ cs.takeWhile fun c => !isBrace c := by simpa using hd
      simpa using List.mem_takeWhile_imp hmem
    rw [hcs]
    exact written_cons h hfield (by simp [Piece.written]) fun hflaw => ih (by rw [hread, hflaw])
  | case9 position c cs _ _ hclose hopen qs flaw? hread ih =>
    have hother : isBrace c = false := by
      simp only [isBrace, Bool.or_eq_false_iff, beq_eq_false_iff_ne]
      exact ⟨hopen, hclose⟩
    exact written_cons h trivial (escape_other hother) fun hflaw => ih (by rw [hread, hflaw])

/-! ## Filling in values -/

section Fill

variable {template : String} {bindings : Bindings}

theorem fillPieces_pieces {s : Segment} {text : String} (hs : s.value? bindings = some text)
    (ps : List Piece) : fillPieces template bindings (s.pieces ++ ps) =
      (text.toList ++ ·) <$> fillPieces template bindings ps := by
  cases s with
  | text t =>
    cases hs
    exact fillPieces_chars template bindings _ ps
  | name x => exact fillPieces_name hs ps

theorem fillPieces_unbound {s : Segment} (hs : s.value? bindings = none) (ps : List Piece) :
    ∃ e, fillPieces template bindings (s.pieces ++ ps) = .error e := by
  cases s with
  | text t => cases hs
  | name x =>
    have hx : bindings.get? x = none := hs
    exact ⟨.missing x template, by simp [Segment.pieces, fillPieces, hx]⟩

/-- Segments stand for a text if all their names are bound: for their values in a row. -/
theorem fillPieces_eq_ok {segments : List Segment} {cs : List Char} :
    fillPieces template bindings (segments.flatMap Segment.pieces) = .ok cs ↔
      ∃ texts, segments.mapM (Segment.value? bindings) = some texts ∧
        cs = texts.flatMap String.toList := by
  induction segments generalizing cs with
  | nil => simp [fillPieces, eq_comm]
  | cons s segments ih =>
    rw [List.flatMap_cons, List.mapM_cons]
    cases hs : s.value? bindings with
    | none =>
      obtain ⟨e, he⟩ : ∃ e, fillPieces template bindings
          (s.pieces ++ segments.flatMap Segment.pieces) = .error e := fillPieces_unbound hs _
      simp [he]
    | some text =>
      rw [fillPieces_pieces hs]
      constructor
      · intro h
        cases hrest : fillPieces template bindings (segments.flatMap Segment.pieces) with
        | error e =>
          rw [hrest] at h
          cases h
        | ok rest =>
          rw [hrest] at h
          cases h
          obtain ⟨texts, htexts, rfl⟩ := ih.1 hrest
          exact ⟨text :: texts, by simp [htexts], by simp⟩
      · rintro ⟨texts, htexts, rfl⟩
        cases hrest : segments.mapM (Segment.value? bindings) with
        | none => simp [hrest] at htexts
        | some rest =>
          obtain rfl : text :: rest = texts := by simpa [hrest] using htexts
          rw [ih.2 ⟨rest, hrest, rfl⟩]
          simp

end Fill

theorem substitute_eq_ok {template text : String} {bindings : Bindings} :
    substitute template bindings = .ok text ↔ ∃ ps cs, read 0 template.toList = (ps, none) ∧
      fillPieces template bindings ps = .ok cs ∧ text = String.ofList cs := by
  unfold substitute
  rcases read 0 template.toList with ⟨ps, _ | flaw⟩
  · simp [Except.bind_eq_ok, pure, Except.pure, eq_comm (a := text)]
  · simp [Except.bind_eq_ok]

/-- Filling in a template undoes the doubling of braces.  It succeeds just for the written forms of
segments whose names are bound, and gives the texts of the segments and the values of the names in
their order, each as it is. -/
theorem substitute_undoes_escaping {template text : String} {bindings : Bindings} :
    substitute template bindings = .ok text ↔
      ∃ (segments : List Segment) (texts : List String), (∀ s ∈ segments, s.CanStand) ∧
        template = String.join (segments.map Segment.written) ∧
        segments.mapM (Segment.value? bindings) = some texts ∧ text = String.join texts := by
  rw [substitute_eq_ok]
  constructor
  · rintro ⟨ps, cs, hread, hfill, rfl⟩
    obtain ⟨htemplate, hps⟩ := written_of_read hread
    have hpieces : (ps.map Piece.toSegment).flatMap Segment.pieces = ps := by
      simp [List.flatMap_map, Segment.pieces_toSegment]
    rw [← hpieces] at hfill
    obtain ⟨texts, htexts, rfl⟩ := fillPieces_eq_ok.1 hfill
    refine ⟨ps.map Piece.toSegment, texts, List.forall_mem_map.2 hps, ?_, htexts, ?_⟩
    · rw [← String.toList_inj, htemplate]
      simp [List.flatMap_map, Segment.toList_written, Segment.pieces_toSegment]
    · simp [← String.toList_inj]
  · rintro ⟨segments, texts, hsegments, htemplate, htexts, rfl⟩
    have hlist : template.toList = (segments.flatMap Segment.pieces).flatMap Piece.written := by
      rw [htemplate]
      simp [List.flatMap_map, Segment.toList_written, List.flatMap_assoc]
    refine ⟨segments.flatMap Segment.pieces, texts.flatMap String.toList, ?_,
      fillPieces_eq_ok.2 ⟨texts, htexts, rfl⟩, by simp [← String.toList_inj]⟩
    rw [hlist]
    refine read_written (fun p hp => ?_) 0
    obtain ⟨s, hs, hp⟩ := List.mem_flatMap.1 hp
    exact Segment.canStand_of_mem_pieces (hsegments s hs) hp

end StagedScript.Template
