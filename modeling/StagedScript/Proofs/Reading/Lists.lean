import StagedScript.Proofs.Parsing.Expressions
import StagedScript.Proofs.Reading.Lines
import StagedScript.Shape.Text

/-!
# Lists in texts

Things that are written with commas between them are read as such.
-/

namespace StagedScript

theorem intercalate_eq_append {α : Type} (sep x : List α) (xs : List (List α)) :
    sep.intercalate (x :: xs) = x ++ xs.flatMap (sep ++ ·) := by
  induction xs generalizing x with
  | nil => simp
  | cons y ys ih => rw [List.intercalate_cons_cons, ih, List.flatMap_cons, List.append_assoc,
      List.append_assoc]

theorem forall_mem_intercalate {α : Type} {P : α → Prop} {sep : List α} {xs : List (List α)}
    (hsep : ∀ a ∈ sep, P a) (hxs : ∀ x ∈ xs, ∀ a ∈ x, P a) : ∀ a ∈ sep.intercalate xs, P a := by
  cases xs with
  | nil => simp
  | cons x xs =>
    obtain ⟨hx, hxs⟩ := List.forall_mem_cons.1 hxs
    rw [intercalate_eq_append, List.forall_mem_append]
    refine ⟨hx, fun a ha => ?_⟩
    obtain ⟨y, hy, ha⟩ := List.mem_flatMap.1 ha
    exact (List.mem_append.1 ha).elim (hsep a) (hxs y hy a)

namespace Piece

variable {α β : Type} {pieces : List Char → α → List Piece} {word : α → List Token.Kind}
  {write : α → String} {p : Char → Bool} {xs : List α} {gap rest : List Char}

theorem blanks_none : ∀ c ∈ ([] : List Char), Lexeme.isBlank c = true := by simp

theorem blanks_one : ∀ c ∈ [' '], Lexeme.isBlank c = true := by simp [Lexeme.isBlank]

/-- The pieces behind the first ones of a list. -/
def more (pieces : List Char → α → List Piece) (xs : List α) : List Piece :=
  xs.flatMap fun x => symbol [] .comma :: pieces [' '] x

/-- The pieces of a list. -/
def list (pieces : List Char → α → List Piece) : List α → List Piece
  | [] => []
  | x :: xs => pieces [] x ++ more pieces xs

/-- The pieces of a tuple in parentheses; a comma tells a tuple of one item from the item. -/
def tuple (gap : List Char) (pieces : List Char → α → List Piece) : List α → List Piece
  | [x] => symbol gap .openParen :: (pieces [] x ++ [symbol [] .comma, symbol [] .closeParen])
  | xs => symbol gap .openParen :: (list pieces xs ++ [symbol [] .closeParen])

theorem list_map (f : β → α) (ys : List β) :
    list pieces (ys.map f) = list (fun gap y => pieces gap (f y)) ys := by
  cases ys with
  | nil => rfl
  | cons y ys => simp [list, more, List.flatMap_map]

theorem tuple_map (f : β → α) (ys : List β) :
    tuple gap pieces (ys.map f) = tuple gap (fun gap y => pieces gap (f y)) ys := by
  rcases ys with _ | ⟨y, _ | ⟨z, zs⟩⟩
  · rfl
  · rfl
  · exact congrArg (fun ps => symbol gap .openParen :: (ps ++ _)) (list_map f (y :: z :: zs))

/-! ## Tokens -/

section

variable (hpieces : ∀ gap, ∀ x ∈ xs, (pieces gap x).map Piece.kind = word x)
include hpieces

theorem kinds_list : (list pieces xs).map Piece.kind = withCommas word xs := by
  cases xs with
  | nil => rfl
  | cons x xs =>
    rw [list, List.map_append, hpieces [] x (by simp)]
    induction xs generalizing x with
    | nil => exact List.append_nil _
    | cons y ys ih =>
      rw [withCommas_cons _ _ (by simp)]
      have hrest := ih y fun gap z hz => hpieces gap z (by simp [List.mem_cons.1 hz])
      rw [← hrest, ← hpieces [' '] y (by simp)]
      simp [more, symbol]

theorem kinds_tuple (gap : List Char) :
    (tuple gap pieces xs).map Piece.kind = tupleWord word xs := by
  rcases xs with _ | ⟨x, _ | ⟨y, ys⟩⟩
  · rfl
  · simp [tuple, tupleWord, symbol, hpieces [] x (by simp)]
  · simp [tuple, tupleWord, symbol, kinds_list hpieces]

end

/-! ## Texts -/

section

variable (hpieces : ∀ gap, ∀ x ∈ xs, text (pieces gap x) = gap ++ (write x).toList)
include hpieces

theorem text_list : text (list pieces xs) = (Shape.commas (xs.map write)).toList := by
  cases xs with
  | nil => rfl
  | cons x xs =>
    have hmore (ys : List α) (hys : ∀ y ∈ ys, y ∈ xs) :
        text (more pieces ys) = ys.flatMap fun y => ", ".toList ++ (write y).toList := by
      induction ys with
      | nil => rfl
      | cons y ys ih =>
        have hrest := ih fun z hz => hys z (by simp [hz])
        simp only [more, List.flatMap_cons] at hrest ⊢
        rw [text_append, hrest, text, hpieces [' '] y (by simp [hys y])]
        rfl
    rw [list, text_append, hpieces [] x (by simp), hmore xs fun _ hy => hy, Shape.commas,
      String.toList_intercalate, List.map_cons, List.map_cons, intercalate_eq_append, List.map_map,
      List.flatMap_map]
    rfl

theorem text_tuple (gap : List Char) :
    text (tuple gap pieces xs) = gap ++ (Shape.tupleText (xs.map write)).toList := by
  rcases xs with _ | ⟨x, _ | ⟨y, ys⟩⟩
  · simp [tuple, list, text, symbol, Symbol.chars, Shape.tupleText, Shape.commas]
  · simp [tuple, text, text_append, symbol, Symbol.chars, Shape.tupleText, hpieces [] x (by simp)]
  · simp [tuple, text, text_append, symbol, Symbol.chars, Shape.tupleText, text_list hpieces]

end

/-! ## Reading -/

section

variable (hcomma : p ',' = false)
  (hpieces : ∀ x ∈ xs, ∀ gap rest, (∀ c ∈ gap, Lexeme.isBlank c = true) → Without p rest →
    Fit (pieces gap x) rest)
include hcomma hpieces

theorem fit_list (hrest : Without p rest) : Fit (list pieces xs) rest := by
  cases xs with
  | nil => trivial
  | cons x xs =>
    have hmore (ys : List α) (hys : ∀ y ∈ ys, y ∈ xs) :
        Without p (text (more pieces ys) ++ rest) ∧ Fit (more pieces ys) rest := by
      induction ys with
      | nil => exact ⟨hrest, trivial⟩
      | cons y ys ih =>
        obtain ⟨hnext, hfit⟩ := ih fun z hz => hys z (by simp [hz])
        have hy := hpieces y (by simp [hys y]) [' '] _ blanks_one hnext
        exact ⟨.cons hcomma, fits_symbol blanks_none rfl, hy.append hfit⟩
    obtain ⟨hnext, hfit⟩ := hmore xs fun _ hy => hy
    exact (hpieces x (by simp) [] _ blanks_none hnext).append hfit

theorem fit_tuple (hclose : p ')' = false) (hgap : ∀ c ∈ gap, Lexeme.isBlank c = true) :
    Fit (tuple gap pieces xs) rest := by
  have hend : Fit [symbol [] .closeParen] rest := ⟨fits_symbol blanks_none rfl, trivial⟩
  rcases xs with _ | ⟨x, _ | ⟨y, ys⟩⟩
  · exact ⟨fits_symbol hgap rfl, hend⟩
  · refine ⟨fits_symbol hgap rfl, ?_⟩
    exact (hpieces x (by simp) [] _ blanks_none (.cons hcomma)).append
      ⟨fits_symbol blanks_none rfl, hend⟩
  · exact ⟨fits_symbol hgap rfl, (fit_list hcomma hpieces (.cons hclose)).append hend⟩

end

end Piece

namespace Layout.Inside

variable {α : Type} {pieces : List Char → α → List Piece} {xs : List α} {n : Nat} {ps : List Piece}

/-- Pieces between two brackets. -/
theorem brackets {gap gap' : List Char} {a b : Symbol} (ha : a.opens = true) (hb : b.closes = true)
    (hps : Inside (n + 1) ps (n + 1)) :
    Inside n (Piece.symbol gap a :: (ps ++ [Piece.symbol gap' b])) n := by
  have hopen : Inside n [Piece.symbol gap a] (n + 1) := .opening rfl ha
  have hclose : Inside (n + 1) [Piece.symbol gap' b] n := .closing rfl hb
  exact hopen.append (hps.append hclose)

theorem list (hpieces : ∀ gap, ∀ x ∈ xs, Inside n (pieces gap x) n) :
    Inside n (Piece.list pieces xs) n := by
  cases xs with
  | nil => exact .nil
  | cons x xs =>
    have hmore (ys : List α) (hys : ∀ y ∈ ys, y ∈ xs) : Inside n (Piece.more pieces ys) n := by
      induction ys with
      | nil => exact .nil
      | cons y ys ih =>
        have hcomma : Inside n [Piece.symbol [] .comma] n := .symbol _ ⟨rfl, rfl⟩
        have hrest := ih fun z hz => hys z (by simp [hz])
        exact hcomma.append ((hpieces _ y (by simp [hys y])).append hrest)
    exact (hpieces _ x (by simp)).append (hmore xs fun _ hy => hy)

theorem tuple (gap : List Char) (hpieces : ∀ gap, ∀ x ∈ xs, Inside (n + 1) (pieces gap x) (n + 1)) :
    Inside n (Piece.tuple gap pieces xs) n := by
  rcases xs with _ | ⟨x, _ | ⟨y, ys⟩⟩
  · exact .brackets rfl rfl .nil
  · have hcomma : Inside (n + 1) [Piece.symbol [] .comma] (n + 1) := .symbol _ ⟨rfl, rfl⟩
    have hitem : Inside (n + 1) (pieces [] x ++ [Piece.symbol [] .comma]) (n + 1) :=
      (hpieces [] x (by simp)).append hcomma
    have hinside :
        Inside n (Piece.symbol gap .openParen :: (pieces [] x ++ [Piece.symbol [] .comma] ++
          [Piece.symbol [] .closeParen])) n := .brackets rfl rfl hitem
    rwa [List.append_assoc] at hinside
  · exact .brackets rfl rfl (.list hpieces)

end Layout.Inside

end StagedScript
