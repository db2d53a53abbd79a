import StagedScript.Proofs.Parsing.Brackets
import StagedScript.Proofs.Parsing.Mirrored

/-!
# What stands on one line

Simple statements and the headers of statements with blocks are read from one line.
-/

/-!
## Simple statements on a line of their own

Expressions and simple statements are read from a line without a look at what is below it.  Each
reader mirrors itself: where it has rounds enough on both sides it reads the same, at corresponding
places.
-/

namespace StagedScript

open Parse
open Token (Kind)

/-- The expressions differ in their spans alone, and these correspond. -/
def Expr.Same (π : Places) (a b : Expr) : Prop :=
  b.mapSpan (Span.sent π.right) = a.mapSpan (Span.sent π.left)

theorem Expr.span_mapSpan (f : Span → Span) (e : Expr) : (e.mapSpan f).span = f e.span := by
  cases e <;> rfl

theorem Expr.Same.span {π : Places} {a b : Expr} (h : a.Same π b) : a.span.Same π b.span := by
  have hspan := congrArg Expr.span h
  rwa [span_mapSpan, span_mapSpan] at hspan

/-- On lines with fewer tokens than the bound, the readers of expressions mirror each other.  They
read nothing where nothing is left of a line. -/
structure MirrorsBelow (π : Places) (bound : Nat) (sub sub' : Nat → Parse Expr) : Prop where
  mirrors : ∀ (least n : Nat) (ks : List Kind), ks.length < bound →
    Mirrors π n ks (sub least) (sub' least) (Expr.Same π) n
  empty : ∀ least n : Nat, Mirrors π n [] (sub least) (sub' least) (fun _ _ => False) n

theorem counts_of_sign? {k : Kind} {found : UnaryOp × Nat} (h : sign? k = some found) (n : Nat) :
    k.Counts n n := by
  unfold sign? at h
  split at h
  case h_5 => cases h
  all_goals rfl

theorem startsTrailer_cases {k : Kind} (h : startsTrailer k = true) :
    k = .symbol .openParen ∨ k = .symbol .dot ∨ k = .symbol .openBracket := by
  cases k with
  | symbol s => cases s <;> first | cases h; done | simp
  | _ => cases h

theorem counts_of_ofKinds? {first second : Kind} {op : Connective} {two : Bool}
    (h : Connective.ofKinds? first second = some (op, two)) (n : Nat) :
    first.Counts n n ∧ (two = true → second.Counts n n ∧ second ≠ .newline) := by
  unfold Connective.ofKinds? at h
  split at h
  case h_4 =>
    split at h
    · cases h
      exact ⟨rfl, fun _ => ⟨rfl, by simp⟩⟩
    · cases h
  case h_5 =>
    split at h
    · cases h
      exact ⟨rfl, fun _ => ⟨rfl, by simp⟩⟩
    · cases h
      exact ⟨rfl, by simp⟩
  case h_6 =>
    split at h
    case h_19 => cases h
    all_goals
      cases h
      exact ⟨rfl, by simp⟩
  case h_7 => cases h
  all_goals
    cases h
    exact ⟨rfl, by simp⟩

theorem counts_of_augmented? {k : Kind} {op : BinaryOp} (h : augmented? k = some op) (n : Nat) :
    k.Counts n n := by
  unfold augmented? at h
  split at h
  case h_7 => cases h
  all_goals rfl

variable {π : Places} {bound n : Nat} {sub sub' : Nat → Parse Expr} {ks : List Kind}

theorem mirrors_moreStrings {i j : Nat} (hi : ks.length < i) (hj : ks.length < j) (text : String) :
    Mirrors π n ks (moreStrings i text) (moreStrings j text) Eq n := by
  induction i generalizing j text ks with
  | zero => exact absurd hi (Nat.not_lt_zero _)
  | succ i ih =>
    obtain ⟨j, rfl⟩ : ∃ m, j = m + 1 := ⟨j - 1, by omega⟩
    unfold moreStrings
    refine .kind ?_
    cases ks with
    | nil => exact .pure rfl
    | cons k ls =>
      rw [List.length_cons] at hi hj
      rw [Token.next, List.headD_cons]
      split
      · exact .advance rfl (ih (by omega) (by omega) _)
      · exact .pure rfl

section

variable (hsub : MirrorsBelow π bound sub sub')
include hsub

theorem mirrors_commaList {i j : Nat} (hi : ks.length < i) (hj : ks.length < j)
    (hks : ks.length < bound) (close : Kind) :
    Mirrors π n ks (commaList sub close i) (commaList sub' close j)
      (List.Forall₂ (Expr.Same π)) n := by
  induction i generalizing j ks with
  | zero => exact absurd hi (Nat.not_lt_zero _)
  | succ i ih =>
    obtain ⟨j, rfl⟩ : ∃ m, j = m + 1 := ⟨j - 1, by omega⟩
    unfold commaList
    refine .get fun rest rest' c d hline => ?_
    rw [Cursor.atEnd, Cursor.atEnd, Cursor.sees, Cursor.sees, Cursor.sees, Cursor.sees,
      OnLine.kind_of_ahead hline.left, OnLine.kind_of_ahead hline.right]
    split
    · exact .pure .nil
    · refine (hsub.mirrors 0 n ks hks).bind fun e e' left he hleft => ?_
      refine .accept trivial (by simp) rfl (fun ls hls => ?_) (.pure (.cons he .nil))
      subst hls
      rw [List.length_cons] at hleft
      rw [if_pos rfl, if_pos rfl]
      refine (ih (by omega) (by omega) (by omega)).bind fun es es' left' hes _ => ?_
      exact .pure (.cons he hes)

theorem mirrors_moreItems {i j : Nat} (hi : ks.length < i) (hj : ks.length < j)
    (hks : ks.length ≤ bound) :
    Mirrors π n ks (moreItems sub i) (moreItems sub' j) (List.Forall₂ (Expr.Same π)) n := by
  induction i generalizing j ks with
  | zero => exact absurd hi (Nat.not_lt_zero _)
  | succ i ih =>
    obtain ⟨j, rfl⟩ : ∃ m, j = m + 1 := ⟨j - 1, by omega⟩
    unfold moreItems
    refine .accept trivial (by simp) rfl (fun ls hls => ?_) (.pure .nil)
    subst hls
    rw [List.length_cons] at hi hj hks
    rw [if_pos rfl, if_pos rfl]
    refine .kind ?_
    split
    · refine (hsub.mirrors 0 n ls (by omega)).bind fun e e' left he hleft => ?_
      refine (ih (by omega) (by omega) (by omega)).bind fun es es' left' hes _ => ?_
      exact .pure (.cons he hes)
    · exact .pure .nil

theorem mirrors_exprList (hks : ks.length < bound) :
    Mirrors π n ks (exprList sub) (exprList sub') (Expr.Same π) n := by
  unfold exprList
  cases ks with
  | nil => exact .elsewhere fun _ _ => (hsub.empty 0 n).bind fun _ _ _ he _ => he.elim
  | cons k ls =>
  refine .here fun span span' hspan => (hsub.mirrors 0 n _ hks).bind fun e e' left he hleft =>
    .sees ?_
  split
  · refine .rounds fun i j hi hj => ?_
    refine (mirrors_moreItems hsub hi hj (by omega)).bind fun es es' left' hes _ => ?_
    refine .spanFrom hspan.start fun _ _ htuple => .pure ?_
    exact congrArg₂ Expr.tuple htuple (Expr.mapSpans_eq (.cons he hes))
  · exact .pure he

theorem mirrors_entries {i j : Nat} (hi : ks.length < i) (hj : ks.length < j)
    (hks : ks.length < bound) :
    Mirrors π n ks (entries sub i) (entries sub' j)
      (List.Forall₂ fun x y => Expr.Same π x.1 y.1 ∧ Expr.Same π x.2 y.2) n := by
  induction i generalizing j ks with
  | zero => exact absurd hi (Nat.not_lt_zero _)
  | succ i ih =>
    obtain ⟨j, rfl⟩ : ∃ m, j = m + 1 := ⟨j - 1, by omega⟩
    unfold entries
    refine .get fun rest rest' c d hline => ?_
    rw [Cursor.atEnd, Cursor.atEnd, Cursor.sees, Cursor.sees, Cursor.sees, Cursor.sees,
      OnLine.kind_of_ahead hline.left, OnLine.kind_of_ahead hline.right]
    split
    · exact .pure .nil
    · refine (hsub.mirrors 0 n ks hks).bind fun k k' left hk hleft => ?_
      refine .expect trivial (by simp) rfl fun ls hls => ?_
      subst hls
      rw [List.length_cons] at hleft
      refine (hsub.mirrors 0 n ls (by omega)).bind fun v v' left' hv hleft' => ?_
      refine .accept trivial (by simp) rfl (fun ls' hls' => ?_) (.pure (.cons ⟨hk, hv⟩ .nil))
      subst hls'
      rw [List.length_cons] at hleft'
      rw [if_pos rfl, if_pos rfl]
      refine (ih (by omega) (by omega) (by omega)).bind fun es es' left'' hes _ => ?_
      exact .pure (.cons ⟨hk, hv⟩ hes)

/-- What stands in parentheses, from the opening one on. -/
theorem mirrors_paren (hks : ks.length < bound) :
    Mirrors π n (.symbol .openParen :: ks) (paren sub) (paren sub') (Expr.Same π) n := by
  unfold paren
  refine .here fun span span' hspan => .advance (l := n + 1) rfl ?_
  refine .accept (l := n) trivial (by simp) rfl (fun ls hls => ?_) ?_
  · rw [if_pos rfl, if_pos rfl]
    exact .spanFrom hspan.start fun _ _ htuple => .pure (congrArg (Expr.tuple · []) htuple)
  · rw [if_neg Bool.false_ne_true, if_neg Bool.false_ne_true]
    refine (hsub.mirrors 0 _ ks hks).bind fun e e' left he hleft => ?_
    refine .accept trivial (by simp) rfl (fun ls hls => ?_) ?_
    · subst hls
      rw [List.length_cons] at hleft
      rw [if_pos rfl, if_pos rfl]
      refine .rounds fun i j hi hj => ?_
      refine (mirrors_commaList hsub hi hj (by omega) _).bind fun es es' left' hes _ => ?_
      refine .expect (l := n) trivial (by simp) rfl fun ls' _ => ?_
      refine .spanFrom hspan.start fun _ _ htuple => .pure ?_
      exact congrArg₂ Expr.tuple htuple (Expr.mapSpans_eq (.cons he hes))
    · rw [if_neg Bool.false_ne_true, if_neg Bool.false_ne_true]
      exact .expect (l := n) trivial (by simp) rfl fun ls' _ => .pure he

theorem mirrors_operand (hks : ks.length ≤ bound) :
    Mirrors π n ks (operand sub) (operand sub') (Expr.Same π) n := by
  unfold operand
  refine .get fun rest rest' c d hline => ?_
  rw [OnLine.kind_of_ahead hline.left, OnLine.kind_of_ahead hline.right]
  dsimp only
  cases ks with
  | nil => exact .missing
  | cons k ls =>
    have hstart := hline.token.start
    rw [List.length_cons] at hks
    rw [Token.next, List.headD_cons]
    split
    · exact .advance rfl (.spanFrom hstart fun _ _ hspan => .pure (congrArg (Expr.int · _) hspan))
    · exact .advance rfl (.spanFrom hstart fun _ _ hspan => .pure (congrArg (Expr.float · _) hspan))
    · next text =>
      refine .advance rfl (.rounds fun i j hi hj => ?_)
      refine (mirrors_moreStrings hi hj text).bind fun more more' left hmore _ => ?_
      subst hmore
      exact .spanFrom hstart fun _ _ hspan => .pure (congrArg (Expr.str · _) hspan)
    · exact .advance rfl (.spanFrom hstart fun _ _ hspan => .pure (congrArg (Expr.name · _) hspan))
    · exact .advance rfl (.spanFrom hstart fun _ _ hspan =>
        .pure (congrArg (Expr.bool · true) hspan))
    · exact .advance rfl (.spanFrom hstart fun _ _ hspan =>
        .pure (congrArg (Expr.bool · false) hspan))
    · exact .advance rfl (.spanFrom hstart fun _ _ hspan => .pure (congrArg Expr.none_ hspan))
    · exact mirrors_paren hsub (by omega)
    · refine .advance (l := n + 1) rfl (.rounds fun i j hi hj => ?_)
      refine (mirrors_commaList hsub hi hj (by omega) _).bind fun es es' left hes _ => ?_
      refine .expect (l := n) trivial (by simp) rfl fun _ _ => ?_
      refine .spanFrom hstart fun _ _ hspan => .pure ?_
      exact congrArg₂ Expr.list hspan (Expr.mapSpans_eq hes)
    · refine .advance (l := n + 1) rfl (.rounds fun i j hi hj => ?_)
      refine (mirrors_entries hsub hi hj (by omega)).bind fun es es' left hes _ => ?_
      refine .expect (l := n) trivial (by simp) rfl fun _ _ => ?_
      refine .spanFrom hstart fun _ _ hspan => .pure ?_
      exact congrArg₂ Expr.dict hspan (Expr.mapEntrySpans_eq hes)
    · exact .failAt
    · split
      · next op strength hsign =>
        refine .advance (counts_of_sign? hsign n) ?_
        refine (hsub.mirrors _ n ls (by omega)).bind fun e e' left he _ => ?_
        exact .spanFrom hstart fun _ _ hspan => .pure (congrArg₂ (Expr.unary · op) hspan he)
      · exact .missing

theorem mirrors_argument (hks : ks.length < bound) (named : Bool) :
    Mirrors π n ks (argument sub named) (argument sub' named)
      (fun x y => y.role = x.role ∧ Expr.Same π x.value y.value) n := by
  unfold argument
  refine .get fun rest rest' c d hline => ?_
  cases ks with
  | nil =>
    rw [OnLine.kind_of_ahead hline.left, OnLine.kind_of_ahead hline.right]
    exact .check rfl ((hsub.mirrors 0 n _ hks).bind fun e e' left he _ => .pure ⟨rfl, he⟩)
  | cons k ls =>
    rw [List.length_cons] at hks
    rw [OnLine.kind_of_ahead hline.left, OnLine.kind_of_ahead hline.right,
      OnLine.following_of_ahead hline.left, OnLine.following_of_ahead hline.right,
      Token.next, List.headD_cons]
    have hrest : Mirrors π n (k :: ls)
        (do
          if named then (Parse.failAt c.token.span .positionalAfterKeyword : Parse Unit)
          return ⟨.positional, ← sub 0⟩ : Parse (Arg Expr))
        (do
          if named then (Parse.failAt d.token.span .positionalAfterKeyword : Parse Unit)
          return ⟨.positional, ← sub' 0⟩)
        (fun x y => y.role = x.role ∧ Expr.Same π x.value y.value) n :=
      .check rfl ((hsub.mirrors 0 n (k :: ls) (by simpa using hks)).bind fun e e' left he _ =>
        .pure ⟨rfl, he⟩)
    generalize hnext : Token.next ls = next
    split
    · exact .advance rfl ((hsub.mirrors 0 n ls (by omega)).bind fun e e' left he _ =>
        .pure ⟨rfl, he⟩)
    · exact .advance rfl ((hsub.mirrors 0 n ls (by omega)).bind fun e e' left he _ =>
        .pure ⟨rfl, he⟩)
    · next x =>
      obtain ⟨ls, rfl⟩ : ∃ ls', ls = .symbol .assign :: ls' := by
        rcases Token.next_cases (k := .symbol .assign) trivial (by simp) ls with h | h
        · rw [hnext] at h
          cases h
        · exact h
      rw [List.length_cons] at hks
      refine .advance rfl (.advance rfl
        ((hsub.mirrors 0 n ls (by omega)).bind fun e e' left he _ => ?_))
      exact .pure ⟨rfl, he⟩
    · exact hrest

theorem mirrors_arguments {i j : Nat} (hi : ks.length < i) (hj : ks.length < j)
    (hks : ks.length < bound) (named : Bool) :
    Mirrors π n ks (arguments sub i named) (arguments sub' j named)
      (List.Forall₂ fun x y => y.role = x.role ∧ Expr.Same π x.value y.value) n := by
  induction i generalizing j ks named with
  | zero => exact absurd hi (Nat.not_lt_zero _)
  | succ i ih =>
    obtain ⟨j, rfl⟩ : ∃ m, j = m + 1 := ⟨j - 1, by omega⟩
    unfold arguments
    refine .get fun rest rest' c d hline => ?_
    rw [Cursor.atEnd, Cursor.atEnd, Cursor.sees, Cursor.sees, Cursor.sees, Cursor.sees,
      OnLine.kind_of_ahead hline.left, OnLine.kind_of_ahead hline.right]
    split
    · exact .pure .nil
    · refine (mirrors_argument hsub hks named).bind fun arg arg' left harg hleft => ?_
      refine .accept trivial (by simp) rfl (fun ls hls => ?_) (.pure (.cons harg .nil))
      subst hls
      rw [List.length_cons] at hleft
      rw [if_pos rfl, if_pos rfl, harg.1]
      refine (ih (by omega) (by omega) (by omega) _).bind fun args args' left' hargs _ => ?_
      exact .pure (.cons harg hargs)

/-- A trailer is read with its first token, so less of the line is left for what comes behind it. -/
theorem mirrors_trailer {α : Type} {k : Kind} (hk : startsTrailer k = true)
    (hks : ks.length < bound) {object object' : Expr} (hobject : Expr.Same π object object')
    {f g : Expr → Parse α} {R : α → α → Prop}
    (hf : ∀ e e' left, Expr.Same π e e' → left.length ≤ ks.length →
      Mirrors π n left (f e) (g e') R n) :
    Mirrors π n (k :: ks) (trailer sub object >>= f) (trailer sub' object' >>= g) R n := by
  unfold trailer
  rw [bind_assoc, bind_assoc]
  refine .kind ?_
  rcases startsTrailer_cases hk with rfl | rfl | rfl
  · simp only [Token.next, List.headD_cons, bind_assoc]
    refine .advance (l := n + 1) rfl (.rounds fun i j hi hj => ?_)
    refine (mirrors_arguments hsub hi hj hks false).bind fun args args' left hargs hleft => ?_
    refine .expect (l := n) trivial (by simp) rfl fun ls hls => ?_
    refine .spanFrom hobject.span.start fun _ _ hspan => ?_
    rw [pure_bind, pure_bind]
    subst hls
    refine hf _ _ ls ?_ (by rw [List.length_cons] at hleft; omega)
    exact (congr (congrArg₂ Expr.call hspan hobject) (Expr.mapArgSpans_eq hargs) :)
  · simp only [Token.next, List.headD_cons, bind_assoc]
    refine .advance rfl (.name fun x ls hls => .spanFrom hobject.span.start fun _ _ hspan => ?_)
    rw [pure_bind, pure_bind]
    refine hf _ _ ls ?_ (by rw [hls, List.length_cons]; omega)
    exact congrArg₂ (Expr.attr · · x) hspan hobject
  · simp only [Token.next, List.headD_cons, bind_assoc]
    refine .advance (l := n + 1) rfl ?_
    refine (mirrors_exprList hsub hks).bind fun e e' left he hleft => ?_
    refine .expect (l := n) trivial (by simp) rfl fun ls hls => ?_
    refine .spanFrom hobject.span.start fun _ _ hspan => ?_
    rw [pure_bind, pure_bind]
    subst hls
    refine hf _ _ ls ?_ (by rw [List.length_cons] at hleft; omega)
    exact (congr (congrArg₂ Expr.subscript hspan hobject) he :)

theorem mirrors_continuation {start start' least i j : Nat} (hstart : π.right start' = π.left start)
    (hi : ks.length < i) (hj : ks.length < j) (hks : ks.length ≤ bound) {left left' : Expr}
    (hleft : Expr.Same π left left') (compared : Bool) :
    Mirrors π n ks (continuation sub start least i left compared)
      (continuation sub' start' least j left' compared) (Expr.Same π) n := by
  induction i generalizing j ks left left' compared with
  | zero => exact absurd hi (Nat.not_lt_zero _)
  | succ i ih =>
    obtain ⟨j, rfl⟩ : ∃ m, j = m + 1 := ⟨j - 1, by omega⟩
    unfold continuation
    refine .get fun rest rest' c d hline => ?_
    cases ks with
    | nil =>
      rw [OnLine.kind_of_ahead hline.left, OnLine.kind_of_ahead hline.right]
      exact .pure hleft
    | cons k ls =>
      rw [List.length_cons] at hi hj hks
      rw [OnLine.kind_of_ahead hline.left, OnLine.kind_of_ahead hline.right,
        OnLine.following_of_ahead hline.left, OnLine.following_of_ahead hline.right,
        Token.next, List.headD_cons]
      split
      · next hk =>
        refine mirrors_trailer hsub hk (by omega) hleft fun e e' left he hle => ?_
        exact ih (by omega) (by omega) (by omega) he compared
      · split
        · exact .pure hleft
        · next op two hop =>
          obtain ⟨hfirst, hsecond⟩ := counts_of_ofKinds? hop n
          dsimp only
          split
          · exact .pure hleft
          · have hright (ls' : List Kind) (hls' : ls'.length ≤ ls.length) :
                Mirrors π n ls'
                  (do
                    if op.isCompare && compared then
                      (Parse.failAt left.span .chainedComparison : Parse Unit)
                    let right ← sub op.strength.2
                    continuation sub start least i (op.apply ⟨start, right.span.stop⟩ left right)
                      op.isCompare)
                  (do
                    if op.isCompare && compared then
                      (Parse.failAt left'.span .chainedComparison : Parse Unit)
                    let right ← sub' op.strength.2
                    continuation sub' start' least j
                      (op.apply ⟨start', right.span.stop⟩ left' right) op.isCompare)
                  (Expr.Same π) n := by
              refine .check rfl ((hsub.mirrors _ n ls' (by omega)).bind fun e e' more he hmore =>
                ?_)
              refine ih (by omega) (by omega) (by omega) ?_ _
              have hspan : Span.Same π ⟨start, e.span.stop⟩ ⟨start', e'.span.stop⟩ :=
                .mk hstart he.span.stop
              rw [Expr.Same, Expr.mapSpan_apply, Expr.mapSpan_apply, hleft, he, hspan]
            refine .advance hfirst ?_
            cases two with
            | false => exact hright ls (Nat.le_refl _)
            | true =>
              obtain ⟨hcounts, hnewline⟩ := hsecond rfl
              cases ls with
              | nil => exact absurd rfl hnewline
              | cons l ls => exact .advance hcounts (hright ls (by simp))

end

/-- No expression is read where nothing is left of a line. -/
theorem mirrors_exprWithin_nil (depth depth' least : Nat) :
    Mirrors π n [] (exprWithin depth least) (exprWithin depth' least) (fun _ _ => False) n := by
  cases depth with
  | zero => rintro _ _ _ _ _ _ _ ⟨⟩
  | succ depth =>
    intro rest rest' c d hline a c' h
    have hstarts := Ensures.startsExpr_exprWithin (depth + 1) least a c' h
    rw [OnLine.kind_of_ahead hline.left] at hstarts
    cases hstarts

/-- Expressions are read alike wherever they may nest as deeply as there are tokens on the line. -/
theorem mirrors_exprWithin {depth depth' : Nat} (hdepth : ks.length < depth)
    (hdepth' : ks.length < depth') (least : Nat) :
    Mirrors π n ks (exprWithin depth least) (exprWithin depth' least) (Expr.Same π) n := by
  induction depth generalizing depth' n ks least with
  | zero => exact absurd hdepth (Nat.not_lt_zero _)
  | succ depth ih =>
    obtain ⟨depth', rfl⟩ : ∃ m, depth' = m + 1 := ⟨depth' - 1, by omega⟩
    cases ks with
    | nil => exact (mirrors_exprWithin_nil (depth + 1) (depth' + 1) least).of_false
    | cons k ks =>
    have hsub : MirrorsBelow π (min depth depth') (exprWithin depth) (exprWithin depth') :=
      ⟨fun least n ls hls => ih (by omega) (by omega) least, fun least n =>
        mirrors_exprWithin_nil _ _ least⟩
    unfold exprWithin
    refine .here fun span span' hspan => ?_
    refine (mirrors_operand hsub (by omega)).bind fun left left' ls hleft hls => ?_
    exact .rounds fun i j hi hj =>
      mirrors_continuation hsub hspan.start hi hj (by omega) hleft false

theorem mirrors_exprAbove (least : Nat) :
    Mirrors π n ks (exprAbove least) (exprAbove least) (Expr.Same π) n :=
  .rounds fun _ _ hi hj => mirrors_exprWithin hi hj least

theorem mirrors_exprAbove_nil (least : Nat) :
    Mirrors π n [] (exprAbove least) (exprAbove least) (fun _ _ => False) n :=
  .rounds fun _ _ _ _ => mirrors_exprWithin_nil _ _ least

theorem mirrors_expr : Mirrors π n ks expr expr (Expr.Same π) n := mirrors_exprAbove 0

theorem mirrorsBelow_exprAbove (bound : Nat) : MirrorsBelow π bound exprAbove exprAbove :=
  ⟨fun least _ _ _ => mirrors_exprAbove least, fun least _ => mirrors_exprAbove_nil least⟩

theorem mirrors_exprs : Mirrors π n ks exprs exprs (Expr.Same π) n :=
  mirrors_exprList (mirrorsBelow_exprAbove _) (Nat.lt_succ_self ks.length)

theorem mirrors_exprs_nil : Mirrors π n [] exprs exprs (fun _ _ => False) n :=
  .elsewhere fun _ _ => (mirrors_exprAbove_nil 0).bind fun _ _ _ he _ => he.elim

/-! ## Targets -/

namespace Expr

mutual

/-- Whether an expression is a target does not depend on its spans. -/
theorem isNone_targetFault? (f : Span → Span) (e : Expr) :
    (e.mapSpan f).targetFault?.isNone = e.targetFault?.isNone := by
  match e with
  | tuple _ [] | list _ [] => rfl
  | tuple _ (x :: xs) | list _ (x :: xs) => exact isNone_targetFaults? f (x :: xs)
  | int .. | float .. | str .. | bool .. | none_ .. | name .. | dict .. | binary .. | unary ..
  | logical .. | compare .. | call .. | attr .. | subscript .. => rfl

theorem isNone_targetFaults? (f : Span → Span) (es : List Expr) :
    (targetFaults? (mapSpans f es)).isNone = (targetFaults? es).isNone := by
  match es with
  | [] => rfl
  | e :: es =>
    rw [mapSpans, targetFaults?, targetFaults?, Option.isNone_or, Option.isNone_or,
      isNone_targetFault? f e, isNone_targetFaults? f es]

end

theorem Same.isAugmentedTarget {π : Places} {a b : Expr} (h : a.Same π b) :
    a.isAugmentedTarget = b.isAugmentedTarget := by
  unfold Same at h
  have hsent (f : Span → Span) (e : Expr) :
      e.isAugmentedTarget = (e.mapSpan f).isAugmentedTarget := by cases e <;> rfl
  rw [hsent (Span.sent π.left) a, hsent (Span.sent π.right) b, h]

end Expr

theorem mirrors_checkTargets {es es' : List Expr} (h : List.Forall₂ (Expr.Same π) es es') :
    Mirrors π n ks (checkTargets es) (checkTargets es') (fun _ _ => True) n := by
  have hsome : (Expr.targetFaults? es').isNone = (Expr.targetFaults? es).isNone := by
    rw [← Expr.isNone_targetFaults? (Span.sent π.left) es, ← Expr.mapSpans_eq h,
      Expr.isNone_targetFaults?]
  unfold checkTargets
  cases hes : Expr.targetFaults? es with
  | some error => exact .throw
  | none =>
    rw [hes, Option.isNone_none, Option.isNone_iff_eq_none] at hsome
    rw [hsome]
    exact .pure trivial

/-! ## Simple statements -/

/-- The statements differ in their spans alone, and these correspond. -/
def Stmt.Same (π : Places) (a b : Stmt) : Prop :=
  b.mapSpan (Span.sent π.right) = a.mapSpan (Span.sent π.left)

theorem mirrors_assigned {i j : Nat} (hi : ks.length < i) (hj : ks.length < j) :
    Mirrors π n (.symbol .assign :: ks) (assigned i) (assigned j)
      (fun x y => List.Forall₂ (Expr.Same π) x.1 y.1 ∧ Expr.Same π x.2 y.2) n := by
  induction i generalizing j ks with
  | zero => exact absurd hi (Nat.not_lt_zero _)
  | succ i ih =>
    obtain ⟨j, rfl⟩ : ∃ m, j = m + 1 := ⟨j - 1, by omega⟩
    unfold assigned
    refine .advance rfl (mirrors_exprs.bind fun e e' left he hleft => .sees ?_)
    rcases Token.next_cases (k := .symbol .assign) trivial (by simp) left with h | ⟨ls, rfl⟩
    · rw [h, if_neg Bool.false_ne_true, if_neg Bool.false_ne_true]
      exact .pure ⟨.nil, he⟩
    · rw [List.length_cons] at hleft
      refine (ih (by omega) (by omega)).bind fun r r' left' hr _ => ?_
      exact .pure ⟨.cons he hr.1, hr.2⟩

theorem mirrors_exprStmt {start start' : Nat} (hstart : π.right start' = π.left start) :
    Mirrors π n ks (exprStmt start) (exprStmt start') (Stmt.Same π) n := by
  unfold exprStmt
  refine mirrors_exprs.bind fun first first' left hfirst hleft => .sees ?_
  rcases Token.next_cases (k := .symbol .assign) trivial (by simp) left with h | ⟨ls, rfl⟩
  · rw [h, if_neg Bool.false_ne_true, if_neg Bool.false_ne_true]
    refine .kind ?_
    cases left with
    | nil => exact .spanFrom hstart fun _ _ hspan => .pure (congrArg₂ Stmt.expr hspan hfirst)
    | cons k ls =>
      rw [Token.next, List.headD_cons]
      split
      · next op hop =>
        refine .advance (counts_of_augmented? hop n) (.check (by rw [hfirst.isAugmentedTarget]) ?_)
        refine mirrors_expr.bind fun right right' left' hright _ => ?_
        refine .spanFrom hstart fun _ _ hspan => .pure ?_
        have hboth : Expr.Same π (.binary (first.span.cover right.span) op first right)
            (.binary (first'.span.cover right'.span) op first' right') :=
          (congr (congrArg₂ (Expr.binary · op) (hfirst.span.cover hright.span) hfirst) hright :)
        exact (congr (congrArg₂ Stmt.assign hspan (Expr.mapSpans_eq (.cons hfirst .nil))) hboth :)
      · exact .spanFrom hstart fun _ _ hspan => .pure (congrArg₂ Stmt.expr hspan hfirst)
  · refine .rounds fun i j hi hj => ?_
    rw [List.length_cons] at hi hj
    refine (mirrors_assigned (by omega) (by omega)).bind fun r r' left' hr _ => ?_
    refine (mirrors_checkTargets (.cons hfirst hr.1)).bind fun _ _ left'' _ _ => ?_
    refine .spanFrom hstart fun _ _ hspan => .pure ?_
    exact (congr (congrArg₂ Stmt.assign hspan (Expr.mapSpans_eq (.cons hfirst hr.1))) hr.2 :)

theorem mirrors_simple : Mirrors π n ks simple simple (Stmt.Same π) n := by
  unfold simple
  refine .get fun rest rest' c d hline => ?_
  rw [OnLine.kind_of_ahead hline.left, OnLine.kind_of_ahead hline.right]
  dsimp only
  cases ks with
  | nil => exact mirrors_exprs_nil.bind fun _ _ _ he _ => he.elim
  | cons k ls =>
    have hstart := hline.token.start
    rw [Token.next, List.headD_cons]
    split
    · exact .advance rfl (.spanFrom hstart fun _ _ hspan => .pure (congrArg Stmt.pass hspan))
    · exact .advance rfl (.spanFrom hstart fun _ _ hspan => .pure (congrArg Stmt.brk hspan))
    · exact .advance rfl (.spanFrom hstart fun _ _ hspan => .pure (congrArg Stmt.cont hspan))
    · refine .advance rfl (.get fun rest rest' c d hline => ?_)
      rw [Cursor.sees, Cursor.sees, Cursor.sees, Cursor.sees, OnLine.kind_of_ahead hline.left,
        OnLine.kind_of_ahead hline.right]
      split
      · exact .spanFrom hstart fun _ _ hspan => .pure (congrArg (Stmt.ret · none) hspan)
      · refine mirrors_exprs.bind fun e e' left he _ => .spanFrom hstart fun _ _ hspan => .pure ?_
        exact congrArg₂ (fun span e => Stmt.ret span (some e)) hspan he
    · exact .failAt
    · exact mirrors_exprStmt hstart

theorem mirrors_moreSimple {i j : Nat} (hi : ks.length < i) (hj : ks.length < j) :
    Mirrors π n ks (moreSimple i) (moreSimple j) (List.Forall₂ (Stmt.Same π)) n := by
  induction i generalizing j ks with
  | zero => exact absurd hi (Nat.not_lt_zero _)
  | succ i ih =>
    obtain ⟨j, rfl⟩ : ∃ m, j = m + 1 := ⟨j - 1, by omega⟩
    unfold moreSimple
    refine .accept trivial (by simp) rfl (fun ls hls => ?_) (.pure .nil)
    subst hls
    rw [List.length_cons] at hi hj
    rw [if_pos rfl, if_pos rfl]
    refine .sees ?_
    split
    · exact .pure .nil
    · refine mirrors_simple.bind fun s s' left hs hleft => ?_
      refine (ih (by omega) (by omega)).bind fun ss ss' left' hss _ => ?_
      exact .pure (.cons hs hss)

/-- A line of simple statements is read alike above whatever else, and has its brackets in pairs. -/
theorem simpleLine_alike {rest rest' : List Kind} {c c' d : Cursor}
    (hline : OnLine π ks rest rest' c d) {ss : List Stmt} (h : simpleLine c = .ok ss c') :
    ∃ ss' d', simpleLine d = .ok ss' d' ∧ List.Forall₂ (Stmt.Same π) ss ss' ∧ Token.Counts 0 ks 0 ∧
      c' = c.after (ks.length + 1) ∧ d' = d.after (ks.length + 1) := by
  unfold simpleLine at h
  obtain ⟨s, c₁, hs, h⟩ := EStateM.bind_eq_ok.1 h
  obtain ⟨_, _, hrounds, h⟩ := EStateM.bind_eq_ok.1 h
  cases hrounds
  obtain ⟨more, c₂, hmore, h⟩ := EStateM.bind_eq_ok.1 h
  obtain ⟨_, c₃, hexpect, h⟩ := EStateM.bind_eq_ok.1 h
  cases h
  obtain ⟨s', d₁, used, left, hs', hsame, rfl, hused, hline₁, hc₁, hd₁⟩ :=
    mirrors_simple (n := 0) hline hs
  obtain ⟨more', d₂, used', left', hmore', hsames, rfl, hused', hline₂, hc₂, hd₂⟩ :=
    mirrors_moreSimple (n := 0) hline₁.length_lt.1 hline₁.length_lt.2 hline₁ hmore
  -- The end of the line is only read where nothing of the line is left.
  have hkind := OnLine.kind_of_ahead hline₂.left
  rw [(expect_eq_ok (k := .newline) trivial hexpect).1] at hkind
  cases left' with
  | cons k ls => exact absurd hkind.symm (hline₂.inner k List.mem_cons_self).2.1
  | nil =>
    have hexpected {c : Cursor} {rest : List Kind} (hc : c.ahead = [] ++ .newline :: rest) :
        expect .newline c = .ok () c.advance := by
      refine expect_of_sees ?_
      rw [Cursor.sees_of_ahead hc]
      rfl
    have hafter (c : Cursor) : ((c.after used.length).after used'.length).advance =
        c.after ((used ++ (used' ++ [])).length + 1) := by
      rw [List.append_nil, List.length_append, Cursor.after_add, Cursor.after_add]
      rfl
    rw [hexpected hline₂.left] at hexpect
    cases hexpect
    refine ⟨s' :: more', d₂.advance, ?_, .cons hsame hsames, ?_, ?_, ?_⟩
    · have hrounds : rounds d₁ = .ok (d₁.bound + 1) d₁ := rfl
      unfold simpleLine
      rw [EStateM.bind_ok hs', EStateM.bind_ok hrounds, EStateM.bind_ok hmore',
        EStateM.bind_ok (hexpected hline₂.right)]
      rfl
    · rw [List.append_nil]
      exact hused.append hused'
    · rw [← hafter, ← hc₁, ← hc₂]
    · rw [← hafter, ← hd₁, ← hd₂]

end StagedScript

/-!
## Headers on a line

What stands between the first word of a header and its colon is read from one line: the targets of a
loop and the parameters of a function.
-/

namespace StagedScript

open Parse
open Token (Kind)

variable {π : Places} {n : Nat} {ks : List Kind}

/-! ## Targets of loops -/

theorem mirrors_moreTargets {i j : Nat} (hi : ks.length < i) (hj : ks.length < j) :
    Mirrors π n ks (moreTargets i) (moreTargets j) (List.Forall₂ (Expr.Same π)) n := by
  induction i generalizing j ks with
  | zero => exact absurd hi (Nat.not_lt_zero _)
  | succ i ih =>
    obtain ⟨j, rfl⟩ : ∃ m, j = m + 1 := ⟨j - 1, by omega⟩
    unfold moreTargets
    refine .accept trivial (by simp) rfl (fun ls hls => ?_) (.pure .nil)
    subst hls
    rw [List.length_cons] at hi hj
    rw [if_pos rfl, if_pos rfl]
    refine .sees ?_
    split
    · exact .pure .nil
    · refine (mirrors_exprAbove _).bind fun e e' left he hleft => ?_
      refine (ih (by omega) (by omega)).bind fun es es' left' hes _ => ?_
      exact .pure (.cons he hes)

theorem mirrors_loopTarget : Mirrors π n ks loopTarget loopTarget (Expr.Same π) n := by
  unfold loopTarget
  cases ks with
  | nil => exact .elsewhere fun _ _ => (mirrors_exprAbove_nil _).bind fun _ _ _ he _ => he.elim
  | cons k ks =>
  refine .here fun span span' hspan => (mirrors_exprAbove _).bind fun e e' left he hleft => .sees ?_
  split
  · refine .rounds fun i j hi hj => ?_
    refine (mirrors_moreTargets hi hj).bind fun es es' left' hes _ => ?_
    refine .spanFrom hspan.start fun _ _ htuple => .pure ?_
    exact congrArg₂ Expr.tuple htuple (Expr.mapSpans_eq (.cons he hes))
  · exact .pure he

theorem mirrors_checkTarget {e e' : Expr} (h : e.Same π e') :
    Mirrors π n ks (checkTarget e) (checkTarget e') (fun _ _ => True) n := by
  have hsome : e'.targetFault?.isNone = e.targetFault?.isNone := by
    rw [← Expr.isNone_targetFault? (Span.sent π.left) e, ← h, Expr.isNone_targetFault?]
  unfold checkTarget
  cases he : e.targetFault? with
  | some error => exact .throw
  | none =>
    rw [he, Option.isNone_none, Option.isNone_iff_eq_none] at hsome
    rw [hsome]
    exact .pure trivial

/-! ## Parameters -/

/-- The parameters differ in the spans of their defaults alone, and these correspond. -/
def Param.Same (π : Places) (p q : Param Expr) : Prop :=
  q.mapSpan (Span.sent π.right) = p.mapSpan (Span.sent π.left)

namespace Param

theorem name_mapSpan (f : Span → Span) (p : Param Expr) : (p.mapSpan f).name = p.name := by
  unfold mapSpan
  split <;> rfl

theorem isStar_mapSpan (f : Span → Span) (p : Param Expr) : (p.mapSpan f).isStar = p.isStar := by
  obtain ⟨name, _ | _ | _⟩ := p
  all_goals first | rfl | (rename_i d; cases d <;> rfl)

theorem isStarStar_mapSpan (f : Span → Span) (p : Param Expr) :
    (p.mapSpan f).isStarStar = p.isStarStar := by
  obtain ⟨name, _ | _ | _⟩ := p
  all_goals first | rfl | (rename_i d; cases d <;> rfl)

theorem default?_mapSpan (f : Span → Span) (p : Param Expr) :
    (p.mapSpan f).default? = p.default?.map (Expr.mapSpan f) := by
  obtain ⟨name, _ | _ | _⟩ := p
  all_goals first | rfl | (rename_i d; cases d <;> rfl)

/-- A test that does not look at spans has the same result on parameters that differ in them. -/
theorem any_same {q : Param Expr → Bool} (hq : ∀ f p, q (p.mapSpan f) = q p)
    {ps ps' : List (Param Expr)} (h : List.Forall₂ (Param.Same π) ps ps') :
    ps.any q = ps'.any q := by
  induction h with
  | nil => rfl
  | @cons p p' ps ps' hp _ ih =>
    rw [List.any_cons, List.any_cons, ih, ← hq (Span.sent π.left) p, ← hp, hq]

end Param

theorem mirrors_param {before before' : List (Param Expr)}
    (hbefore : List.Forall₂ (Param.Same π) before before') :
    Mirrors π n ks (param before) (param before') (Param.Same π) n := by
  have hstarStar := Param.any_same Param.isStarStar_mapSpan hbefore
  have hstar := Param.any_same Param.isStar_mapSpan hbefore
  have hdefault := Param.any_same (q := fun p => p.default?.isSome)
    (fun f p => by rw [Param.default?_mapSpan, Option.isSome_map]) hbefore
  have hname (x : String) := Param.any_same (q := fun p => p.name == x)
    (fun f p => by rw [Param.name_mapSpan]) hbefore
  unfold param
  refine .elsewhere fun span span' => .check hstarStar ?_
  refine .accept trivial (by simp) rfl (fun ls hls => ?_) ?_
  · rw [if_pos rfl, if_pos rfl]
    exact .name fun x ls _ => .check (hname x) (.pure rfl)
  · rw [if_neg Bool.false_ne_true, if_neg Bool.false_ne_true]
    refine .accept trivial (by simp) rfl (fun ls hls => ?_) ?_
    · rw [if_pos rfl, if_pos rfl]
      exact .check hstar (.name fun x ls _ => .check (hname x) (.pure rfl))
    · rw [if_neg Bool.false_ne_true, if_neg Bool.false_ne_true]
      refine .check hstar (.name fun x ls _ => ?_)
      refine .accept trivial (by simp) rfl (fun ls hls => ?_) ?_
      · rw [if_pos rfl, if_pos rfl]
        refine mirrors_expr.bind fun e e' left he _ => .check (hname x) (.pure ?_)
        exact congrArg (fun e => (⟨x, .plain (some e)⟩ : Param Expr)) he
      · rw [if_neg Bool.false_ne_true, if_neg Bool.false_ne_true]
        exact .check hdefault (.check (hname x) (.pure rfl))

theorem mirrors_params {i j : Nat} (hi : ks.length < i) (hj : ks.length < j)
    {before before' : List (Param Expr)} (hbefore : List.Forall₂ (Param.Same π) before before') :
    Mirrors π n ks (params i before) (params j before') (List.Forall₂ (Param.Same π)) n := by
  induction i generalizing j ks before before' with
  | zero => exact absurd hi (Nat.not_lt_zero _)
  | succ i ih =>
    obtain ⟨j, rfl⟩ : ∃ m, j = m + 1 := ⟨j - 1, by omega⟩
    unfold params
    refine .sees ?_
    split
    · exact .pure hbefore
    · refine (mirrors_param hbefore).bind fun p p' left hp hleft => ?_
      have hmore := List.rel_append hbefore (.cons hp .nil)
      refine .accept trivial (by simp) rfl (fun ls hls => ?_) ?_
      · subst hls
        rw [List.length_cons] at hleft
        rw [if_pos rfl, if_pos rfl]
        exact ih (by omega) (by omega) hmore
      · rw [if_neg Bool.false_ne_true, if_neg Bool.false_ne_true]
        exact .pure hmore

end StagedScript
