import StagedScript.Proofs.Reading.LineEnds
import StagedScript.Proofs.Reading.Reindented

/-!
# Reading texts again

A text whose lines are indented anew is read as the same tokens; its strings are closed where they
were.
-/

/-!
## Where strings are closed

A long string is read character by character: what the next one means depends on the few in front of
it only.
-/

namespace StagedScript.Quoted

/-! ## Long strings -/

/-- What stands in front of a character of a long string. -/
inductive Mode where
  /-- Complete items. -/
  | items
  /-- A backslash. -/
  | escape
  /-- A quote that starts an item. -/
  | one
  /-- Two of them. -/
  | two
deriving DecidableEq

namespace Mode

/-- What stands in front of the character behind `c`, unless the string ends with it. -/
def next (quote c : Char) : Mode → Mode
  | items => if c = quote then one else if c = '\\' then escape else items
  | escape => items
  | one => if c = quote then two else items
  | two => items

end Mode

/-- From a character of a long string on, the string is closed in front of `rest`. -/
inductive Closes (quote : Char) : Mode → List Char → List Char → Prop
  | close {rest : List Char} : Closes quote .two (quote :: rest) rest
  | next {m : Mode} {c : Char} {cs rest : List Char} : ¬ (m = .escape ∧ c = '\n') →
      ¬ (m = .two ∧ c = quote) → Closes quote (m.next quote c) cs rest →
      Closes quote m (c :: cs) rest

variable {quote c : Char} {cs rest : List Char} {m : Mode}

namespace Closes

theorem length_lt (h : Closes quote m cs rest) : rest.length < cs.length := by
  induction h with
  | close => exact Nat.lt_succ_self _
  | next _ _ _ ih => exact Nat.lt_succ_of_lt ih

/-- The string ends with the character, or goes on behind it. -/
theorem uncons (h : Closes quote m (c :: cs) rest) : m = .two ∧ c = quote ∧ cs = rest ∨
    ¬ (m = .escape ∧ c = '\n') ∧ ¬ (m = .two ∧ c = quote) ∧
    Closes quote (m.next quote c) cs rest := by
  generalize hx : c :: cs = x at h
  cases h with
  | close =>
    cases hx
    exact .inl ⟨rfl, rfl, rfl⟩
  | next hnewline hlast h =>
    cases hx
    exact .inr ⟨hnewline, hlast, h⟩

theorem plain (h : Closes quote .items (c :: cs) rest) (hquote : c ≠ quote) (hescape : c ≠ '\\') :
    Closes quote .items cs rest := by
  rcases h.uncons with ⟨⟨⟩, -⟩ | ⟨-, -, h⟩
  rwa [Mode.next, if_neg hquote, if_neg hescape] at h

/-- Characters that mean nothing to a string are passed over. -/
theorem of_plain {blanks : List Char} (hblanks : ∀ c ∈ blanks, c ≠ quote ∧ c ≠ '\\')
    (h : Closes quote .items (blanks ++ cs) rest) : Closes quote .items cs rest := by
  induction blanks with
  | nil => exact h
  | cons c blanks ih =>
    obtain ⟨⟨hquote, hescape⟩, hblanks⟩ := List.forall_mem_cons.1 hblanks
    exact ih hblanks (h.plain hquote hescape)

end Closes

/-- Behind a line feed stand complete items, as behind a carriage return. -/
theorem Mode.next_line (hquote : c ≠ quote) (hescape : c ≠ '\\') (m : Mode) :
    m.next quote c = .items := by
  cases m with
  | items => rw [Mode.next, if_neg hquote, if_neg hescape]
  | escape => rfl
  | one => rw [Mode.next, if_neg hquote]
  | two => rfl

/-- A long string is closed where it ends. -/
theorem closes_of_long {n : Nat} (hquote : quote ≠ '\\') (h : long quote cs = .closed n) :
    Closes quote .items cs (cs.drop (n + 3)) := by
  fun_induction long quote cs generalizing n
  case case1 cs k hitem hlt ih =>
    obtain ⟨n, hn, rfl⟩ := Extent.eq_closed_of_after h
    have hrest := ih hn
    rw [List.drop_drop] at hrest
    rw [show n + (k + 1) + 3 = k + 1 + (n + 3) by omega]
    generalize cs.drop (k + 1 + (n + 3)) = rest at hrest
    cases cs with
    | nil => cases hitem
    | cons c cs =>
      unfold item? at hitem
      dsimp only at hitem
      by_cases hescape : c = '\\'
      · rw [if_pos hescape] at hitem
        cases cs with
        | nil => cases hitem
        | cons d cs =>
          dsimp only at hitem
          split at hitem
          · cases hitem
          · next hd =>
            cases hitem
            refine .next (by simp) (by simp) ?_
            rw [Mode.next, hescape, if_neg hquote.symm, if_pos rfl]
            exact .next (by simp [hd]) (by simp) hrest
      · rw [if_neg hescape] at hitem
        by_cases hc : c = quote
        · rw [if_pos hc] at hitem
          subst hc
          cases cs with
          | nil => cases hitem
          | cons d cs =>
            cases cs with
            | nil =>
              dsimp only at hitem
              split at hitem
              · next hd =>
                cases hitem
                refine .next (by simp) (by simp) ?_
                rw [Mode.next, if_pos rfl]
                refine .next (by simp) (by simp) ?_
                rw [Mode.next, if_neg hd]
                exact hrest
              · cases hitem
            | cons e cs =>
              dsimp only at hitem
              refine .next (by simp) (by simp) ?_
              rw [Mode.next, if_pos rfl]
              refine .next (by simp) (by simp) ?_
              split at hitem
              · next hd =>
                cases hitem
                rw [Mode.next, if_neg hd]
                exact hrest
              · next hd =>
                split at hitem
                · next he =>
                  cases hitem
                  rw [Mode.next, if_pos (not_not.1 hd)]
                  exact .next (by simp) (by simp [he]) hrest
                · cases hitem
        · rw [if_neg hc] at hitem
          cases hitem
          refine .next (by simp) (by simp) ?_
          rw [Mode.next, if_neg hc, if_neg hescape]
          exact hrest
  case case3 cs hfront hitem =>
    obtain ⟨ds, rfl⟩ := List.isPrefixOf_iff_prefix.1 hfront
    cases h
    refine .next (by simp) (by simp) ?_
    rw [Mode.next, if_pos rfl]
    refine .next (by simp) (by simp) ?_
    rw [Mode.next, if_pos rfl]
    exact .close
  all_goals cases h

/-! ## Short strings -/

/-- A short string stands on one line, and is closed by its last character. -/
theorem short_closed {n : Nat} (h : short quote cs = .closed n) :
    ∃ body more, cs = body ++ quote :: more ∧ body.length = n ∧ '\n' ∉ body ∧
      ∀ rest, short quote (body ++ quote :: rest) = .closed n := by
  fun_induction short quote cs generalizing n
  case case2 =>
    cases h
    refine ⟨[], [], rfl, rfl, by simp, fun rest => ?_⟩
    cases rest <;> simp [short]
  case case5 d cs =>
    cases h
    refine ⟨[], d :: cs, rfl, rfl, by simp, fun rest => ?_⟩
    cases rest <;> simp [short]
  case case7 d cs hnewline hc ih =>
    obtain ⟨k, hk, rfl⟩ := Extent.eq_closed_of_after h
    obtain ⟨body, more, rfl, rfl, hbody, hrest⟩ := ih hk
    refine ⟨'\\' :: d :: body, more, rfl, rfl, by simp [Ne.symm hnewline, hbody], fun rest => ?_⟩
    rw [List.cons_append, List.cons_append, short, if_neg hc, if_pos rfl, if_neg hnewline, hrest]
    rfl
  case case9 c d cs hc hescape hnewline ih =>
    obtain ⟨k, hk, rfl⟩ := Extent.eq_closed_of_after h
    obtain ⟨body, more, hcs, rfl, hbody, hrest⟩ := ih hk
    refine ⟨c :: body, more, by rw [hcs]; rfl, rfl, by simp [Ne.symm hnewline, hbody],
      fun rest => ?_⟩
    have hmore := hrest rest
    rw [List.cons_append]
    cases hbehind : body ++ quote :: rest with
    | nil => simp at hbehind
    | cons b bs =>
      rw [hbehind] at hmore
      rw [short, if_neg hc, if_neg hescape, if_neg hnewline, hmore]
      rfl
  all_goals cases h

end StagedScript.Quoted

/-!
## Reading texts that are indented anew

A text that is indented anew is read as the same tokens, but for what strings over several lines
stand for.
-/

namespace StagedScript

open Lexeme (stops)

/-- The tokens are the same, but for what strings stand for. -/
inductive Token.Kind.Akin : Token.Kind → Token.Kind → Prop
  | refl (k : Token.Kind) : Akin k k
  | str (text text' : String) : Akin (.str text) (.str text')

theorem Token.Kind.Akin.newline_iff {k k' : Token.Kind} (h : k.Akin k') :
    k = .newline ↔ k' = .newline := by
  cases h with
  | refl => rfl
  | str => simp

theorem Lexeme.mem_stops {e : Char} : e ∈ stops ↔ ¬ plain e := by
  simp only [stops, plain, isBlank, List.mem_cons, List.not_mem_nil, or_false, Bool.or_eq_false_iff,
    beq_eq_false_iff_ne]
  tauto

/-- No token but a string looks behind the characters that no word, number or sign has. -/
theorem Lexeme.read_stop {c e : Char} (hc : plain c) (hquote : ¬ (c = '"' ∨ c = '\''))
    (he : e ∈ stops) (cs more : List Char) : read c (cs ++ e :: more) = read c cs := by
  rw [read_plain hc, read_plain hc, if_neg hquote, if_neg hquote, word_stop he, number_stop he,
    symbol_stop he]

theorem Lexeme.read_quote {quote : Char} (hquote : quote = '"' ∨ quote = '\'') (cs : List Char) :
    read quote cs = quoted quote cs := by
  have hplain : plain quote := by
    rcases hquote with rfl | rfl <;> exact ⟨by decide, by decide, by decide, by decide, by decide⟩
  rw [read_plain hplain, if_neg (by rcases hquote with rfl | rfl <;> decide),
    if_neg (by rcases hquote with rfl | rfl <;> decide), if_pos hquote]

/-- A token starts with the end of a line, or with a character that is skipped nowhere. -/
theorem Lexeme.plain_of_token {c : Char} {cs : List Char} {k : Token.Kind} {n : Nat}
    (h : read c cs = (.token k, n)) :
    c = '\n' ∨ (c = '\r' ∧ ∃ more, cs = '\n' :: more) ∨ plain c := by
  by_cases hnewline : c = '\n'
  · exact .inl hnewline
  by_cases hreturn : c = '\r'
  · subst hreturn
    exact .inr ((newline_of_isBlank (by decide) h).resolve_left hnewline |> .inl)
  refine .inr (.inr ⟨(read_token h).1, ?_, ?_, hnewline, hreturn⟩)
  · rintro rfl
    unfold read at h
    rw [if_neg (by decide), if_pos rfl] at h
    cases h
  · rintro rfl
    unfold read backslash at h
    rw [if_neg (by decide), if_neg (by decide), if_pos rfl] at h
    split at h <;> cases h

namespace Reindent.Inside

variable {ρ : Reindent} {c : Char} {cs x y : List Char} {n : Nat}

/-- The same characters on both sides. -/
theorem uncons_append {front : List Char} (h : ρ.Inside (front ++ x) y) (hfront : '\n' ∉ front)
    (hlast : front.getLast? ≠ some '\r') (hlength : ρ.oldBehind.length ≤ x.length) :
    ∃ y', y = front ++ y' ∧ ρ.Inside x y' := by
  induction front generalizing y with
  | nil => exact ⟨y, rfl, h⟩
  | cons c front ih =>
    rw [List.mem_cons, not_or] at hfront
    have hno (hc : c = '\r') (more : List Char) : front ++ x ≠ '\n' :: more := by
      cases front with
      | nil =>
        subst hc
        exact absurd rfl hlast
      | cons d front =>
        intro hd
        exact hfront.2 (by rw [(List.cons.inj hd).1]; exact List.mem_cons_self)
    have hle : ρ.oldBehind.length ≤ (front ++ x).length := by
      rw [List.length_append]
      omega
    rw [List.cons_append] at h
    obtain ⟨y₁, rfl, h₁⟩ := h.uncons (Ne.symm hfront.1) hno hle
    obtain ⟨y', rfl, h'⟩ := ih h₁ hfront.2 (by
      cases front with
      | nil => simp
      | cons d front => rwa [List.getLast?_cons_cons] at hlast)
    exact ⟨y', rfl, h'⟩

/-- The next character decides whether there are three quotes on both sides. -/
theorem isPrefixOf_eq {ps : List Char} (hps : ∀ e ∈ stops, e ∉ ps) (h : ρ.Inside x y) :
    ps.isPrefixOf y = ps.isPrefixOf x := by
  obtain ⟨line, x', y', rfl, rfl, -, hstops, -⟩ := h.front
  rw [isPrefixOf_stop (hps _ Lexeme.newline_mem_stops)]
  rcases hstops with rfl | ⟨e, he, more, rfl⟩
  · rw [List.append_nil]
  · rw [isPrefixOf_stop (hps e he)]

/-- A word, a number or a sign is the same on both sides. -/
theorem plain (h : ρ.Inside (c :: cs) y) (hc : Lexeme.plain c) (hquote : ¬ (c = '"' ∨ c = '\''))
    {l : Lexeme} (hread : Lexeme.read c cs = (l, n)) :
    ∃ ds, y = c :: ds ∧ Lexeme.read c ds = (l, n) ∧
      ρ.Inside (cs.drop n) (ds.drop n) := by
  obtain ⟨line, x', y', hx, rfl, -, hstops, hinside⟩ := h.front
  cases line with
  | nil =>
    rw [List.nil_append] at hx
    subst hx
    obtain ⟨e, he, more, hmore⟩ := hstops.resolve_left (List.cons_ne_nil c cs)
    obtain ⟨rfl, -⟩ := List.cons.inj hmore
    exact absurd hc (Lexeme.mem_stops.1 he)
  | cons d line =>
    obtain ⟨rfl, rfl⟩ := List.cons.inj hx
    have hline : Lexeme.read c line = (l, n) := by
      rw [← hread]
      rcases hstops with rfl | ⟨e, he, more, rfl⟩
      · exact congrArg (Lexeme.read c) (List.append_nil line).symm
      · exact (Lexeme.read_stop hc hquote he line more).symm
    have hn : n ≤ line.length := by
      have hle := Lexeme.read_le c line
      rwa [hline] at hle
    refine ⟨line ++ '\n' :: y', rfl, ?_, ?_⟩
    · rw [Lexeme.read_stop hc hquote Lexeme.newline_mem_stops, hline]
    · have hrest := hinside (c :: line.take n) (line.drop n)
        (by rw [List.cons_append, List.take_append_drop])
      have hdrop : List.drop n (line.append x') = line.drop n ++ x' :=
        List.drop_append_of_le_length hn
      rwa [hdrop, List.drop_append_of_le_length hn]

/-- A long string that is closed on both sides. -/
theorem closes {quote : Char} (hquote : quote = '"' ∨ quote = '\'') (h : ρ.Inside x y)
    {m : Quoted.Mode} {rest rest' : List Char} (hx : Quoted.Closes quote m x rest)
    (hy : Quoted.Closes quote m y rest') (hlength : ρ.oldBehind.length ≤ rest.length) :
    ρ.Inside rest rest' := by
  have hne {c : Char} (hc : c ≠ '"' ∧ c ≠ '\'') : c ≠ quote := by
    rcases hquote with rfl | rfl
    · exact hc.1
    · exact hc.2
  have hnewline : '\n' ≠ quote := hne (by decide)
  have hreturn : '\r' ≠ quote := hne (by decide)
  have hplain {blanks : List Char} (hblanks : ∀ c ∈ blanks, Text.isBlank c = true) (c : Char)
      (hc : c ∈ blanks) : c ≠ quote ∧ c ≠ '\\' :=
    ⟨hne ⟨Text.ne_of_isBlank (hblanks c hc) (by decide), Text.ne_of_isBlank (hblanks c hc)
      (by decide)⟩, Text.ne_of_isBlank (hblanks c hc) (by decide)⟩
  -- Behind a line feed nothing of the margins belongs to an item that has been begun.
  have hline {margin z rest : List Char} {m : Quoted.Mode}
      (hmargin : ∀ c ∈ margin, Text.isBlank c = true)
      (h : Quoted.Closes quote m ('\n' :: (margin ++ z)) rest) :
      Quoted.Closes quote .items z rest := by
    rcases h.uncons with ⟨-, hlast, -⟩ | ⟨-, -, h⟩
    · exact absurd hlast hnewline
    · rw [Quoted.Mode.next_line hnewline (by decide)] at h
      exact h.of_plain (hplain hmargin)
  have hnew : ∀ c ∈ ρ.new, Text.isBlank c = true :=
    fun c hc => Lexeme.isBlank_text (ρ.new_blank c hc)
  induction h generalizing m with
  | behind => exact absurd hx.length_lt (Nat.not_lt.2 hlength)
  | char _ _ _ ih =>
    rcases hx.uncons with ⟨rfl, rfl, rfl⟩ | ⟨-, hlast, hx⟩
    · rcases hy.uncons with ⟨-, -, rfl⟩ | ⟨-, hlast, -⟩
      · assumption
      · exact absurd ⟨rfl, rfl⟩ hlast
    · rcases hy.uncons with ⟨rfl, rfl, -⟩ | ⟨-, -, hy⟩
      · exact absurd ⟨rfl, rfl⟩ hlast
      · exact ih hx hy
  | @ret x y h ih =>
    obtain ⟨more, rfl⟩ := h.newline_head
    rcases hx.uncons with ⟨-, hlast, -⟩ | ⟨-, -, hx⟩
    · exact absurd hlast hreturn
    · rw [Quoted.Mode.next_line hreturn (by decide)] at hx
      rcases hy.uncons with ⟨-, hlast, -⟩ | ⟨hescape, -, hy⟩
      · exact absurd hlast hnewline
      · rw [Quoted.Mode.next_line hnewline (by decide)] at hy
        refine ih hx (.next (by simp) (by simp) ?_)
        rwa [Quoted.Mode.next_line hnewline (by decide)]
  | line h ih =>
    exact ih (hline (fun c hc => Lexeme.isBlank_text (ρ.old_blank c hc)) hx) (hline hnew hy)
  | empty hblanks h ih => exact ih (hline (fun c hc => (hblanks.blank c hc).1) hx) (hline hnew hy)

/-- A long string may stand for another text, but is one on both sides. -/
theorem long {quote : Char} (hquote : quote = '"' ∨ quote = '\'') {body : List Char}
    (h : ρ.Inside (quote :: quote :: quote :: body) y) (hbody : Quoted.long quote body = .closed n)
    (hlength : ρ.oldBehind.length + (n + 3) ≤ body.length)
    (hfine : ∀ d ds, y = d :: ds → (Lexeme.read d ds).1.Fine) :
    ∃ ds text n', y = quote :: ds ∧ Lexeme.read quote ds = (.token (.str text), n' + 5) ∧
      ρ.Inside (body.drop (n + 3)) (ds.drop (n' + 5)) := by
  have hescape : quote ≠ '\\' := by
    rintro rfl
    simp at hquote
  have hfront : '\n' ∉ [quote, quote, quote] ∧ [quote, quote, quote].getLast? ≠ some '\r' := by
    rcases hquote with rfl | rfl <;> decide
  obtain ⟨body', rfl, h'⟩ := uncons_append (ρ := ρ) h hfront.1 hfront.2 (by omega)
  have hread := Lexeme.read_quote hquote (quote :: quote :: body')
  have hfine' := hfine quote (quote :: quote :: body') rfl
  cases hbody' : Quoted.long quote body' with
  | unclosed n' =>
    have hliteral : Quoted.literal quote (quote :: quote :: quote :: body') = .broken (n' + 3) := by
      unfold Quoted.literal
      rw [if_pos (by simp [List.isPrefixOf])]
      simp [hbody']
    rw [hread, Lexeme.quoted, hliteral] at hfine'
    exact hfine'.elim
  | closed n' =>
    have hliteral : Quoted.literal quote (quote :: quote :: quote :: body') =
        .whole (Quoted.decode (body'.take n')) (n' + 6) := by
      unfold Quoted.literal
      rw [if_pos (by simp [List.isPrefixOf])]
      simp [hbody']
    refine ⟨quote :: quote :: body', String.ofList (Quoted.decode (body'.take n')), n', rfl, ?_, ?_⟩
    · rw [hread, Lexeme.quoted, hliteral]
      rfl
    · exact h'.closes hquote (Quoted.closes_of_long hescape hbody)
        (Quoted.closes_of_long hescape hbody') (by rw [List.length_drop]; omega)

/-- A short string is the same on both sides. -/
theorem short {quote : Char} (hquote : quote = '"' ∨ quote = '\'') (h : ρ.Inside (quote :: cs) y)
    (hlong : [quote, quote, quote].isPrefixOf (quote :: cs) = false)
    (hshort : Quoted.short quote cs = .closed n)
    (hlength : ρ.oldBehind.length + (n + 1) ≤ cs.length) :
    ∃ ds, y = quote :: ds ∧
      Lexeme.read quote ds = (.token (.str (String.ofList (Quoted.decode (cs.take n)))), n + 1) ∧
      ρ.Inside (cs.drop (n + 1)) (ds.drop (n + 1)) := by
  obtain ⟨body, more, rfl, rfl, hbody, hclosed⟩ := Quoted.short_closed hshort
  have hstops : ∀ e ∈ stops, e ∉ [quote, quote, quote] := by
    rcases hquote with rfl | rfl <;> simp [stops]
  have hnewline : '\n' ∉ quote :: (body ++ [quote]) := by
    have hquote : '\n' ≠ quote := by rcases hquote with rfl | rfl <;> decide
    simp [hquote, hbody]
  have hlast : (quote :: (body ++ [quote])).getLast? ≠ some '\r' := by
    rw [← List.cons_append, List.getLast?_concat]
    rcases hquote with rfl | rfl <;> decide
  have hfront := h.isPrefixOf_eq hstops
  have hfront : quote :: (body ++ quote :: more) = quote :: (body ++ [quote]) ++ more := by simp
  rw [hfront] at h
  obtain ⟨more', rfl, h'⟩ := uncons_append h hnewline hlast (by
    rw [List.length_append, List.length_cons] at hlength
    omega)
  have htext : quote :: (body ++ [quote]) ++ more' = quote :: (body ++ quote :: more') := by simp
  rw [htext, hlong] at hfront
  have hdrop (z : List Char) : (body ++ quote :: z).drop (body.length + 1) = z := by simp
  refine ⟨body ++ quote :: more', htext, ?_, ?_⟩
  · rw [Lexeme.read_quote hquote, Lexeme.quoted, Quoted.literal, if_neg (by rw [hfront]; simp)]
    simp only [List.drop_succ_cons, List.drop_zero]
    rw [hclosed]
    simp
  · rwa [hdrop, hdrop]

/-- What is read as a token is read as one of the same kind on both sides. -/
theorem token {k : Token.Kind} (h : ρ.Inside (c :: cs) y) (hread : Lexeme.read c cs = (.token k, n))
    (hlength : ρ.oldBehind.length + n ≤ cs.length)
    (hfine : ∀ d ds, y = d :: ds → (Lexeme.read d ds).1.Fine) :
    ∃ d ds k' n', y = d :: ds ∧ Lexeme.read d ds = (.token k', n') ∧ k.Akin k' ∧
      (k ≠ .newline → ρ.Inside (cs.drop n) (ds.drop n')) ∧
      (k = .newline → ρ.AtStart (cs.drop n) (ds.drop n')) := by
  rcases Lexeme.plain_of_token hread with rfl | ⟨rfl, more, rfl⟩ | hplain
  · cases hread
    obtain ⟨ds, rfl, h'⟩ := h.uncons_newline (by omega)
    exact ⟨'\n', ds, .newline, 0, rfl, rfl, .refl _, fun hk => absurd rfl hk, fun _ => h'⟩
  · cases hread
    obtain ⟨ds, rfl, h'⟩ := h.uncons_return (by simp only [List.length_cons] at hlength; omega)
    exact ⟨'\n', ds, .newline, 0, rfl, rfl, .refl _, fun hk => absurd rfl hk, fun _ => h'⟩
  · have hk : k ≠ .newline := by
      rintro rfl
      rcases (Lexeme.read_token hread).2 with ⟨-, hne, -⟩ | ⟨-, ⟨rfl, -⟩ | ⟨rfl, -⟩⟩
      · exact hne rfl
      · exact hplain.2.2.2.1 rfl
      · exact hplain.2.2.2.2 rfl
    by_cases hquote : c = '"' ∨ c = '\''
    · have hliteral := hread
      rw [Lexeme.read_quote hquote, Lexeme.quoted, Quoted.literal] at hliteral
      by_cases hlong : [c, c, c].isPrefixOf (c :: cs) = true
      · obtain ⟨body, hbody⟩ := List.isPrefixOf_iff_prefix.1 hlong
        obtain rfl : cs = c :: c :: body := (List.cons.inj hbody).2.symm
        rw [if_pos hlong] at hliteral
        simp only [List.drop_succ_cons, List.drop_zero] at hliteral
        cases hextent : Quoted.long c body with
        | unclosed m =>
          rw [hextent] at hliteral
          cases hliteral
        | closed m =>
          rw [hextent] at hliteral
          cases hliteral
          obtain ⟨ds, text, n', rfl, hread', h'⟩ := h.long hquote hextent (by
            simp only [List.length_cons] at hlength
            omega) hfine
          exact ⟨c, ds, _, _, rfl, hread', .str _ _, fun _ => h', fun hk' => absurd hk' hk⟩
      · rw [if_neg hlong] at hliteral
        simp only [List.drop_succ_cons, List.drop_zero] at hliteral
        cases hextent : Quoted.short c cs with
        | unclosed m =>
          rw [hextent] at hliteral
          cases hliteral
        | closed m =>
          rw [hextent] at hliteral
          cases hliteral
          obtain ⟨ds, rfl, hread', h'⟩ := h.short hquote (Bool.eq_false_iff.2 hlong) hextent hlength
          exact ⟨c, ds, _, _, rfl, hread', .refl _, fun _ => h', fun hk' => absurd hk' hk⟩
    · obtain ⟨ds, rfl, hread', h'⟩ := h.plain hplain hquote hread
      exact ⟨c, ds, k, n, rfl, hread', .refl k, fun _ => h', fun hk' => absurd hk' hk⟩

end Reindent.Inside

/-! ## Pieces -/

theorem Token.fine_of_scanFrom {start room : Nat} {c : Char} {cs : List Char}
    (h : (scanFrom start (room + 1) (c :: cs)).2 = []) : (Lexeme.read c cs).1.Fine := by
  cases hread : Lexeme.read c cs with
  | mk l n =>
  cases l with
  | gap | token => trivial
  | bad | badNumber =>
    rw [scanFrom, hread] at h
    cases h

namespace Reindent

variable {ρ : Reindent}

/-- Pieces side by side: the tokens are the same but for what strings stand for, and those at the
starts of lines are indented as the lines are.  The flag tells whether a line starts in front of the
first ones. -/
inductive Alongside (ρ : Reindent) : Bool → List Piece → List Piece → Prop
  | nil {fresh : Bool} : Alongside ρ fresh [] []
  | ends {fresh : Bool} {p q : Piece} {ps qs : List Piece} : p.kind = .newline → q.kind = .newline →
      Alongside ρ true ps qs → Alongside ρ fresh (p :: ps) (q :: qs)
  | token {fresh : Bool} {p q : Piece} {ps qs : List Piece} : p.kind ≠ .newline →
      p.kind.Akin q.kind → (fresh = true → ρ.Indents p.gap q.gap) → Alongside ρ false ps qs →
      Alongside ρ fresh (p :: ps) (q :: qs)

/-- From the start of a line on, or from within one. -/
def From (ρ : Reindent) : Bool → List Char → List Char → Prop
  | true => ρ.AtStart
  | false => ρ.Inside

/-- The gap in front of a token, and where the token is read. -/
theorem From.skips {fresh : Bool} {c : Char} {cs gap y : List Char} {k : Token.Kind} {n : Nat}
    (h : ρ.From fresh (gap ++ c :: cs) y) (hread : Lexeme.read c cs = (.token k, n))
    (hlength : ρ.oldBehind.length + n ≤ cs.length) (hgap : Skips gap (c :: cs)) :
    ∃ gap' y', y = gap' ++ y' ∧ Skips gap' y' ∧ ρ.Inside (c :: cs) y' ∧
      (fresh = true → k = .newline ∨ ρ.Indents gap gap') := by
  cases fresh with
  | true =>
    obtain ⟨gap', y', hy, hgap', h', hindents⟩ := skips_of_atStart hread hlength hgap
      (fun _ _ hmore => fromInside hread hlength hmore) h
    exact ⟨gap', y', hy, hgap', h', fun _ => hindents⟩
  | false =>
    obtain ⟨gap', y', hy, hgap', h', -⟩ := fromInside hread hlength hgap y h
    exact ⟨gap', y', hy, hgap', h', fun hfresh => by cases hfresh⟩

/-- A text that is indented anew and has no lexical errors is made of pieces alongside the old
ones. -/
theorem From.pieces {fresh : Bool} {ps : List Piece} {y : List Char}
    (h : ρ.From fresh (Piece.text ps ++ ρ.oldBehind) y) (hps : Piece.Fit ps ρ.oldBehind)
    (hnil : fresh = true → ps ≠ []) (hlast : ∀ p ∈ ps.getLast?, p.kind ≠ .newline)
    {start room : Nat} (herrors : (Token.scanFrom start (room + 1) y).2 = []) :
    ∃ qs, y = Piece.text qs ++ ρ.newBehind ∧ Piece.Fit qs ρ.newBehind ∧
    ρ.Alongside fresh ps qs := by
  induction ps generalizing fresh y start with
  | nil =>
    cases fresh with
    | true => exact absurd rfl (hnil rfl)
    | false => exact ⟨[], Inside.eq_behind h, trivial, .nil⟩
  | cons p ps ih =>
    obtain ⟨⟨hgap, c, cs, hchars, hread⟩, hps⟩ := hps
    have hlength : ρ.oldBehind.length + cs.length ≤
        (cs ++ (Piece.text ps ++ ρ.oldBehind)).length := by
      simp only [List.length_append]
      omega
    rw [hchars] at hgap
    rw [Piece.text, hchars, List.append_assoc, List.append_assoc] at h
    obtain ⟨gap', y', rfl, hgap', h', hindents⟩ := h.skips hread hlength hgap
    rw [Token.scanFrom_skips hgap'] at herrors
    obtain ⟨d, ds, k', n', rfl, hread', hakin, hinside, hstart⟩ := h'.token hread hlength
      (fun d ds hd => by rw [hd] at herrors; exact Token.fine_of_scanFrom herrors)
    rw [Token.scanFrom_token hread'] at herrors
    have hdrop : List.drop cs.length (cs.append (Piece.text ps ++ ρ.oldBehind)) =
        Piece.text ps ++ ρ.oldBehind := List.drop_left
    rw [hdrop] at hinside hstart
    have hn' : n' ≤ ds.length := by
      have hle := Lexeme.read_le d ds
      rwa [hread'] at hle
    -- Behind the token the texts go on from the start of a line if it ends one.
    have hrest {f : Bool} (h : ρ.From f (Piece.text ps ++ ρ.oldBehind) (ds.drop n'))
        (hnil : f = true → ps ≠ []) := ih h hps hnil (fun q hq => by
          cases ps with
          | nil => cases hq
          | cons r ps => exact hlast q (by rwa [List.getLast?_cons_cons])) herrors
    have hpiece {qs : List Piece} (hy : ds.drop n' = Piece.text qs ++ ρ.newBehind)
        (hqs : Piece.Fit qs ρ.newBehind) :
        gap' ++ d :: ds = Piece.text (⟨gap', k', d :: ds.take n'⟩ :: qs) ++ ρ.newBehind ∧
          Piece.Fit (⟨gap', k', d :: ds.take n'⟩ :: qs) ρ.newBehind := by
      have hds : d :: ds = d :: ds.take n' ++ (Piece.text qs ++ ρ.newBehind) := by
        rw [← hy, List.cons_append, List.take_append_drop]
      refine ⟨?_, ⟨?_, d, ds.take n', rfl, ?_⟩, hqs⟩
      · rw [Piece.text, List.append_assoc, List.append_assoc, ← hds]
      · rw [← hds]
        exact hgap'
      · rw [← hy, List.take_append_drop, List.length_take, Nat.min_eq_left hn', hread']
    by_cases hk : p.kind = .newline
    · obtain ⟨qs, hy, hqs, halong⟩ := hrest (f := true) (hstart hk)
        (fun _ hps => hlast p (by simp [hps]) hk)
      obtain ⟨htext, hfit⟩ := hpiece hy hqs
      exact ⟨_, htext, hfit, .ends hk (hakin.newline_iff.1 hk) halong⟩
    · obtain ⟨qs, hy, hqs, halong⟩ :=
        hrest (f := false) (hinside hk) (fun hfresh => by cases hfresh)
      obtain ⟨htext, hfit⟩ := hpiece hy hqs
      exact ⟨_, htext, hfit, .token hk hakin (fun hfresh => (hindents hfresh).resolve_left hk)
        halong⟩

end Reindent

end StagedScript
