import Mathlib.Data.List.Nodup
import StagedScript.Proofs.Basic
import StagedScript.Record.Fields

/-!
# The names of fields

Names are accepted if they are names of the language and the fields have different ones, without an
underscore in front unless they are renamed.  Renaming keeps the first one of each valid name and
numbers all others by their places.  What it gives is always accepted: no name that is kept has an
underscore in front, and no number is given twice.
-/

namespace StagedScript.Fields

variable {typeName : String} {fields names before : List String} {renamed : Bool}

/-! ## Names that are accepted -/

theorem wordFault?_eq_none_iff {words : List String} :
    wordFault? words = none ↔ ∀ x ∈ words, Word.isName x = true := by
  induction words with
  | nil => simp [wordFault?]
  | cons x xs ih =>
    rw [wordFault?, List.forall_mem_cons, ← ih]
    by_cases hword : Word.isIdentifier x = true
    · by_cases hreserved : Word.isReserved x = true
      · simp [Word.isName, hword, hreserved]
      · simp [Word.isName, hword, hreserved]
    · simp [Word.isName, hword]

theorem fieldFault?_eq_none_iff : fieldFault? renamed before fields = none ↔ fields.Nodup ∧
    (∀ x ∈ fields, x ∉ before) ∧ (renamed = false → ∀ x ∈ fields, underscored x = false) := by
  induction fields generalizing before with
  | nil => simp [fieldFault?]
  | cons x xs ih =>
    by_cases hunderscore : underscored x = true ∧ renamed = false
    · obtain ⟨hx, rfl⟩ := hunderscore
      simp [fieldFault?, hx]
    have hplain : (underscored x && !renamed) = false := by
      cases renamed <;> simp_all
    by_cases hbefore : x ∈ before
    · simp [fieldFault?, hplain, hbefore]
    have hrest : (∀ y ∈ xs, y ∉ x :: before) ↔ x ∉ xs ∧ ∀ y ∈ xs, y ∉ before := by
      simp only [List.mem_cons, not_or]
      constructor
      · intro h
        exact ⟨fun hx => (h x hx).1 rfl, fun y hy => (h y hy).2⟩
      · rintro ⟨hx, hxs⟩ y hy
        exact ⟨fun heq => hx (heq ▸ hy), hxs y hy⟩
    have hunderscored : (renamed = false → ∀ y ∈ x :: xs, underscored y = false) ↔
        (renamed = false → ∀ y ∈ xs, underscored y = false) := by
      cases renamed <;> simp_all
    have hstep : fieldFault? renamed before (x :: xs) = fieldFault? renamed (x :: before) xs := by
      simp [fieldFault?, hplain, hbefore]
    rw [hstep, ih, hrest, hunderscored, List.nodup_cons, List.forall_mem_cons]
    tauto

/-- The names that are accepted. -/
theorem fault?_eq_none_iff : fault? typeName fields renamed = none ↔
    (∀ x ∈ typeName :: fields, Word.isName x = true) ∧ fields.Nodup ∧
      (renamed = false → ∀ x ∈ fields, underscored x = false) := by
  rw [fault?, Option.or_eq_none_iff, wordFault?_eq_none_iff, fieldFault?_eq_none_iff]
  simp

/-! ## Numbers for names -/

theorem toList_numbered (i : Nat) : (numbered i).toList = '_' :: Nat.toDigits 10 i := by
  simp [numbered]

theorem underscored_numbered (i : Nat) : underscored (numbered i) = true := by
  simp [underscored, toList_numbered]

theorem numbered_injective : Function.Injective numbered := append_number_injective "_"

/-- A name with no digit behind its first character is not a number. -/
theorem numbered_ne (i : Nat) {x : String} (hx : (x.toList[1]?).any Char.isDigit = false) :
    numbered i ≠ x := by
  rintro rfl
  obtain ⟨c, cs, hcs⟩ : ∃ c cs, Nat.toDigits 10 i = c :: cs :=
    List.exists_cons_of_ne_nil Nat.toDigits_ne_nil
  have hdigit : c.isDigit = true :=
    Nat.isDigit_of_mem_toDigits (n := i) (b := 10) (by decide) (by decide) (by simp [hcs])
  simp [toList_numbered, hcs, hdigit] at hx

/-- No reserved word has an underscore in front. -/
theorem isReserved_of_underscored {x : String} (hx : underscored x = true) :
    Word.isReserved x = false := by
  have hreserved : ∀ y ∈ Word.reserved, underscored y = false := by decide
  have hword : x ∉ Word.reserved := by
    intro hmem
    rw [hreserved x hmem] at hx
    cases hx
  simp [Word.isReserved, hword]

/-- A number can stand as a name, although not as one that is valid for a field. -/
theorem isName_numbered (i : Nat) : Word.isName (numbered i) = true := by
  have hdigits : ∀ c ∈ Nat.toDigits 10 i, Word.isPart c = true := by
    intro c hc
    have hdigit : c.isDigit = true := Nat.isDigit_of_mem_toDigits (by decide) (by decide) hc
    simp [Word.isPart, Char.isAlphanum, hdigit]
  have hword : Word.isIdentifier (numbered i) = true := by
    simpa [Word.isIdentifier, toList_numbered, Word.isStart] using hdigits
  rw [Word.isName, hword, isReserved_of_underscored (underscored_numbered i)]
  rfl

theorem isValid_numbered (i : Nat) : isValid (numbered i) = false := by
  simp [isValid, underscored_numbered]

/-! ## Renamed names -/

theorem getElem?_renameFrom (index : Nat) (before names : List String) (i : Nat) :
    (renameFrom index before names)[i]? = names[i]?.map fun x =>
      if isValid x = true ∧ x ∉ before ∧ x ∉ names.take i then x else numbered (index + i) := by
  induction names generalizing index before i with
  | nil => rfl
  | cons y ys ih =>
    cases i with
    | zero => simp [renameFrom]
    | succ i =>
      have hindex : index + 1 + i = index + (i + 1) := by omega
      rw [renameFrom, List.getElem?_cons_succ, List.getElem?_cons_succ, ih, hindex]
      refine Option.map_congr fun x _ => ?_
      refine if_congr ?_ rfl rfl
      rw [List.take_succ_cons, List.mem_cons, List.mem_cons]
      tauto

/-- At every place stands the name that was given if it is valid and has not come before, and else
the number of the place. -/
theorem getElem?_rename (names : List String) (i : Nat) :
    (rename names)[i]? = names[i]?.map fun x =>
    if isValid x = true ∧ x ∉ names.take i then x else numbered i := by
  have hfrom := getElem?_renameFrom 0 [] names i
  simpa [← rename.eq_def] using hfrom

theorem length_rename (names : List String) : (rename names).length = names.length := by
  have hfrom (index : Nat) (before names : List String) :
      (renameFrom index before names).length = names.length := by
    induction names generalizing index before with
    | nil => rfl
    | cons x xs ih => rw [renameFrom, List.length_cons, List.length_cons, ih]
  exact hfrom 0 [] names

/-- A renamed name is one that was kept, or the number of its place. -/
theorem kept_or_numbered {i : Nat} {x : String} (hx : (rename names)[i]? = some x) :
    (isValid x = true ∧ names[i]? = some x ∧ x ∉ names.take i) ∨ x = numbered i := by
  rw [getElem?_rename] at hx
  obtain ⟨y, hy, hyx⟩ := Option.map_eq_some_iff.1 hx
  split at hyx
  · next hkept =>
    subst hyx
    exact .inl ⟨hkept.1, hy, hkept.2⟩
  · exact .inr hyx.symm

theorem rename_eq_self_iff : rename names = names ↔
    ∀ i x, names[i]? = some x → (isValid x = true ∧ x ∉ names.take i) ∨ x = numbered i := by
  constructor
  · intro h i x hx
    rw [← h] at hx
    rcases kept_or_numbered hx with ⟨hvalid, -, hnew⟩ | hnumbered
    · exact .inl ⟨hvalid, hnew⟩
    · exact .inr hnumbered
  · intro h
    refine List.ext_getElem? fun i => ?_
    rw [getElem?_rename]
    cases hx : names[i]? with
    | none => rfl
    | some x =>
      rcases h i x hx with hkept | rfl
      · rw [Option.map_some, if_pos hkept]
      · rw [Option.map_some, if_neg fun hkept => by simp [isValid_numbered] at hkept]

/-- No name comes twice out of renaming: a kept one is the first of its kind, a number is no valid
name, and two places have two numbers. -/
theorem nodup_rename (names : List String) : (rename names).Nodup := by
  refine List.pairwise_iff_getElem.2 fun i j hi hj hij heq => ?_
  have hx : (rename names)[i]? = some (rename names)[j] := by rw [List.getElem?_eq_getElem hi, heq]
  have hy : (rename names)[j]? = some (rename names)[j] := List.getElem?_eq_getElem hj
  generalize (rename names)[j] = x at hx hy
  rcases kept_or_numbered hx with ⟨hvalid, hxi, -⟩ | hi
  · rcases kept_or_numbered hy with ⟨-, -, hnew⟩ | rfl
    · exact hnew (List.mem_of_getElem? ((List.getElem?_take_of_lt hij).trans hxi))
    · simp [isValid_numbered] at hvalid
  · rcases kept_or_numbered hy with ⟨hvalid, -, -⟩ | hj
    · rw [hi, isValid_numbered] at hvalid
      cases hvalid
    · have hsame := numbered_injective (hi.symm.trans hj)
      omega

theorem not_mem_take {i : Nat} {x : String} (hnames : names.Nodup) (hx : names[i]? = some x) :
    x ∉ names.take i := by
  intro hmem
  obtain ⟨j, hj⟩ := List.mem_iff_getElem?.1 hmem
  rw [List.getElem?_take] at hj
  split at hj
  · next hji =>
    have hlt := (List.getElem?_eq_some_iff.1 hj).1
    have hsame := (List.getElem?_inj hlt hnames).1 (hj.trans hx.symm)
    omega
  · cases hj

theorem isValid_iff {x : String} :
    isValid x = true ↔ Word.isName x = true ∧ underscored x = false := by
  simp [isValid]

/-- Whatever the names were, what comes out of renaming is accepted. -/
theorem fault?_rename (htype : Word.isName typeName = true) (names : List String) :
    fault? typeName (rename names) true = none := by
  refine fault?_eq_none_iff.2 ⟨List.forall_mem_cons.2 ⟨htype, fun x hx => ?_⟩, nodup_rename names,
    nofun⟩
  obtain ⟨i, hi⟩ := List.mem_iff_getElem?.1 hx
  rcases kept_or_numbered hi with ⟨hvalid, -, -⟩ | rfl
  · exact (isValid_iff.1 hvalid).1
  · exact isName_numbered i

theorem rename_rename (names : List String) : rename (rename names) = rename names := by
  refine rename_eq_self_iff.2 fun i x hx => ?_
  rcases kept_or_numbered hx with ⟨hvalid, -, -⟩ | hnumbered
  · exact .inl ⟨hvalid, not_mem_take (nodup_rename names) hx⟩
  · exact .inr hnumbered

/-- Names are accepted as they are if there is nothing to rename. -/
theorem fault?_eq_none_iff_rename (htype : Word.isName typeName = true) :
    fault? typeName names false = none ↔ rename names = names ∧
    ∀ x ∈ names, underscored x = false := by
  rw [fault?_eq_none_iff, List.forall_mem_cons]
  constructor
  · rintro ⟨⟨-, hnames⟩, hnodup, hplain⟩
    have hplain := hplain rfl
    refine ⟨rename_eq_self_iff.2 fun i x hx => .inl ⟨?_, not_mem_take hnodup hx⟩, hplain⟩
    have hmem := List.mem_of_getElem? hx
    exact isValid_iff.2 ⟨hnames x hmem, hplain x hmem⟩
  · rintro ⟨hsame, hplain⟩
    refine ⟨⟨htype, fun x hx => ?_⟩, hsame ▸ nodup_rename names, fun _ => hplain⟩
    obtain ⟨i, hi⟩ := List.mem_iff_getElem?.1 hx
    rcases rename_eq_self_iff.1 hsame i x hi with ⟨hvalid, -⟩ | rfl
    · exact (isValid_iff.1 hvalid).1
    · exact isName_numbered i

/-- Renaming always repairs names.

* As many names come out as go in.
* A name is kept exactly if it is valid and has not come before; at all other places stands an
  underscore with the number of the place behind it.
* Under the name of a type that is a name of the language, what comes out is accepted as renamed.
* What is renamed stays when it is renamed again.
* Names are accepted as they are exactly if renaming leaves them and none of them has an underscore
  in front. -/
theorem rename_repairs {typeName : String} (htype : Word.isName typeName = true)
    (names : List String) :
    (rename names).length = names.length ∧
    (∀ i (hi : i < names.length), (rename names)[i]? =
      some (if isValid names[i] = true ∧ names[i] ∉ names.take i then names[i] else "_" ++
        toString i)) ∧
    fault? typeName (rename names) true = none ∧
    rename (rename names) = rename names ∧
    (fault? typeName names false = none ↔
      rename names = names ∧ ∀ x ∈ names, x.toList.head? ≠ some '_') := by
  refine ⟨length_rename names, fun i hi => ?_, fault?_rename htype names, rename_rename names, ?_⟩
  · rw [getElem?_rename, List.getElem?_eq_getElem hi]
    rfl
  · rw [fault?_eq_none_iff_rename htype]
    simp [underscored]

/-- A name that is repeated, one with an underscore, a word that is no name, a reserved one, an
empty one and one that looks like a number. -/
def sampleNames : List String := ["abc", "def", "ghi", "abc", "_x", "9z", "", "_1", "ok"]

theorem sampleNames_repaired : Word.isName "P" = true ∧
    rename sampleNames = ["abc", "_1", "ghi", "_3", "_4", "_5", "_6", "_7", "ok"] ∧
    fault? "P" (rename sampleNames) true = none ∧
    rename (rename sampleNames) = rename sampleNames ∧
    fault? "P" sampleNames false ≠ none := by
  have htype : Word.isName "P" = true := by decide
  obtain ⟨-, -, haccepted, hagain, hplain⟩ := rename_repairs htype sampleNames
  have hrenamed : rename sampleNames =
      ["abc", "_1", "ghi", "_3", "_4", "_5", "_6", "_7", "ok"] := by
    decide +kernel
  refine ⟨htype, hrenamed, haccepted, hagain, fun hnone => ?_⟩
  have hsame := (hplain.1 hnone).1
  rw [hrenamed] at hsame
  exact absurd hsame (by decide)

end StagedScript.Fields
