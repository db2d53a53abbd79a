import StagedScript.Proofs.Records.Exact
import StagedScript.Proofs.Showing.Guarded
import StagedScript.Run.Operator

/-!
# Filled templates

A percent template is filled if it is made of plain characters, doubled percent signs and
conversions, with an argument for every conversion and a conversion for every argument.  The
arguments are taken from the left, each of them once, so that templates are filled part by part.
-/

namespace StagedScript

namespace Value

/-- The value is a number or a truth value. -/
def IsNumber : Value → Prop
  | bool _ | int _ | float _ => True
  | _ => False

/-- The digits of the whole part of a number; other values have none. -/
def wholeText : Value → String
  | bool b => if b then "1" else "0"
  | int n => toString n.toInt
  | float x => toString x.toFloat.toInt64.toInt
  | _ => ""

end Value

namespace Percent

/-- What a conversion takes of its argument: the text that shows what it is, the text that is
printed, or the whole part of a number. -/
inductive Conversion where
  | repr | text | decimal | integer

/-- The letter of a conversion. -/
def Conversion.letter : Conversion → Char
  | repr => 'r'
  | text => 's'
  | decimal => 'd'
  | integer => 'i'

/-- A part of a template; a conversion has its argument with it. -/
inductive Part where
  | literal (c : Char) (plain : c ≠ '%')
  | percent
  | conversion (k : Conversion) (v : Value)

namespace Part

/-- The part as it stands in the template. -/
def chars : Part → List Char
  | literal c _ => [c]
  | percent => ['%', '%']
  | conversion k _ => ['%', k.letter]

/-- The argument that the part takes. -/
def argument? : Part → Option Value
  | conversion _ v => some v
  | _ => none

/-- Whole numbers are made of numbers alone. -/
def Fits : Part → Prop
  | conversion .decimal v | conversion .integer v => v.IsNumber
  | _ => True

/-- What stands for the part in the text. -/
def text (s : Store) : Part → List Char
  | literal c _ => [c]
  | percent => ['%']
  | conversion .repr v => (s.repr v).toList
  | conversion .text v => (s.text v).toList
  | conversion .decimal v | conversion .integer v => v.wholeText.toList

end Part

/-- The parts are those of a template and its arguments: they are the characters of the template,
and their arguments are all the arguments, in order. -/
structure Parts (template : List Char) (args : List Value) (parts : List Part) : Prop where
  chars : template = parts.flatMap Part.chars
  arguments : args = parts.filterMap Part.argument?
  fits : ∀ p ∈ parts, p.Fits

namespace Parts

variable {template template' : List Char} {args args' : List Value} {parts parts' : List Part}
    {p : Part}

theorem nil : Parts [] [] [] := ⟨rfl, rfl, nofun⟩

theorem cons (hp : p.Fits) (h : Parts template args parts) :
    Parts (p.chars ++ template) (p.argument?.toList ++ args) (p :: parts) where
  chars := by rw [List.flatMap_cons, ← h.chars]
  arguments := by
    rw [List.filterMap_cons, h.arguments]
    cases p.argument? <;> rfl
  fits := List.forall_mem_cons.2 ⟨hp, h.fits⟩

theorem append (h : Parts template args parts) (h' : Parts template' args' parts') :
    Parts (template ++ template') (args ++ args') (parts ++ parts') where
  chars := by rw [List.flatMap_append, h.chars, h'.chars]
  arguments := by rw [List.filterMap_append, h.arguments, h'.arguments]
  fits := List.forall_mem_append.2 ⟨h.fits, h'.fits⟩

end Parts

/-! ## One conversion -/

section

variable {s : Store} {v : Value} {vs : List Value} {k : Conversion} {c : Char} {text : String}
  {template out : List Char}

/-- Numbers have a whole part, and other values have none. -/
theorem integer_shape (s : Store) (v : Value) :
    (v.IsNumber ∧ (s.shape v).integer = .ok v.wholeText) ∨
      (¬ v.IsNumber ∧ ∃ type, (s.shape v).integer = .error type) := by
  have hcontainer (c : Container) : ∃ type, (s.shape c.value).integer = .error type := by
    obtain ⟨depth, -, hshape⟩ := s.exists_shape_container
    rw [hshape]
    cases c <;> exact ⟨_, rfl⟩
  cases v with
  | bool b => exact .inl ⟨trivial, rfl⟩
  | int n => exact .inl ⟨trivial, rfl⟩
  | float x => exact .inl ⟨trivial, rfl⟩
  | list r => exact .inr ⟨id, hcontainer (.list r)⟩
  | dict r => exact .inr ⟨id, hcontainer (.dict r)⟩
  | record r => exact .inr ⟨id, hcontainer (.record r)⟩
  | _ => exact .inr ⟨id, _, rfl⟩

theorem text_argument (s : Store) (v : Value) : (Run.templateArgument s v).text () = s.text v := by
  change ((s.shape v).argument fun _ => (s.shape v).repr).text () = (s.shape v).text
  cases s.shape v <;> rfl

/-- A conversion that its argument fits gives the text of the argument. -/
theorem convert_letter (h : (Part.conversion k v).Fits) :
    convert k.letter (Run.templateArgument s v) =
      .ok (String.ofList ((Part.conversion k v).text s)) := by
  have hinteger (hv : v.IsNumber) : (Run.templateArgument s v).integer = .ok v.wholeText := by
    obtain ⟨-, h⟩ | ⟨hno, -⟩ := integer_shape s v
    · exact h
    · exact absurd hv hno
  cases k with
  | repr => exact congrArg Except.ok String.ofList_toList.symm
  | text => exact congrArg Except.ok ((text_argument s v).trans String.ofList_toList.symm)
  | decimal | integer =>
    simp only [Conversion.letter, convert, hinteger h, Part.text, String.ofList_toList]

/-- Values that are no numbers have no whole part. -/
theorem convert_letter_of_not_fits (h : ¬ (Part.conversion k v).Fits) :
    ∃ fault, convert k.letter (Run.templateArgument s v) = .error fault := by
  have hinteger (hv : ¬ v.IsNumber) : ∃ type, (Run.templateArgument s v).integer = .error type := by
    obtain ⟨hyes, -⟩ | ⟨-, h⟩ := integer_shape s v
    · exact absurd hyes hv
    · exact h
  cases k with
  | repr | text => exact absurd trivial h
  | decimal | integer =>
    obtain ⟨type, htype⟩ := hinteger h
    exact ⟨.typing (.formatNotNumber type), by simp only [Conversion.letter, convert, htype]⟩

theorem convert_of_ne_letter {a : Argument} (h : ∀ k, c ≠ Conversion.letter k) :
    convert c a = .error (.domain (.formatCharacter c)) := by
  rw [convert]
  · exact h .repr
  · exact h .text
  · exact h .decimal
  · exact h .integer

/-- A conversion has one of the four letters, and an argument that fits it. -/
theorem exists_of_convert (h : convert c (Run.templateArgument s v) = .ok text) :
    ∃ k, c = Conversion.letter k ∧ (Part.conversion k v).Fits ∧
      text.toList = (Part.conversion k v).text s := by
  by_cases hletter : ∃ k, c = Conversion.letter k
  · obtain ⟨k, rfl⟩ := hletter
    by_cases hfits : (Part.conversion k v).Fits
    · rw [convert_letter hfits] at h
      cases h
      exact ⟨k, rfl, hfits, String.toList_ofList⟩
    · obtain ⟨fault, hfault⟩ := convert_letter_of_not_fits (s := s) hfits
      rw [hfault] at h
      cases h
  · rw [convert_of_ne_letter (not_exists.1 hletter)] at h
    cases h

/-! ## Whole templates -/

/-- The template of parts is filled with what stands for them. -/
theorem fill_of_parts {parts : List Part} (h : Parts template vs parts) :
    fill template (vs.map (Run.templateArgument s)) = .ok (parts.flatMap (Part.text s)) := by
  obtain ⟨rfl, rfl, hfits⟩ := h
  induction parts with
  | nil => rfl
  | cons p parts ih =>
    obtain ⟨hp, hparts⟩ := List.forall_mem_cons.1 hfits
    have hrest := ih hparts
    rw [List.flatMap_cons, List.flatMap_cons, List.filterMap_cons]
    cases p with
    | literal c plain =>
      have hplain : ∀ d ∈ [c], d ≠ '%' := by simpa using plain
      have hfill : fill ([c] ++ parts.flatMap Part.chars)
          ((parts.filterMap Part.argument?).map (Run.templateArgument s)) = _ := fill_plain hplain
      rw [hrest] at hfill
      exact hfill
    | percent =>
      change fill ('%' :: '%' :: parts.flatMap Part.chars) _ = _
      rw [fill]
      change Except.map _ (fill _ ((parts.filterMap Part.argument?).map _)) = _
      rw [hrest]
      rfl
    | conversion k v =>
      have hletter : k.letter ≠ '%' := by cases k <;> decide
      change fill ('%' :: k.letter :: parts.flatMap Part.chars)
        (Run.templateArgument s v :: (parts.filterMap Part.argument?).map
          (Run.templateArgument s)) = _
      rw [fill, convert_letter hp, hrest]
      · change Except.ok ((String.ofList _).toList ++ _) = _
        rw [String.toList_ofList]
      · exact hletter

/-- A template that is filled is made of parts, each argument being that of one of them. -/
theorem exists_parts (h : fill template (vs.map (Run.templateArgument s)) = .ok out) :
    ∃ parts, Parts template vs parts ∧ out = parts.flatMap (Part.text s) := by
  generalize hargs : vs.map (Run.templateArgument s) = args at h
  fun_induction fill template args generalizing vs out with
  | case1 =>
    cases h
    exact ⟨[], List.map_eq_nil_iff.1 hargs ▸ .nil, rfl⟩
  | case2 | case4 | case5 => cases h
  | case3 cs args ih =>
    cases hrest : fill cs args with
    | error e =>
      rw [hrest] at h
      cases h
    | ok rest =>
      rw [hrest] at h
      cases h
      obtain ⟨parts, hparts, rfl⟩ := ih hargs hrest
      exact ⟨.percent :: parts, hparts.cons (p := .percent) trivial, rfl⟩
  | case6 c cs a args hc ih =>
    obtain ⟨text, htext, h⟩ := Except.bind_eq_ok.1 h
    obtain ⟨rest, hrest, h⟩ := Except.bind_eq_ok.1 h
    cases h
    obtain ⟨v, vs, rfl, rfl, rfl⟩ := List.map_eq_cons_iff.1 hargs
    obtain ⟨k, rfl, hfits, hk⟩ := exists_of_convert htext
    obtain ⟨parts, hparts, rfl⟩ := ih rfl hrest
    exact ⟨.conversion k v :: parts, hparts.cons hfits, by rw [List.flatMap_cons, hk]⟩
  | case7 c cs args _ hend hnone hmore ih =>
    have hc : c ≠ '%' := ne_percent hend hnone hmore
    cases hrest : fill cs args with
    | error e =>
      rw [hrest] at h
      cases h
    | ok rest =>
      rw [hrest] at h
      cases h
      obtain ⟨parts, hparts, rfl⟩ := ih hargs hrest
      exact ⟨.literal c hc :: parts, hparts.cons (p := .literal c hc) trivial, rfl⟩

end

/-! ## Texts as templates -/

/-- A text with each percent sign doubled. -/
def doubled (cs : List Char) : List Char := cs.flatMap fun c => if c = '%' then ['%', '%'] else [c]

/-- The part that stands for a character. -/
def Part.ofChar (c : Char) : Part := if h : c = '%' then percent else literal c h

theorem parts_doubled (cs : List Char) : Parts (doubled cs) [] (cs.map Part.ofChar) := by
  induction cs with
  | nil => exact .nil
  | cons c cs ih =>
    have hchar : (Part.ofChar c).Fits ∧ (Part.ofChar c).argument? = none ∧
        (Part.ofChar c).chars = if c = '%' then ['%', '%'] else [c] := by
      unfold Part.ofChar
      split_ifs <;> exact ⟨trivial, rfl, rfl⟩
    obtain ⟨hfits, hargument, hchars⟩ := hchar
    have h := ih.cons hfits
    rw [hargument, hchars] at h
    exact h

theorem text_doubled (s : Store) (cs : List Char) :
    (cs.map Part.ofChar).flatMap (Part.text s) = cs := by
  induction cs with
  | nil => rfl
  | cons c cs ih =>
    have hchar : (Part.ofChar c).text s = [c] := by
      unfold Part.ofChar
      split_ifs with hc
      · rw [hc]
        rfl
      · rfl
    rw [List.map_cons, List.flatMap_cons, ih, hchar]
    rfl

end Percent

namespace Run

open Percent (Part Parts doubled)

/-- A template is filled from a tuple if it has parts with the items of the tuple for arguments, and
the store is left as it is. -/
theorem format_eq_ok_iff {s t : Store} {template out : String} {i : Nat} {vs : List Value} :
    format template (.tuple i vs) s = .ok out t ↔ t = s ∧ ∃ parts, Parts template.toList vs parts ∧
      out.toList = parts.flatMap (Part.text s) := by
  have hview : view (templateArguments · (.tuple i vs)) s =
      .ok (vs.map (templateArgument s)) s := rfl
  unfold format
  rw [EStateM.bind_ok hview, EStateM.bind_eq_ok]
  constructor
  · rintro ⟨text, u, hfill, hout⟩
    obtain ⟨htext, rfl⟩ := ofExcept_eq_ok.1 hfill
    cases hout
    obtain ⟨parts, hparts, rfl⟩ := Percent.exists_parts htext
    exact ⟨rfl, parts, hparts, String.toList_ofList⟩
  · rintro ⟨rfl, parts, hparts, hout⟩
    refine ⟨_, _, ofExcept_eq_ok.2 ⟨Percent.fill_of_parts hparts, rfl⟩, ?_⟩
    rw [← hout, String.ofList_toList]
    rfl

/-- Filling a template uses each argument once.

* It succeeds if the template is made of plain characters, doubled percent signs and conversions,
  the conversions take all the arguments in order, and those that want a number get one.  The text
  is made of what stands for the parts, in order.
* Of two templates that are filled the one behind the other is filled from the arguments of both.
* A text whose percent signs are doubled is filled without arguments, and comes out. -/
theorem format_uses_once (s : Store) (template : String) (vs : List Value) (i j k : Nat) :
    (∀ out t, format template (.tuple i vs) s = .ok out t ↔ t = s ∧ ∃ parts : List Part,
      template.toList = parts.flatMap Part.chars ∧ vs = parts.filterMap Part.argument? ∧
      (∀ p ∈ parts, p.Fits) ∧ out.toList = parts.flatMap (Part.text s)) ∧
    (∀ template' vs' out out', format template (.tuple i vs) s = .ok out s →
      format template' (.tuple j vs') s = .ok out' s →
      format (template ++ template') (.tuple k (vs ++ vs')) s = .ok (out ++ out') s) ∧
    ∀ text : String, format (String.ofList (doubled text.toList)) (.tuple i []) s = .ok text s := by
  refine ⟨fun out t => ?_, fun template' vs' out out' h h' => ?_, fun text => ?_⟩
  · rw [format_eq_ok_iff]
    refine and_congr_right fun _ => exists_congr fun parts => ⟨?_, ?_⟩
    · rintro ⟨⟨hchars, harguments, hfits⟩, hout⟩
      exact ⟨hchars, harguments, hfits, hout⟩
    · rintro ⟨hchars, harguments, hfits, hout⟩
      exact ⟨⟨hchars, harguments, hfits⟩, hout⟩
  · obtain ⟨-, parts, hparts, hout⟩ := format_eq_ok_iff.1 h
    obtain ⟨-, parts', hparts', hout'⟩ := format_eq_ok_iff.1 h'
    refine format_eq_ok_iff.2 ⟨rfl, parts ++ parts', ?_, ?_⟩
    · rw [String.toList_append]
      exact hparts.append hparts'
    · rw [String.toList_append, hout, hout', List.flatMap_append]
  · refine format_eq_ok_iff.2 ⟨rfl, text.toList.map Part.ofChar, ?_,
      (Percent.text_doubled s _).symm⟩
    rw [String.toList_ofList]
    exact Percent.parts_doubled _

/-- Two templates of all kinds of parts, filled the one behind the other. -/
theorem sampleTemplates_filled :
    format ("%s=%r, %d" ++ " %%%i") (.tuple 2 [.str 3 "a", .str 4 "b", .bool true, .int 7]) .empty =
      .ok ("a='b', 1" ++ " %7") .empty := by
  obtain ⟨-, happend, -⟩ :=
    format_uses_once .empty "%s=%r, %d" [.str 3 "a", .str 4 "b", .bool true] 0 1 2
  exact happend " %%%i" [.int 7] "a='b', 1" " %7" rfl rfl

end Run

end StagedScript
