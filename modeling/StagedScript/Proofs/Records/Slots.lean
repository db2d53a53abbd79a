import Mathlib.Data.List.Nodup
import StagedScript.Proofs.Basic
import StagedScript.Proofs.Tables
import StagedScript.Record.Type

/-!
# The slots of records

Arguments by name are put into slots one after the other, and each time it is looked up whether the
slot has been filled.  The names of arguments are distinct, and so are the slots that they mean:
that look finds nothing but the arguments by place, which have been compared with already.
-/

namespace StagedScript.RecordType

variable {t : RecordType} {key : String} {i n : Nat}

/-! ## The slots that names mean -/

theorem getElem?_fieldIndex? (h : t.fieldIndex? key = some i) : t.fields[i]? = some key := by
  obtain ⟨hi, hkey, -⟩ := List.findIdx?_eq_some_iff_getElem.1 h
  rw [List.getElem?_eq_getElem hi, eq_of_beq hkey]

theorem lt_arity_of_fieldIndex? (h : t.fieldIndex? key = some i) : i < t.arity :=
  (List.getElem?_eq_some_iff.1 (getElem?_fieldIndex? h)).1

theorem isSome_fieldIndex? : (t.fieldIndex? key).isSome ↔ key ∈ t.fields := by
  unfold fieldIndex?
  rw [List.findIdx?_isSome, List.any_beq']
  exact List.contains_iff_mem

/-- Different names mean different slots. -/
theorem fieldIndex?_inj {key' : String} (h : t.fieldIndex? key = some i)
    (h' : t.fieldIndex? key' = some i) : key = key' :=
  Option.some.inj ((getElem?_fieldIndex? h).symm.trans (getElem?_fieldIndex? h'))

/-- The first field of a name lies behind the first fields if none of them has the name. -/
theorem le_fieldIndex? (h : t.fieldIndex? key = some i) : n ≤ i ↔ key ∉ t.fields.take n := by
  obtain ⟨hi, hkey, hbefore⟩ := List.findIdx?_eq_some_iff_getElem.1 h
  rw [List.mem_take_iff_getElem]
  constructor
  · rintro hn ⟨j, hj, heq⟩
    exact hbefore j (by omega) (beq_iff_eq.2 heq)
  · intro hnot
    by_contra hlt
    exact hnot ⟨i, by omega, eq_of_beq hkey⟩

/-- Where names are distinct, each field's name means the field's slot. -/
theorem fieldIndex?_of_nodup (hfields : t.fields.Nodup) (h : t.fields[i]? = some key) :
    t.fieldIndex? key = some i := by
  obtain ⟨hi, hkey⟩ := List.getElem?_eq_some_iff.1 h
  refine List.findIdx?_eq_some_iff_getElem.2 ⟨hi, beq_iff_eq.2 hkey, fun j hj heq => ?_⟩
  have hji := hfields.getElem_inj_iff.1 ((eq_of_beq heq).trans hkey.symm)
  exact Nat.ne_of_lt hj hji

/-! ## Filling slots -/

section Fill

variable {slots : List Value} {v : Value} {es : List (String × Value)}

theorem length_fill (slots : List Value) (values : List (String × Value)) :
    (t.fill slots values).length = slots.length := by
  unfold fill
  induction values generalizing slots with
  | nil => rfl
  | cons e es ih =>
    rw [List.foldl_cons, ih]
    obtain ⟨key, v⟩ := e
    dsimp only
    split
    · rfl
    · exact List.length_set

theorem fill_cons_of_none (h : t.fieldIndex? key = none) :
    t.fill slots ((key, v) :: es) = t.fill slots es := by
  unfold fill
  rw [List.foldl_cons]
  dsimp only
  rw [h]

theorem fill_cons_of_some (h : t.fieldIndex? key = some i) :
    t.fill slots ((key, v) :: es) = t.fill (slots.set i v) es := by
  unfold fill
  rw [List.foldl_cons]
  dsimp only
  rw [h]

end Fill

/-! ## Arguments by name -/

/-- Checks the names of arguments: each is that of a field, and of none that an argument by place
fills. -/
def checkNames (t : RecordType) (filled : Nat) : List (String × Value) → Except Fault Unit
  | [] => .ok ()
  | (key, _) :: es =>
    match t.fieldIndex? key with
    | none => .error (.typing (.unknownKeyword t.name key))
    | some i =>
      if i < filled then .error (.typing (.manyValues t.name key)) else checkNames t filled es

/-- The slots that names mean, other than the first `filled`, are empty. -/
def Free (t : RecordType) (filled : Nat) (slots : List (Option Value)) (keys : List String) :
    Prop :=
  ∀ key ∈ keys, ∀ i, t.fieldIndex? key = some i → filled ≤ i → slots.getD i none = none

theorem Free.start (t : RecordType) (args : List Value) (count : Nat) (keys : List String) :
    t.Free args.length (args.map some ++ List.replicate count none) keys := by
  intro key _ i _ hi
  have hlength : (args.map some).length ≤ i := by rwa [List.length_map]
  rw [List.getD_eq_getElem?_getD, List.getElem?_append_right hlength, List.getElem?_replicate]
  split <;> rfl

/-- A slot that one name means is meant by none of the others. -/
theorem Free.set {slots : List (Option Value)} {keys : List String}
    (h : t.Free n slots (key :: keys)) (hkey : key ∉ keys) (hindex : t.fieldIndex? key = some i)
    (v : Option Value) :
    t.Free n (slots.set i v) keys := by
  intro key' hkey' j hj hn
  have hne : i ≠ j := by
    rintro rfl
    exact hkey (fieldIndex?_inj hindex hj ▸ hkey')
  rw [List.getD_eq_getElem?_getD, List.getElem?_set_ne hne, ← List.getD_eq_getElem?_getD]
  exact h key' (List.mem_cons_of_mem _ hkey') j hj hn

/-- No slot is found filled but by place: what is put into the slots is what the checked names
mean. -/
theorem place_eq {slots : List (Option Value)} {es : List (String × Value)}
    (hes : (Entries.keys es).Nodup) (hfree : t.Free n slots (Entries.keys es)) :
    (do return held (← t.place n slots es)) =
      (do t.checkNames n es; return t.fill (held slots) es) := by
  induction es generalizing slots with
  | nil => rfl
  | cons e es ih =>
    obtain ⟨key, v⟩ := e
    obtain ⟨hnot, hes⟩ := List.nodup_cons.1 hes
    rw [place, checkNames]
    cases hindex : t.fieldIndex? key with
    | none => rfl
    | some i =>
      dsimp only
      by_cases hi : i < n
      · rw [if_pos (by simp [hi]), if_pos hi]
        rfl
      · have hempty : slots.getD i none = none :=
          hfree key List.mem_cons_self i hindex (Nat.not_lt.1 hi)
        rw [hempty, if_neg (by simp [hi]), if_neg hi, ih hes (hfree.set hnot hindex (some v)),
          fill_cons_of_some hindex, held, List.map_set]
        rfl

/-- The slots of a record that is made from arguments: there are as many as there are arguments, and
those by name are checked against those by place alone. -/
theorem slotsOf_eq (args : List Value) (named : Table Value) : t.slotsOf args named =
    if args.length + named.size = t.arity then do
      t.checkNames args.length named.entries
      return t.fill (args ++ List.replicate named.size .none_) named.entries
    else .error (t.arityFault (args.length + named.size)) := by
  have hslots : held (args.map some ++ List.replicate named.size none) =
      args ++ List.replicate named.size .none_ := by
    rw [held, List.map_append, List.map_map, List.map_replicate]
    exact congrArg (· ++ _) (List.map_id _)
  rw [slotsOf, place_eq named.nodup (.start t args named.size _), hslots]

end StagedScript.RecordType
