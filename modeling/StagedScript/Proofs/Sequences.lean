import StagedScript.Proofs.Ranges.Measured
import StagedScript.Proofs.Records.Exact
import StagedScript.Run.Builtin

/-!
# The places of the items of a sequence

A text, a tuple, a list, a record and a range are looked at by their length, by indices, by running
through them, and a range by asking what is in it.  All looks agree, as long as the number of items
is an integer of the language.  A longer range still runs through all its items and knows them, but
its length is cut to 64 bits and no index leads into it.
-/

namespace StagedScript

/-- The value has items in a fixed order. -/
def Value.IsSequence (s : Store) : Value → Prop
  | .str _ _ | .tuple _ _ | .list _ => True
  | .range r => r.step ≠ 0
  | .record ref => ∃ type, s.IsInstance ref type
  | _ => False

namespace Run

/-! ## Places -/

/-- An index means a place if it counts from the start, or down from the end. -/
theorem place?_eq_some_iff {i : Int} {n k : Nat} :
    place? i n = some k ↔ n < lengthLimit ∧ k < n ∧ (i = k ∨ i = k - n) := by
  constructor
  · intro h
    simp only [place?, Option.ite_none_right_eq_some, Option.some.injEq] at h
    obtain ⟨⟨hn, hlo, hhi⟩, rfl⟩ := h
    by_cases hneg : i < 0
    · simp only [hneg, if_true] at hlo hhi ⊢
      omega
    · simp only [hneg, if_false] at hlo hhi ⊢
      omega
  · rintro ⟨hn, hk, rfl | rfl⟩
    · exact place?_ofNat hn hk
    · exact place?_sub hn hk

theorem place?_eq_none_iff {i : Int} {n : Nat} :
    place? i n = none ↔ lengthLimit ≤ n ∨ i < -n ∨ n ≤ i := by
  constructor
  · intro h
    by_contra hin
    by_cases hneg : i < 0
    · have hsome := place?_eq_some_iff (i := i) (n := n) (k := (i + n).toNat)
      rw [h] at hsome
      exact absurd (hsome.2 (by omega)) (by simp)
    · have hsome := place?_eq_some_iff (i := i) (n := n) (k := i.toNat)
      rw [h] at hsome
      exact absurd (hsome.2 (by omega)) (by simp)
  · intro hout
    refine Option.eq_none_iff_forall_ne_some.2 fun k hk => ?_
    obtain ⟨hn, hk, rfl | rfl⟩ := place?_eq_some_iff.1 hk <;> omega

/-! ## Items by their places -/

/-- The item at the place that an index means, among members. -/
def memberAt (v : Value) (ms : List Member) (index : Value) : Run Value := do
  let k ← place v ms.length index
  match ms[k]? with
  | some m => m.take
  | none => fail (.index k ms.length)

/-- All looks at the value but by membership go through these members. -/
structure SeenAs (s : Store) (v : Value) (ms : List Member) : Prop where
  members : members v s = .ok ms s
  size : s.size? v = some ms.length
  item : ∀ index, getItem v index s = memberAt v ms index s

theorem itemAt_eq (v index : Value) {items : List Value} {item? : Nat → Option Value}
    (hitem : ∀ k, item? k = items[k]?) :
    itemAt v items.length item? index = memberAt v (items.map .value) index := by
  rw [itemAt, memberAt, List.length_map]
  refine bind_congr fun k => ?_
  rw [List.getElem?_map, hitem]
  cases items[k]? <;> rfl

theorem seenAs_str (s : Store) (identity : Nat) (text : String) :
    SeenAs s (.str identity text) (text.toList.map fun c => .text c.toString) where
  members := rfl
  size := by rw [List.length_map, String.length_toList, Store.size?]
  item index := by
    rw [getItem, memberAt, List.length_map, String.length_toList]
    refine congrFun (bind_congr fun k => ?_) s
    rw [List.getElem?_map]
    cases text.toList[k]? <;> rfl

theorem seenAs_tuple (s : Store) (identity : Nat) (items : List Value) :
    SeenAs s (.tuple identity items) (items.map .value) where
  members := rfl
  size := by rw [List.length_map, Store.size?]
  item index := by rw [getItem, itemAt_eq _ _ fun _ => rfl]

theorem seenAs_list (s : Store) (r : ListRef) :
    SeenAs s (.list r) ((s.listItems r).toList.map .value) where
  members := rfl
  size := by rw [List.length_map, Array.length_toList, Store.size?]
  item index := by
    have hview : view (·.listItems r) s = .ok (s.listItems r) s := rfl
    rw [getItem, EStateM.bind_ok hview, ← Array.length_toList,
      itemAt_eq _ _ fun k => Array.getElem?_toList.symm]

theorem seenAs_record {s : Store} {ref : RecordRef} {type : RecordTypeRef}
    (href : s.IsInstance ref type) :
    SeenAs s (.record ref) ((s.getRecord ref).slots.map .value) where
  members := rfl
  size := by rw [List.length_map, href.slots, Store.size?, Store.typeOf, href.ofType]
  item index := by
    have hview : view (·.getRecord ref) s = .ok (s.getRecord ref) s := rfl
    rw [getItem, EStateM.bind_ok hview, itemAt_eq _ _ fun _ => rfl]

theorem seenAs_range (s : Store) {r : Range} (hstep : r.step ≠ 0) :
    SeenAs s (.range r) (r.items.map fun n => .value (.int n)) where
  members := rfl
  size := by rw [List.length_map, r.length_items hstep, Store.size?]
  item index := by
    have hitem (k : Nat) : (r.get? k).map Value.int = (r.items.map Value.int)[k]? := by
      rw [List.getElem?_map, r.getElem?_items hstep]
    have hlength : r.size = (r.items.map Value.int).length := by
      rw [List.length_map, r.length_items hstep]
    rw [getItem, hlength, itemAt_eq _ _ hitem, List.map_map]
    rfl

theorem exists_seenAs {s : Store} {v : Value} (hv : v.IsSequence s) : ∃ ms, SeenAs s v ms := by
  cases v <;> simp only [Value.IsSequence] at hv
  case str identity text => exact ⟨_, seenAs_str s identity text⟩
  case tuple identity items => exact ⟨_, seenAs_tuple s identity items⟩
  case list r => exact ⟨_, seenAs_list s r⟩
  case range r => exact ⟨_, seenAs_range s hv⟩
  case record ref =>
    obtain ⟨type, href⟩ := hv
    exact ⟨_, seenAs_record href⟩

namespace SeenAs

variable {s : Store} {v : Value} {ms : List Member} (h : SeenAs s v ms)
include h

theorem len (sink : Sink) :
    callBuiltin sink .len (.ofList [v]) s = .ok (.int (.ofNat ms.length)) s := by
  have hview : view (·.size? v) s = .ok (some ms.length) s := by
    rw [← h.size]
    rfl
  have hcall : callBuiltin sink .len (.ofList [v]) = applyBuiltin sink .len (.ofList [v]) := rfl
  have hsingle : single .len [v] s = .ok v s := rfl
  rw [hcall, applyBuiltin]
  dsimp only [Arguments.ofList]
  rw [EStateM.bind_ok hsingle, EStateM.bind_ok hview]
  rfl

theorem item_of_place {i : Int64} {k : Nat} {m : Member} (hfew : ms.length < lengthLimit)
    (hm : ms[k]? = some m) (hi : i.toInt = k ∨ i.toInt = k - ms.length) :
    getItem v (.int i) s = m.take s := by
  have hk := (List.getElem?_eq_some_iff.1 hm).1
  rw [h.item, memberAt, place_eq (place?_eq_some_iff.2 ⟨hfew, hk, hi⟩), pure_bind, hm]

theorem item_beyond {i : Int64}
    (hi : lengthLimit ≤ ms.length ∨ i.toInt < -ms.length ∨ ms.length ≤ i.toInt) :
    getItem v (.int i) s = .error (.error ⟨none, .index i.toInt ms.length⟩) s := by
  have hplace : place v ms.length (.int i) = fail (.index i.toInt ms.length) := by
    simp only [place, Value.int?, place?_eq_none_iff.2 hi]
  rw [h.item, memberAt, hplace]
  rfl

end SeenAs

/-- There is one list of items behind the length of a sequence, its indices and a run through it. -/
theorem sequence_views_agree {s : Store} {v : Value} (hv : v.IsSequence s) :
    ∃ ms : List Member, members v s = .ok ms s ∧ s.size? v = some ms.length ∧
      (ms.length < lengthLimit →
        (∀ sink, ∃ n : Int64, callBuiltin sink .len (.ofList [v]) s = .ok (.int n) s ∧
          n.toInt = ms.length) ∧
        ∀ (i : Int64) (k : Nat) (m : Member), ms[k]? = some m →
          i.toInt = k ∨ i.toInt = k - ms.length → getItem v (.int i) s = m.take s) ∧
      ∀ i : Int64, i.toInt < -ms.length ∨ ms.length ≤ i.toInt →
        getItem v (.int i) s = .error (.error ⟨none, .index i.toInt ms.length⟩) s := by
  obtain ⟨ms, h⟩ := exists_seenAs hv
  refine ⟨ms, h.members, h.size, fun hfew => ⟨fun sink => ⟨_, h.len sink, ?_⟩, ?_⟩, ?_⟩
  · exact Int64.toInt_ofNat_of_lt hfew
  · intro i k m hm hi
    exact h.item_of_place hfew hm hi
  · intro i hi
    exact h.item_beyond (.inr hi)

/-! ## Long ranges -/

/-- A range with more items than the greatest integer has a negative length, and no index leads to
any of its items. -/
theorem long_range_closed {s : Store} {r : Range} (hstep : r.step ≠ 0)
    (hlong : lengthLimit ≤ r.size) (sink : Sink) :
    (∃ n : Int64, callBuiltin sink .len (.ofList [.range r]) s = .ok (.int n) s ∧
      n.toInt = r.size - 2 ^ 64) ∧
    ∀ i : Int64, getItem (.range r) (.int i) s =
      .error (.error ⟨none, .index i.toInt r.size⟩) s := by
  have h := seenAs_range s hstep
  have hlength : (r.items.map fun n => Member.value (.int n)).length = r.size := by
    rw [List.length_map, r.length_items hstep]
  constructor
  · refine ⟨_, h.len sink, ?_⟩
    have hlt := r.size_lt
    have hlimit : lengthLimit = 2 ^ 63 := rfl
    change r.size < 2 ^ 64 at hlt
    rw [hlength, Int64.toInt_ofNat', show Int64.size = 2 ^ 64 from rfl, Int.bmod_def]
    omega
  · intro i
    rw [h.item_beyond (.inl (hlength ▸ hlong)), hlength]

/-- The first item of the widest range is not what the index of the first item leads to. -/
theorem widest_first_refused (s : Store) :
    Range.widest.get? 0 = some Int64.minValue ∧
      getItem (.range Range.widest) (.int 0) s = .error (.error ⟨none, .index 0 (2 ^ 64 - 1)⟩) s :=
  ⟨by decide, rfl⟩

/-! ## Membership -/

/-- The items of a range are the integers at whole steps from its start that lie before its stop. -/
theorem mem_items_iff {r : Range} (hstep : r.step ≠ 0) {n : Int64} :
    n ∈ r.items ↔ ∃ k : Nat, n.toInt = r.nth k ∧ r.Before n.toInt := by
  rw [r.items_eq hstep, List.mem_map]
  constructor
  · rintro ⟨k, hk, rfl⟩
    have hbefore := (Range.lt_size_iff hstep).1 (List.mem_range.1 hk)
    have htoInt := toInt_ofInt_of_fits (Range.fits_nth hbefore)
    exact ⟨k, htoInt, htoInt.symm ▸ hbefore⟩
  · rintro ⟨k, hn, hbefore⟩
    refine ⟨k, List.mem_range.2 ((Range.lt_size_iff hstep).2 (hn ▸ hbefore)), ?_⟩
    rw [← hn, Int64.ofInt_toInt]

theorem toInt_sub_of_fits {m n : Int64} (h : fits (m.toInt - n.toInt) = true) :
    (m - n).toInt = m.toInt - n.toInt := by
  have h := fits_iff.1 h
  rw [Int64.toInt_sub]
  exact Int.bmod_eq_of_le (by omega) (by omega)

/-- An integer whose distance from the start is one of the language is among the items if it lies
between the ends and the step divides the distance. -/
theorem between_and_dvd_iff {r : Range} (hstep : r.step ≠ 0) {n : Int64}
    (hfits : fits (n.toInt - r.start.toInt) = true) :
    (between r n && (n - r.start) % r.step == 0) = true ↔ n ∈ r.items := by
  have hne := Range.toInt_step_ne hstep
  have hrest : ((n - r.start) % r.step == 0) = true ↔ r.step.toInt ∣ n.toInt - r.start.toInt := by
    rw [beq_iff_eq, ← Int64.toInt_inj, Int64.toInt_mod, toInt_sub_of_fits hfits, Int64.toInt_zero,
      Int.dvd_iff_tmod_eq_zero]
  rw [between, Bool.and_eq_true, hrest, mem_items_iff hstep]
  simp only [Range.nth, Range.Before]
  by_cases hpos : 0 < r.step.toInt
  · simp only [Range.step_pos_iff.2 hpos, hpos, if_true, Bool.and_eq_true, decide_eq_true_eq,
      Int64.le_iff_toInt_le, Int64.lt_iff_toInt_lt]
    constructor
    · rintro ⟨⟨hstart, hstop⟩, c, hc⟩
      have hc0 : 0 ≤ c := Int.le_of_mul_le_mul_left (a := r.step.toInt) (by omega) hpos
      exact ⟨c.toNat, by rw [Int.toNat_of_nonneg hc0]; omega, hstop⟩
    · rintro ⟨k, hk, hstop⟩
      have hk0 := Int.mul_nonneg (Int.le_of_lt hpos) (Int.natCast_nonneg k)
      exact ⟨⟨by omega, hstop⟩, k, by omega⟩
  · simp only [mt Range.step_pos_iff.1 hpos, hpos, if_false, Bool.and_eq_true, decide_eq_true_eq,
      Int64.le_iff_toInt_le, Int64.lt_iff_toInt_lt]
    have hneg : 0 < -r.step.toInt := by omega
    constructor
    · rintro ⟨⟨hstart, hstop⟩, c, hc⟩
      have hc0 : 0 ≤ c := by
        refine Int.le_of_mul_le_mul_left (a := -r.step.toInt) ?_ hneg
        simp only [Int.neg_mul]
        omega
      exact ⟨c.toNat, by rw [Int.toNat_of_nonneg hc0]; omega, hstop⟩
    · rintro ⟨k, hk, hstop⟩
      have hk0 := Int.mul_nonneg (Int.le_of_lt hneg) (Int.natCast_nonneg k)
      rw [Int.neg_mul] at hk0
      exact ⟨⟨by omega, hstop⟩, k, by omega⟩

/-- What is asked of a range about an integer is answered by its items, if the distance of the
integer from the start can be divided by the step. -/
theorem contains_range {s : Store} {r : Range} (hstep : r.step ≠ 0) {n : Int64}
    (hfits : fits (n.toInt - r.start.toInt) = true)
    (hdivides : n - r.start = Int64.minValue → r.step ≠ -1) :
    contains (.range r) (.int n) s = .ok (decide (n ∈ r.items)) s := by
  have hremainder : remainder (n - r.start) r.step = pure ((n - r.start) % r.step) := by
    refine if_neg ?_
    rintro (hzero | ⟨hmin, hone⟩)
    · exact hstep hzero
    · exact hdivides hmin hone
  have hanswer : inRange r n = pure (between r n && (n - r.start) % r.step == 0) := by
    rw [inRange, hremainder, pure_bind]
    cases between r n <;> rfl
  have hitems : (between r n && (n - r.start) % r.step == 0) = decide (n ∈ r.items) := by
    rw [Bool.eq_iff_iff, decide_eq_true_eq]
    exact between_and_dvd_iff hstep hfits
  change inRange r n s = _
  rw [hanswer, hitems]
  rfl

/-- The least distance cannot be divided by a step of minus one, so that what is asked of such a
range about an integer at that distance between its ends brings the process down. -/
theorem contains_range_brought_down {s : Store} {r : Range} (hstep : r.step = -1) {n : Int64}
    (hbetween : between r n = true) (hmin : n - r.start = Int64.minValue) :
    contains (.range r) (.int n) s = .error (.aborted .remainder) s := by
  have hremainder : remainder (n - r.start) r.step = abort .remainder := if_pos (.inr ⟨hmin, hstep⟩)
  change inRange r n s = _
  rw [inRange, if_pos hbetween, hremainder]
  rfl

end Run

end StagedScript
