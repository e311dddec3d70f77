import Mathlib.Data.Int.Basic
import ListQuery.Value.Basic
/-!
# Equality of keys

Which values are one key goes across the kinds of numbers, and not every value is one key with itself.  Still it is told by
a *form*: two values are one key exactly if they have the same form (`sameKey_iff`), and `nan`, objects of their own and all
that cannot be a key have none.  So values that are one key with a third are one key with each other (`sameKey_trans`).
-/
namespace ListQuery

inductive NumberForm where
  | units (n : Int)
  | infinity (negative : Bool)

/-- What decides which keys a value is one with. -/
inductive KeyForm where
  | null
  | text (s : String)
  | bytes (octets : List UInt8)
  | moment (zoned : Bool) (instant : Int)
  | unread (raw : String)
  | span (micros : Int)
  | number (x : NumberForm)
  | object (number : Nat)
  | row (parts : List KeyForm)

namespace Binary64

def wholeUnits (n : Int) : Int := n * unitsInOne

theorem wholeUnits_inj {m n : Int} : wholeUnits m = wholeUnits n ↔ m = n :=
  Int.mul_eq_mul_right_iff (Int.ofNat_ne_zero.2 (Nat.ne_of_gt unitsInOne_pos))

theorem sameInt_eq (x : Binary64) (n : Int) : x.sameInt n = (x.signedUnits? == some (wholeUnits n)) := rfl

def numberForm? : Binary64 → Option NumberForm
  | nan => none
  | infinite negative => some (.infinity negative)
  | x => x.signedUnits?.map .units

theorem sameNumber_iff (x y : Binary64) :
    x.sameNumber y = true ↔ ∃ k, x.numberForm? = some k ∧ y.numberForm? = some k := by
  cases x with
  | nan => simp [sameNumber, numberForm?]
  | infinite a =>
    cases y <;> simp only [sameNumber, numberForm?, signedUnits?]
    · simp
    · simp only [beq_iff_eq, Option.some.injEq, exists_eq_left', NumberForm.infinity.injEq]
      exact eq_comm
    · simp
  | finite a r =>
    cases y <;> simp only [sameNumber, numberForm?, signedUnits?]
    · simp
    · simp
    · simp only [beq_iff_eq, Option.some.injEq, Option.map_some, exists_eq_left', NumberForm.units.injEq]
      exact eq_comm

theorem sameInt_iff (x : Binary64) (n : Int) :
    x.sameInt n = true ↔ x.numberForm? = some (.units (wholeUnits n)) := by
  rw [sameInt_eq]
  cases x with
  | nan => simp [numberForm?, signedUnits?]
  | infinite => simp [numberForm?, signedUnits?]
  | finite =>
    simp only [numberForm?, signedUnits?, beq_iff_eq, Option.some.injEq, Option.map_some, NumberForm.units.injEq]

end Binary64

namespace Identity

def number? : Identity → Option Nat
  | shared n => some n
  | _ => none

theorem same_iff (a b : Identity) : a.same b = true ↔ ∃ n, a.number? = some n ∧ b.number? = some n := by
  cases a with
  | shared m =>
    cases b <;> simp [same, number?]
    exact eq_comm
  | _ => simp [same, number?]

end Identity

namespace Value

/-- The form of a number of any kind; `nan` has none. -/
def numberForm? : Value → Option NumberForm
  | float x => x.numberForm?
  | v => v.asInt?.map fun n => .units (Binary64.wholeUnits n)

mutual

def keyForm? : Value → Option KeyForm
  | null => some .null
  | str s => some (.text s)
  | bytes octets => some (.bytes octets)
  | time t => some (.moment t.offset.isSome t.instant)
  | badTime raw => some (.unread raw)
  | span micros => some (.span micros)
  | tuple items => (keyForms? items).map .row
  | record handle _ => handle.identity.number?.map .object
  | v => v.numberForm?.map .number

def keyForms? : List Value → Option (List KeyForm)
  | [] => some []
  | v :: rest => (keyForm? v).bind fun k => (keyForms? rest).map (k :: ·)

end

theorem number_cases (v : Value) : (∃ x, v = float x) ∨
    (∃ n, v.asInt? = some n ∧ v.numberForm? = some (.units (Binary64.wholeUnits n)) ∧
      (∀ x, sameNumber? (float x) v = some (x.sameInt n)) ∧ (∀ x, sameNumber? v (float x) = some (x.sameInt n)) ∧
      ∀ w m, w.asInt? = some m → sameNumber? v w = some (n == m)) ∨
    v.numberForm? = none ∧ ∀ w, sameNumber? v w = none ∧ sameNumber? w v = none := by
  cases v with
  | float x => exact .inl ⟨x, rfl⟩
  | bool b | int n =>
    refine .inr (.inl ⟨_, rfl, rfl, fun _ => rfl, fun _ => rfl, fun w m hw => ?_⟩)
    cases w with
    | bool c | int k =>
      obtain rfl := Option.some.inj hw
      rfl
    | _ => cases hw
  | _ => exact .inr (.inr ⟨rfl, fun w => by cases w <;> exact ⟨rfl, rfl⟩⟩)

theorem sameNumber?_iff (v w : Value) :
    (sameNumber? v w).getD false = true ↔ ∃ k, v.numberForm? = some k ∧ w.numberForm? = some k := by
  obtain ⟨x, rfl⟩ | ⟨m, hm, hvf, hvx, hxv, hints⟩ | ⟨hvf, hv⟩ := number_cases v
  · obtain ⟨y, rfl⟩ | ⟨n, -, hwf, hwx, -, -⟩ | ⟨hwf, hw⟩ := number_cases w
    · exact Binary64.sameNumber_iff x y
    · rw [hwx, hwf, Option.getD_some, Binary64.sameInt_iff]
      simp [numberForm?]
    · rw [(hw _).2, hwf]
      simp
  · obtain ⟨y, rfl⟩ | ⟨n, hn, hwf, -, -, -⟩ | ⟨hwf, hw⟩ := number_cases w
    · rw [hxv, hvf, Option.getD_some, Binary64.sameInt_iff]
      simp [numberForm?]
    · rw [hints w n hn, hvf, hwf]
      simp only [Option.getD_some, beq_iff_eq, Option.some.injEq, exists_eq_left', NumberForm.units.injEq,
        Binary64.wholeUnits_inj]
      exact eq_comm
    · rw [(hw _).2, hwf]
      simp
  · rw [(hv w).1, hvf]
    simp

mutual

/-- **Two values are one key exactly if they have the same form.** -/
theorem sameKey_iff (v w : Value) : v.sameKey w = true ↔ ∃ k, v.keyForm? = some k ∧ w.keyForm? = some k := by
  cases v with
  | tuple a =>
    cases w with
    | tuple b =>
      rw [sameKey, sameKeys_iff a b, keyForm?, keyForm?]
      simp only [Option.map_eq_some_iff]
      constructor
      · rintro ⟨k, ha, hb⟩
        exact ⟨_, ⟨k, ha, rfl⟩, ⟨k, hb, rfl⟩⟩
      · rintro ⟨_, ⟨k, ha, rfl⟩, ⟨l, hb, hl⟩⟩
        obtain rfl := KeyForm.row.inj hl
        exact ⟨l, ha, hb⟩
    | _ => simp [sameKey, keyForm?, sameNumber?_iff, numberForm?, asInt?]
  | record a _ =>
    cases w with
    | record b _ =>
      simp only [sameKey, Identity.same_iff, keyForm?, Option.map_eq_some_iff]
      constructor
      · rintro ⟨n, ha, hb⟩
        exact ⟨_, ⟨n, ha, rfl⟩, n, hb, rfl⟩
      · rintro ⟨_, ⟨n, ha, rfl⟩, m, hb, hm⟩
        obtain rfl := KeyForm.object.inj hm
        exact ⟨m, ha, hb⟩
    | _ => simp [sameKey, keyForm?, sameNumber?_iff, numberForm?, asInt?]
  | str | bytes | badTime | span =>
    cases w <;> simp [sameKey, keyForm?, sameNumber?_iff, numberForm?, asInt?]
    exact eq_comm
  | time t =>
    cases w with
    | time u =>
      simp only [sameKey, Timestamp.sameTime, keyForm?, Bool.and_eq_true, beq_iff_eq, Option.some.injEq, exists_eq_left',
        KeyForm.moment.injEq]
      exact and_congr eq_comm eq_comm
    | _ => simp [sameKey, keyForm?, sameNumber?_iff, numberForm?, asInt?]
  | _ => cases w <;> simp [sameKey, keyForm?, sameNumber?_iff, numberForm?, asInt?]

theorem sameKeys_iff (vs ws : List Value) :
    sameKeys vs ws = true ↔ ∃ ks, keyForms? vs = some ks ∧ keyForms? ws = some ks := by
  cases vs with
  | nil => cases ws <;> simp [sameKeys, keyForms?, Option.bind_eq_some_iff]
  | cons v vs =>
    cases ws with
    | nil => simp [sameKeys, keyForms?, Option.bind_eq_some_iff]
    | cons w ws =>
      rw [sameKeys, Bool.and_eq_true, sameKey_iff v w, sameKeys_iff vs ws, keyForms?, keyForms?]
      simp only [Option.bind_eq_some_iff, Option.map_eq_some_iff]
      constructor
      · rintro ⟨⟨k, hv, hw⟩, ks, hvs, hws⟩
        exact ⟨k :: ks, ⟨k, hv, ks, hvs, rfl⟩, k, hw, ks, hws, rfl⟩
      · rintro ⟨_, ⟨k, hv, ks, hvs, rfl⟩, l, hw, ls, hws, hl⟩
        obtain ⟨rfl, rfl⟩ := List.cons.inj hl
        exact ⟨⟨l, hv, hw⟩, ls, hvs, hws⟩

end

variable {u v w : Value}

theorem sameKey_symm (h : v.sameKey w = true) : w.sameKey v = true := by
  obtain ⟨k, hv, hw⟩ := (sameKey_iff v w).1 h
  exact (sameKey_iff w v).2 ⟨k, hw, hv⟩

theorem sameKey_trans (huv : u.sameKey v = true) (hvw : v.sameKey w = true) : u.sameKey w = true := by
  obtain ⟨k, hu, hv⟩ := (sameKey_iff u v).1 huv
  obtain ⟨l, hv', hw⟩ := (sameKey_iff v w).1 hvw
  obtain rfl := Option.some.inj (hv.symm.trans hv')
  exact (sameKey_iff u w).2 ⟨k, hu, hw⟩

end Value
end ListQuery
