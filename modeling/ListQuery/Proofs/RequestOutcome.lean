import ListQuery.Proofs.AcceptedParameters
import ListQuery.Proofs.FirstFault
import ListQuery.Proofs.JsonReading
/-!
# What becomes of a request

A request is accepted, or refused with messages about its parameters; but two checks can end in a fault that no message
tells.  A bound on the limit is compared with it whatever value the settings give for it, and a sort that opens an object
is read as JSON, which no reader does to every depth.  Main statements: `faultOf?_check` (no other check has a fault of its
own), `explained_of_check` (parameters that are not accepted are refused for a reason), and from these `ofRequest_outcome`.
-/
namespace ListQuery

/-! ## Reasons -/

namespace Checked

variable {α β : Type}

def Explained (x : Checked α) : Prop := x ≠ invalid []

theorem explained_ofExcept (name : String) (x : Except Rejection α) : (ofExcept name x).Explained := by
  cases x <;> simp [ofExcept, Explained]

theorem Explained.seq {f : Checked (α → β)} {x : Checked α} (hf : f.Explained) (hx : x.Explained) :
    (f <*> x).Explained := by
  show f.seq x ≠ invalid []
  cases f with
  | valid g => cases x <;> simp_all [Checked.seq, Explained]
  | invalid p => cases x <;> simp_all [Checked.seq, Explained]

theorem Explained.map {g : α → β} {x : Checked α} (hx : x.Explained) : (g <$> x).Explained := by
  show (Checked.seq (valid g) x) ≠ invalid []
  cases x <;> simp_all [Checked.seq, Explained]

end Checked

namespace Parameters

variable {α : Type} {maxLimit : Value} {settings : Settings} {given : List (String × Value)}

theorem explained_checked {name : String} {absent : α} {check : Value → Except Rejection α} :
    (checked given name absent check).Explained := by
  unfold checked
  split
  · simp [Checked.Explained]
  · exact Checked.explained_ofExcept _ _

theorem explained_of_checkedM {name : String} {absent : α} {check : Value → Except Fault (Except Rejection α)}
    {x : Checked α}
    (h : checkedM given name absent check = .ok x) : x.Explained := by
  unfold checkedM at h
  split at h
  · cases h
    simp [Checked.Explained]
  · rename_i v _
    cases hv : check v with
    | error => rw [hv] at h; cases h
    | ok result =>
      rw [hv] at h
      cases h
      exact Checked.explained_ofExcept _ _

theorem explained_of_check {x : Checked Parameters} (h : check maxLimit given = .ok x) : x.Explained := by
  simp only [check, bind_eq_ok_iff] at h
  obtain ⟨limit, hlimit, sort, hsort, h⟩ := h
  split at h
  · split at h <;> cases h <;> simp [Checked.Explained]
  · cases h
    have hpage : (Parameters.mk <$> checked given "page" 1 checkPositive).Explained := explained_checked.map
    have hlimit := explained_of_checkedM hlimit
    have hsort := explained_of_checkedM hsort
    exact ((((((((hpage.seq hlimit).seq explained_checked).seq explained_checked).seq hsort).seq explained_checked).seq
      explained_checked).seq explained_checked).seq explained_checked).seq explained_checked |>.seq explained_checked

/-! ## Faults -/

theorem faultOf?_checkedM (given : List (String × Value)) (name : String) (absent : α)
    (check : Value → Except Fault (Except Rejection α)) :
    faultOf? (checkedM given name absent check) = (Value.lookup? name given).bind fun v => faultOf? (check v) := by
  unfold checkedM
  cases Value.lookup? name given with
  | none => rfl
  | some v => cases hv : check v <;> simp [faultOf?, Except.map, hv]

/-- **Only the limit and the sort have faults of their own**, and the limit is looked at first. -/
theorem faultOf?_check (maxLimit : Value) (given : List (String × Value)) :
    faultOf? (check maxLimit given) = firstFault
      [(Value.lookup? "limit" given).bind fun v => faultOf? (checkLimit maxLimit v),
        (Value.lookup? "sort" given).bind fun v => faultOf? (checkSort v)] := by
  rw [firstFault_cons, firstFault_singleton, check]
  refine faultOf?_bind (faultOf?_checkedM given "limit" 10 (checkLimit maxLimit)) fun limit _ => ?_
  have hrest : ∀ next : Option Fault, next = next.or none := fun next => by cases next <;> rfl
  rw [hrest (Option.bind _ _)]
  refine faultOf?_bind (faultOf?_checkedM given "sort" none checkSort) fun sort _ => ?_
  dsimp only
  split
  · split <;> rfl
  · rfl

/-- Whether a bound can be compared with an integer, or is none. -/
def isBound : Value → Bool
  | .null | .int _ | .bool _ | .float _ => true
  | _ => false

theorem checkLimit_eq_error_iff {v : Value} {fault : Fault} : checkLimit maxLimit v = .error fault ↔
    fault = .unfit .number ∧ isBound maxLimit = false ∧ ∃ n, checkPositive v = .ok n := by
  cases hn : checkPositive v with
  | error r => simp [checkLimit, hn]
  | ok n => cases maxLimit <;> simp [checkLimit, hn, exceeds, isBound, @eq_comm _ _ fault]

theorem checkOptionalText_eq_some_iff {v : Value} {text : String} :
    checkOptionalText v = .ok (some text) ↔ checkText v = .ok text := by
  unfold checkOptionalText
  split
  · simp [checkText]
  · cases checkText v <;> simp [Except.map]

theorem checkSort_eq_error_iff {v : Value} {fault : Fault} : checkSort v = .error fault ↔
    fault = .json .tooDeep ∧ ∃ text, checkText v = .ok text ∧ text.toList.head? = some '\x7b' ∧
      Json.read text = .error .tooDeep := by
  simp only [← checkOptionalText_eq_some_iff]
  cases h : checkOptionalText v with
  | error r => simp [checkSort, h]
  | ok given =>
    cases given with
    | none => simp [checkSort, h]
    | some text =>
      simp only [checkSort, h, Except.ok.injEq, Option.some.injEq, exists_eq_left']
      split
      · rename_i hopens
        rw [hopens]
        cases Json.read text with
        | ok document => simp
        | error fault => cases fault <;> simp [eq_comm]
      · rename_i hopens
        simp [hopens]

/-! ## Requests -/

def BoundUnfit (settings : Settings) (given : List (String × Value)) : Prop :=
  isBound settings.maxLimit = false ∧
    ∃ v n, Value.lookup? "limit" (withDefaults settings given) = some v ∧ checkPositive v = .ok n

/-- A sort opens an object in which containers stand too deep in each other. -/
def SortTooDeep (settings : Settings) (given : List (String × Value)) : Prop :=
  ∃ v text, Value.lookup? "sort" (withDefaults settings given) = some v ∧ checkText v = .ok text ∧
    text.toList.head? = some '\x7b' ∧ Json.read text = .error .tooDeep

theorem limitFault_eq_some_iff {fault : Fault} :
    ((Value.lookup? "limit" (withDefaults settings given)).bind fun v => faultOf? (checkLimit settings.maxLimit v)) =
        some fault ↔ fault = .unfit .number ∧ BoundUnfit settings given := by
  simp only [Option.bind_eq_some_iff, faultOf?_eq_some_iff, checkLimit_eq_error_iff, BoundUnfit]
  constructor
  · rintro ⟨v, hv, hfault, hbound, n, hn⟩
    exact ⟨hfault, hbound, v, n, hv, hn⟩
  · rintro ⟨hfault, hbound, v, n, hv, hn⟩
    exact ⟨v, hv, hfault, hbound, n, hn⟩

theorem sortFault_eq_some_iff {fault : Fault} :
    ((Value.lookup? "sort" (withDefaults settings given)).bind fun v => faultOf? (checkSort v)) = some fault ↔
      fault = .json .tooDeep ∧ SortTooDeep settings given := by
  simp only [Option.bind_eq_some_iff, faultOf?_eq_some_iff, checkSort_eq_error_iff, SortTooDeep]
  constructor
  · rintro ⟨v, hv, hfault, text, htext⟩
    exact ⟨hfault, v, text, hv, htext⟩
  · rintro ⟨hfault, v, text, hv, htext⟩
    exact ⟨v, hv, hfault, text, htext⟩

theorem ofRequest_of_boundUnfit (h : BoundUnfit settings given) : ofRequest settings given = .error (.unfit .number) := by
  have hfault := faultOf?_check settings.maxLimit (withDefaults settings given)
  rw [firstFault_cons, limitFault_eq_some_iff.2 ⟨rfl, h⟩, Option.some_or, faultOf?_eq_some_iff] at hfault
  rw [ofRequest, hfault, error_bind]

theorem faultOf?_check_of_bound (h : ¬BoundUnfit settings given) :
    faultOf? (check settings.maxLimit (withDefaults settings given)) =
      (Value.lookup? "sort" (withDefaults settings given)).bind fun v => faultOf? (checkSort v) := by
  have hlimit : ((Value.lookup? "limit" (withDefaults settings given)).bind fun v =>
      faultOf? (checkLimit settings.maxLimit v)) = none :=
    Option.eq_none_iff_forall_ne_some.2 fun _ hfault => h (limitFault_eq_some_iff.1 hfault).2
  rw [faultOf?_check, firstFault_cons, firstFault_singleton, hlimit, Option.none_or]

theorem ofRequest_of_tooDeep (hbound : ¬BoundUnfit settings given) (hdeep : SortTooDeep settings given) :
    ofRequest settings given = .error (.json .tooDeep) := by
  have hfault := faultOf?_check_of_bound hbound
  rw [sortFault_eq_some_iff.2 ⟨rfl, hdeep⟩, faultOf?_eq_some_iff] at hfault
  rw [ofRequest, hfault, error_bind]

theorem exists_check_eq_ok (hbound : ¬BoundUnfit settings given) (hdeep : ¬SortTooDeep settings given) :
    ∃ x, check settings.maxLimit (withDefaults settings given) = .ok x := by
  have hsort : ((Value.lookup? "sort" (withDefaults settings given)).bind fun v => faultOf? (checkSort v)) = none :=
    Option.eq_none_iff_forall_ne_some.2 fun _ hfault => hdeep (sortFault_eq_some_iff.1 hfault).2
  exact faultOf?_eq_none_iff.1 ((faultOf?_check_of_bound hbound).trans hsort)

theorem ofRequest_reported (hbound : ¬BoundUnfit settings given) (hdeep : ¬SortTooDeep settings given) :
    (∃ p, ofRequest settings given = .ok p) ∨
      ∃ messages, messages ≠ [] ∧ ofRequest settings given = .error (.query (.parameters messages)) := by
  obtain ⟨x, hx⟩ := exists_check_eq_ok hbound hdeep
  have hexplained := explained_of_check hx
  rw [ofRequest, hx, ok_bind]
  cases x with
  | valid p => exact .inl ⟨p, rfl⟩
  | invalid problems => exact .inr ⟨_, fun h => hexplained (by rw [List.map_eq_nil_iff.1 h]), rfl⟩

inductive Outcome (settings : Settings) (given : List (String × Value)) : Except Fault Parameters → Prop
  | accepted {p : Parameters} : ¬BoundUnfit settings given → ¬SortTooDeep settings given →
      Outcome settings given (.ok p)
  | refused {messages : InputMessages} : ¬BoundUnfit settings given → ¬SortTooDeep settings given → messages ≠ [] →
      Outcome settings given (.error (.query (.parameters messages)))
  | unfitBound : BoundUnfit settings given → Outcome settings given (.error (.unfit .number))
  | tooDeep : ¬BoundUnfit settings given → SortTooDeep settings given → Outcome settings given (.error (.json .tooDeep))

theorem not_sortTooDeep (h : ∀ v text, Value.lookup? "sort" (withDefaults settings given) = some v → checkText v = .ok text →
    Json.openings text.toList ≤ Json.maxDepth) : ¬SortTooDeep settings given := by
  rintro ⟨v, text, hv, htext, -, hdeep⟩
  exact Nat.not_lt.2 (h v text hv htext) (Json.lt_openings_of_tooDeep hdeep)

/-- **What becomes of a request**, whatever values it gives: it is accepted, or refused with messages, unless the settings
bound the limit by what is no number, or the sort is too deep.  So nothing but messages comes of bad values as long as the
sort opens no more containers than are read inside each other. -/
theorem ofRequest_outcome (settings : Settings) (given : List (String × Value)) :
    Outcome settings given (ofRequest settings given) ∧
      (isBound settings.maxLimit = true →
        (∀ v text, Value.lookup? "sort" (withDefaults settings given) = some v → checkText v = .ok text →
          Json.openings text.toList ≤ Json.maxDepth) →
        (∃ p, ofRequest settings given = .ok p) ∨
          ∃ messages, messages ≠ [] ∧ ofRequest settings given = .error (.query (.parameters messages))) := by
  constructor
  · by_cases hbound : BoundUnfit settings given
    · rw [ofRequest_of_boundUnfit hbound]
      exact .unfitBound hbound
    by_cases hdeep : SortTooDeep settings given
    · rw [ofRequest_of_tooDeep hbound hdeep]
      exact .tooDeep hbound hdeep
    obtain ⟨p, hp⟩ | ⟨messages, hne, hmessages⟩ := ofRequest_reported hbound hdeep
    · rw [hp]
      exact .accepted hbound hdeep
    · rw [hmessages]
      exact .refused hbound hdeep hne
  · intro hnumber hopenings
    refine ofRequest_reported (fun hbound => ?_) (not_sortTooDeep hopenings)
    rw [hbound.1] at hnumber
    exact Bool.false_ne_true hnumber

def sortedBy (sort : String) : List (String × Value) := [("document", .bool true), ("sort", .str sort)]

/-- A sort that breaks off inside an object is refused with messages. -/
theorem ofRequest_outcome_broken :
    isBound ({} : Settings).maxLimit = true ∧ Json.openings "\x7bname".toList ≤ Json.maxDepth ∧
      ∃ messages, messages ≠ [] ∧ ofRequest {} (sortedBy "\x7bname") = .error (.query (.parameters messages)) := by
  have hbound : isBound ({} : Settings).maxLimit = true := rfl
  have hopenings : Json.openings "\x7bname".toList ≤ Json.maxDepth := by decide +kernel
  have hno : (ofRequest {} (sortedBy "\x7bname")).isOk = false := by decide +kernel
  have h := (ofRequest_outcome {} (sortedBy "\x7bname")).2 hbound fun v text hv htext => by
    cases hv
    cases htext
    exact hopenings
  obtain ⟨p, hp⟩ | hmessages := h
  · rw [hp] at hno
    cases hno
  · exact ⟨hbound, hopenings, hmessages⟩

theorem ofRequest_nested {arrays : Nat} (h : Json.maxDepth ≤ arrays) :
    ofRequest {} (sortedBy (String.ofList (Json.nested arrays))) = .error (.json .tooDeep) := by
  have hread : Json.read (String.ofList (Json.nested arrays)) = .error .tooDeep := by
    have hnested := Json.read_nested h []
    rwa [List.append_nil] at hnested
  have hopens : (String.ofList (Json.nested arrays)).toList.head? = some '\x7b' := by
    rw [String.toList_ofList]
    rfl
  exact ofRequest_of_tooDeep (fun hbound => Bool.noConfusion hbound.1) ⟨_, _, rfl, rfl, hopens, hread⟩

/-- **A sort that is too deep is not refused with messages**: two thousand arrays inside each other, none of them closed,
end in a fault of another kind. -/
theorem ofRequest_too_deep :
    ofRequest {} (sortedBy (String.ofList (Json.nested 2000))) = .error (.json .tooDeep) ∧
      ¬∀ (settings : Settings) (given : List (String × Value)), isBound settings.maxLimit = true →
        (∃ p, ofRequest settings given = .ok p) ∨
          ∃ messages, ofRequest settings given = .error (.query (.parameters messages)) := by
  have hdeep := ofRequest_nested (show Json.maxDepth ≤ 2000 by decide)
  refine ⟨hdeep, fun h => ?_⟩
  obtain ⟨p, hp⟩ | ⟨messages, hmessages⟩ := h {} (sortedBy (String.ofList (Json.nested 2000))) rfl
  · cases hdeep.symm.trans hp
  · cases hdeep.symm.trans hmessages

end Parameters
end ListQuery
