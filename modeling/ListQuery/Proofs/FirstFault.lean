import ListQuery.Proofs.Success
/-!
# The first fault of a call

A call that is put together from others gives the fault of the first of them that gives no result.  `faultOf?` is that
fault, and `firstFault` says the same of a row of checks, none of which has to be run for it.  Main statements:
`faultOf?_bind` (one call after another) and `faultOf?_mapM` (a row of calls).
-/
namespace ListQuery

variable {ε α β : Type}

/-! ## Checks -/

/-- A check in its plainest form: what has to hold, and the fault if it does not. -/
def faultUnless (passed : Bool) (fault : ε) : Option ε := if passed then none else some fault

def firstFault (checks : List (Option ε)) : Option ε := checks.findSome? id

theorem firstFault_cons (check : Option ε) (checks : List (Option ε)) :
    firstFault (check :: checks) = check.or (firstFault checks) := by
  cases check <;> rfl

theorem firstFault_singleton (check : Option ε) : firstFault [check] = check := by
  cases check <;> rfl

section

variable {P : ε → Prop}

theorem forall_mem_faultUnless {passed : Bool} {fault : ε} (h : P fault) : ∀ e ∈ faultUnless passed fault, P e := by
  cases passed with
  | true => exact fun _ he => nomatch he
  | false => exact fun e he => Option.some.inj he ▸ h

theorem forall_mem_findSome? {f : α → Option ε} {xs : List α} (h : ∀ x ∈ xs, ∀ e ∈ f x, P e) :
    ∀ e ∈ xs.findSome? f, P e := by
  intro e he
  obtain ⟨x, hx, hfault⟩ := List.exists_of_findSome?_eq_some he
  exact h x hx e hfault

theorem forall_mem_firstFault {checks : List (Option ε)} (h : ∀ check ∈ checks, ∀ e ∈ check, P e) :
    ∀ e ∈ firstFault checks, P e :=
  forall_mem_findSome? h

end

/-! ## Calls -/

def faultOf? : Except ε α → Option ε
  | .ok _ => none
  | .error e => some e

theorem faultOf?_eq_some_iff {x : Except ε α} {e : ε} : faultOf? x = some e ↔ x = .error e := by
  cases x <;> simp [faultOf?]

theorem faultOf?_eq_none_iff {x : Except ε α} : faultOf? x = none ↔ ∃ a, x = .ok a := by
  cases x <;> simp [faultOf?]

theorem faultOf?_bind {x : Except ε α} {f : α → Except ε β} {first next : Option ε} (hx : faultOf? x = first)
    (hf : ∀ a, x = .ok a → faultOf? (f a) = next) : faultOf? (x >>= f) = first.or next := by
  subst hx
  cases x with
  | error e => rfl
  | ok a => exact hf a rfl

theorem faultOf?_bind_ok (x : Except ε α) (g : α → β) : faultOf? (x >>= fun a => .ok (g a)) = faultOf? x := by
  cases x <;> rfl

theorem faultOf?_guard {passed : Bool} {x : Except ε α} {fault : ε} {next : Option ε}
    (h : passed = true → faultOf? x = next) :
    faultOf? (if passed = true then x else .error fault) = (faultUnless passed fault).or next := by
  cases passed with
  | false => rfl
  | true => exact h rfl

theorem faultOf?_mapM (f : α → Except ε β) : ∀ xs : List α,
    faultOf? (xs.mapM f) = xs.findSome? fun x => faultOf? (f x)
  | [] => rfl
  | x :: xs => by
    have ih := faultOf?_mapM f xs
    rw [List.mapM_cons, List.findSome?_cons]
    cases hx : f x with
    | error e => rfl
    | ok y =>
      rw [ok_bind]
      exact (faultOf?_bind_ok _ _).trans ih

theorem faultOf?_forM (f : α → Except ε PUnit) : ∀ xs : List α,
    faultOf? (xs.forM f) = xs.findSome? fun x => faultOf? (f x)
  | [] => rfl
  | x :: xs => by
    have ih := faultOf?_forM f xs
    have hstep : (x :: xs).forM f = (f x >>= fun _ => xs.forM f) := rfl
    rw [hstep, List.findSome?_cons]
    cases hx : f x with
    | error e => rfl
    | ok y => exact ih

theorem findSome?_congr {f : α → Option ε} {g : β → Option ε} {xs : List α} {ys : List β}
    (h : List.Forall₂ (fun x y => f x = g y) xs ys) : xs.findSome? f = ys.findSome? g := by
  induction h with
  | nil => rfl
  | cons hxy _ ih => rw [List.findSome?_cons, List.findSome?_cons, hxy, ih]

end ListQuery
