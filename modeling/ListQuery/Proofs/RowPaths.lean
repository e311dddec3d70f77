import ListQuery.Rows.Buckets
/-!
# Paths through a row

A row is a map, a record or anything else, and so is each of its parts; a path goes on as long as there is a part of the
next name.  Main statements: `follow_append` (a path can be followed in two steps, wherever it is cut) and `follow_eq_iff`
(what is at the end of a path, told by the parts that lead there), and from these `atPath_composed`.
-/
namespace ListQuery.Value

variable {v w : Value}

/-- Texts, numbers and collections, into which no path goes. -/
def isLeaf : Value → Bool
  | bool _ | int _ | float _ | str _ | bytes _ | list _ | tuple _ | set _ => true
  | _ => false

theorem part?_of_isLeaf (h : v.isLeaf = true) (name : String) : v.part? name = none := by
  cases v <;> first | rfl | cases h

/-! ## Following names -/

theorem follow_null : ∀ names : List String, null.follow names = null
  | [] => rfl
  | _ :: _ => rfl

theorem follow_of_no_part {name : String} (h : v.part? name = none) (rest : List String) :
    v.follow (name :: rest) = null := by
  rw [follow, h]

/-- **A path can be followed in two steps.**  Where the first step ends at nothing, so does the second. -/
theorem follow_append (rest : List String) : ∀ (names : List String) (v : Value),
    v.follow (names ++ rest) = (v.follow names).follow rest
  | [], _ => rfl
  | name :: names, v => by
    rw [List.cons_append, follow, follow]
    cases v.part? name with
    | none => exact (follow_null rest).symm
    | some part => exact follow_append rest names part

/-- The names lead from a value to another one, each from a value to a part of it. -/
inductive Leads : Value → List String → Value → Prop
  | here {v : Value} : Leads v [] v
  | part {v part w : Value} {name rest} : v.part? name = some part → Leads part rest w → Leads v (name :: rest) w

theorem follow_of_leads {names : List String} (h : Leads v names w) : v.follow names = w := by
  induction h with
  | here => rfl
  | part hpart _ ih => rw [follow, hpart]; exact ih

/-- **What is at the end of a path**: what its names lead to, and null where they lead nowhere. -/
theorem follow_eq_iff : ∀ {names : List String} {v : Value},
    v.follow names = w ↔ Leads v names w ∨ w = null ∧ ∀ u, ¬Leads v names u
  | [], v => by
    constructor
    · rintro rfl
      exact .inl .here
    · rintro (h | ⟨-, hnone⟩)
      · exact follow_of_leads h
      · exact absurd .here (hnone v)
  | name :: names, v => by
    cases hpart : v.part? name with
    | none =>
      have hnone : ∀ u, ¬Leads v (name :: names) u := by
        rintro u (_ | ⟨hsome, -⟩)
        rw [hpart] at hsome
        cases hsome
      simp [follow_of_no_part hpart, hnone, eq_comm]
    | some part =>
      have hleads : ∀ u, Leads v (name :: names) u ↔ Leads part names u := by
        refine fun u => ⟨?_, .part hpart⟩
        rintro (_ | ⟨hsome, h⟩)
        rw [hpart] at hsome
        exact Option.some.inj hsome ▸ h
      have hfollow : v.follow (name :: names) = part.follow names := by rw [follow, hpart]
      simp only [hfollow, hleads, follow_eq_iff]

/-! ## Dotted paths -/

theorem atPath_append (v : Value) (front behind : String) :
    v.atPath (front ++ "." ++ behind) = (v.atPath front).atPath behind := by
  have hsplit : splitText '.' (front ++ "." ++ behind) = splitText '.' front ++ splitText '.' behind :=
    splitText_append '.' front behind
  rw [atPath, hsplit, follow_append]
  rfl

theorem atPath_of_isLeaf (h : v.isLeaf = true) (path : String) : v.atPath path = null := by
  have hne : splitText '.' path ≠ [] := by simp [splitText, splitChars_ne_nil]
  obtain ⟨name, rest, hnames⟩ := List.exists_cons_of_ne_nil hne
  rw [atPath, hnames, follow_of_no_part (part?_of_isLeaf h name)]

theorem atPath_name (v : Value) {name : String} (h : '.' ∉ name.toList) : v.atPath name = (v.part? name).getD null := by
  rw [atPath, splitText_of_notMem h, follow]
  cases v.part? name <;> rfl

/-- **A dotted path can be followed in two steps, wherever it is cut.**  So there is nothing behind null, a leaf, or a part
that is missing, and an empty name leads on like any other.  What is found is what the names of the path lead to. -/
theorem atPath_composed (v : Value) (front behind : String) :
    v.atPath (front ++ "." ++ behind) = (v.atPath front).atPath behind ∧
      (v.atPath front = null ∨ (v.atPath front).isLeaf = true → v.atPath (front ++ "." ++ behind) = null) ∧
      (∀ name : String, '.' ∉ name.toList →
        v.atPath name = (v.part? name).getD null ∧
          v.atPath (front ++ "." ++ name) = ((v.atPath front).part? name).getD null ∧
          ((v.atPath front).part? name = none → v.atPath (front ++ "." ++ name ++ "." ++ behind) = null)) ∧
      ∀ w, v.atPath front = w ↔
        Leads v (splitText '.' front) w ∨ w = null ∧ ∀ u, ¬Leads v (splitText '.' front) u := by
  have hnull : null.atPath behind = null := follow_null _
  refine ⟨atPath_append v front behind, ?_, fun name hname => ⟨atPath_name v hname, ?_, ?_⟩, fun w => follow_eq_iff⟩
  · rw [atPath_append]
    rintro (h | h)
    · rw [h, hnull]
    · rw [atPath_of_isLeaf h]
  · rw [atPath_append, atPath_name _ hname]
  · intro hnone
    rw [atPath_append, atPath_append, atPath_name _ hname, hnone, Option.getD_none, hnull]

/-- A row with a part of no name, a leaf, and an entry that is null. -/
def sapling : Value :=
  record default [("site", map [("", map [("name", str "orchard")]), ("rows", list [int 3]), ("owner", null)])]

/-- The part of no name leads on; nothing is behind the leaf, behind null, and behind the part that is missing. -/
theorem atPath_composed_sapling :
    sapling.atPath "site..name" = str "orchard" ∧ sapling.atPath "site.rows.first" = null ∧
      sapling.atPath "site.owner.name" = null ∧ sapling.atPath "site.gate.name" = null := by
  refine ⟨?_, ?_, ?_, ?_⟩
  · exact (atPath_composed sapling "site." "name").1.trans rfl
  · exact (atPath_composed sapling "site.rows" "first").2.1 (.inr rfl)
  · exact (atPath_composed sapling "site.owner" "name").2.1 (.inl rfl)
  · exact ((atPath_composed sapling "site" "name").2.2.1 "gate" (by decide)).2.2 rfl

end ListQuery.Value
