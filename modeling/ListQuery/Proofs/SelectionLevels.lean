import ListQuery.Query.Selection
import Mathlib.Data.List.Induction
/-!
# The levels of a selection

How the tree of a field list grows, path by path, is told here by the keys of each level, in order.  A path adds one key to
each level that it reaches below, the segment that comes next there, and leaves all other levels alone; which node exists,
and which one is selected as a whole, can be read off the keys.  Main statements: `keysAt?_grow` (one path) and
`keysAt?_ofPaths` (any number of them).
-/
namespace ListQuery

/-! ## Rows without repetitions -/

def appended (x : String) (keys : List String) : List String := if x ∈ keys then keys else keys ++ [x]

theorem eraseDups_concat (keys : List String) (x : String) : (keys ++ [x]).eraseDups = appended x keys.eraseDups := by
  unfold appended
  rw [List.eraseDups_append]
  by_cases h : x ∈ keys <;> simp [h, List.removeAll, List.eraseDups_cons]

theorem nodup_eraseDups (keys : List String) : keys.eraseDups.Nodup := by
  induction keys using List.reverseRecOn with
  | nil => simp
  | append_singleton keys x ih =>
    rw [eraseDups_concat, appended]
    split
    · exact ih
    · rename_i h
      rw [List.nodup_append]
      refine ⟨ih, by simp, ?_⟩
      rintro y hy z hz rfl
      obtain rfl := List.mem_singleton.1 hz
      exact h hy

/-! ## Next segments -/

def segmentAfter : (p path : List String) → Option String
  | [], path => path.head?
  | x :: p, y :: path => if x = y then segmentAfter p path else none
  | _ :: _, [] => none

theorem segmentAfter_nil : ∀ p : List String, segmentAfter p [] = none
  | [] => rfl
  | _ :: _ => rfl

theorem segmentAfter_eq_some_iff {x : String} : ∀ p path : List String, segmentAfter p path = some x ↔ p ++ [x] <+: path
  | [], [] => by simp [segmentAfter]
  | [], y :: path => by simp [segmentAfter, eq_comm]
  | y :: p, [] => by simp [segmentAfter]
  | y :: p, z :: path => by
    rw [segmentAfter, List.cons_append, List.cons_prefix_cons]
    by_cases h : y = z
    · rw [if_pos h, segmentAfter_eq_some_iff p path]
      exact (and_iff_right h).symm
    · simp [h]

theorem exists_concat_prefix_iff {p path : List String} : (∃ x, p ++ [x] <+: path) ↔ p <+: path ∧ p ≠ path := by
  constructor
  · rintro ⟨x, rest, rfl⟩
    exact ⟨⟨x :: rest, by simp⟩, by simp⟩
  · rintro ⟨⟨rest, rfl⟩, hne⟩
    cases rest with
    | nil => exact absurd (List.append_nil p).symm hne
    | cons x rest => exact ⟨x, rest, by simp⟩

/-! ## Nodes and their keys -/

namespace Selection

def at? : List String → Selection → Option Selection
  | [], s => some s
  | x :: p, s => (Entries.find? (· == x) s.tree).bind (at? p)

def keys? : Selection → Option (List String)
  | whole => none
  | nested tree => some (Entries.keys tree)

def keysAt? (p : List String) (s : Selection) : Option (List String) := (s.at? p).bind keys?

theorem keysAt?_cons (x : String) (p : List String) (s : Selection) :
    keysAt? (x :: p) s = (Entries.find? (· == x) s.tree).bind (keysAt? p) := by
  rw [keysAt?, at?, Option.bind_assoc]
  rfl

theorem keysAt?_whole : ∀ p : List String, keysAt? p whole = none
  | [] => rfl
  | _ :: _ => rfl

theorem at?_concat (x : String) : ∀ (p : List String) (s : Selection),
    at? (p ++ [x]) s = (s.at? p).bind fun t => Entries.find? (· == x) t.tree
  | [], s => by
    rw [List.nil_append, at?, at?, Option.bind_some]
    cases Entries.find? (· == x) s.tree <;> rfl
  | y :: p, s => by
    rw [List.cons_append, at?, at?, Option.bind_assoc]
    exact congrArg _ (funext fun t => at?_concat x p t)

theorem isSome_at?_concat_iff (p : List String) (x : String) (s : Selection) :
    (s.at? (p ++ [x])).isSome = true ↔ ∃ keys, s.keysAt? p = some keys ∧ x ∈ keys := by
  rw [at?_concat, keysAt?]
  cases s.at? p with
  | none => simp
  | some t =>
    cases t with
    | whole => simp [keys?, tree, Entries.find?]
    | nested tree => simp [keys?, Selection.tree, Entries.isSome_find?]

/-! ## One path -/

/-- What adding a path makes of a selection, or of nothing. -/
def grow (path : List String) (s : Option Selection) : Selection :=
  match path with
  | [] => s.getD .whole
  | path => .nested (SelectionTree.add path (s.elim [] Selection.tree))

theorem grow_cons (name : String) (rest : List String) (s : Option Selection) :
    grow (name :: rest) s = .nested (SelectionTree.alter name (grow rest) (s.elim [] Selection.tree)) := by
  cases rest <;> rfl

theorem grow_nested (path : List String) (tree : SelectionTree) :
    grow path (some (.nested tree)) = .nested (SelectionTree.add path tree) := by
  cases path <;> rfl

/-- **One path** adds the segment that comes next to the keys of each level it reaches below, and no more. -/
theorem keysAt?_grow : ∀ (path p : List String) (s : Option Selection),
    keysAt? p (grow path s) =
      match segmentAfter p path with
      | some x => some (appended x ((s.bind (keysAt? p)).getD []))
      | none => s.bind (keysAt? p)
  | [], p, s => by
    rw [segmentAfter_nil]
    cases s with
    | none => exact keysAt?_whole p
    | some s => rfl
  -- at the level itself the name goes into the row of keys
  | name :: rest, [], s => by
    have hkeys : ∀ tree, Entries.keys (SelectionTree.alter name (grow rest) tree) = appended name (Entries.keys tree) := by
      intro tree
      rw [SelectionTree.alter, Entries.keys_alter, appended]
      simp
    rw [grow_cons]
    show some (Entries.keys _) = some _
    rw [hkeys]
    rcases s with _ | _ | tree <;> rfl
  -- below, only the entry of that name has changed, and there the rest of the path was added
  | name :: rest, x :: p, s => by
    have hs : s.bind (keysAt? (x :: p)) = (Entries.find? (· == x) (s.elim [] Selection.tree)).bind (keysAt? p) := by
      cases s with
      | none => rfl
      | some s => exact keysAt?_cons x p s
    rw [grow_cons, keysAt?_cons, hs, segmentAfter, Selection.tree, SelectionTree.alter]
    by_cases h : x = name
    · subst h
      rw [if_pos rfl, Entries.find?_alter_self _ (by simp), Option.bind_some]
      exact keysAt?_grow rest p _
    · rw [if_neg h, Entries.find?_alter_of_ne _ (by simpa using Ne.symm h)]
      intro k hk
      obtain rfl : k = name := by simpa using hk
      simpa using Ne.symm h

end Selection

/-! ## All paths -/

/-- The keys below a path in the order in which the paths of a list name them; `id` stands first at the root. -/
def namedBelow (p : List String) (paths : List (List String)) : List String :=
  (if p = [] then ["id"] else []) ++ paths.filterMap (segmentAfter p)

theorem namedBelow_concat (p : List String) (paths : List (List String)) (path : List String) :
    namedBelow p (paths ++ [path]) = namedBelow p paths ++ (segmentAfter p path).toList := by
  rw [namedBelow, List.filterMap_append, ← List.append_assoc, ← namedBelow]
  cases h : segmentAfter p path <;> simp [h]

theorem mem_namedBelow_iff {p : List String} {paths : List (List String)} {x : String} :
    x ∈ namedBelow p paths ↔ p ++ [x] = ["id"] ∨ ∃ path ∈ paths, p ++ [x] <+: path := by
  simp only [namedBelow, List.mem_append, List.mem_filterMap, segmentAfter_eq_some_iff]
  refine or_congr ?_ Iff.rfl
  cases p <;> simp

theorem namedBelow_eq_nil_iff {p : List String} (h : p ≠ []) {paths : List (List String)} :
    namedBelow p paths = [] ↔ ¬ ∃ path ∈ paths, p <+: path ∧ p ≠ path := by
  simp only [List.eq_nil_iff_forall_not_mem, ← exists_concat_prefix_iff, mem_namedBelow_iff]
  constructor
  · rintro hnone ⟨path, hpath, x, hx⟩
    exact hnone x (.inr ⟨path, hpath, hx⟩)
  · rintro hnone x (hid | ⟨path, hpath, hx⟩)
    · exact h (List.append_eq_singleton_iff.1 hid |>.resolve_right (by simp)).1
    · exact hnone ⟨path, hpath, x, hx⟩

namespace Selection

/-- **All paths**: a level has the keys that the paths name below it, each where it is named first, and there is no level
where none is named. -/
theorem keysAt?_ofPaths (p : List String) (paths : List (List String)) :
    keysAt? p (.nested (SelectionTree.ofPaths paths)) =
      if namedBelow p paths = [] then none else some (namedBelow p paths).eraseDups := by
  induction paths using List.reverseRecOn with
  | nil =>
    cases p with
    | nil => rfl
    | cons x p =>
      have hnone : namedBelow (x :: p) [] = [] := rfl
      rw [keysAt?_cons, if_pos hnone]
      by_cases h : x = "id"
      · simp [SelectionTree.ofPaths, Selection.tree, Entries.find?, h, keysAt?_whole]
      · simp [SelectionTree.ofPaths, Selection.tree, Entries.find?, Ne.symm h]
  | append_singleton paths path ih =>
    rw [SelectionTree.ofPaths, List.foldl_append, List.foldl_cons, List.foldl_nil, ← SelectionTree.ofPaths, ← grow_nested,
      keysAt?_grow, Option.bind_some, ih, namedBelow_concat]
    cases segmentAfter p path with
    | none => simp
    | some x =>
      rw [Option.toList_some, eraseDups_concat]
      by_cases h : namedBelow p paths = [] <;> simp [h]

/-- **Which nodes exist**: one for each beginning of a path, and the one of `id`. -/
theorem isSome_at?_ofPaths_iff {p : List String} (h : p ≠ []) (paths : List (List String)) :
    (at? p (.nested (SelectionTree.ofPaths paths))).isSome = true ↔ p = ["id"] ∨ ∃ path ∈ paths, p <+: path := by
  obtain rfl | ⟨p, x, rfl⟩ := List.eq_nil_or_concat p
  · exact absurd rfl h
  · rw [List.concat_eq_append, isSome_at?_concat_iff, keysAt?_ofPaths, ← mem_namedBelow_iff]
    by_cases hn : namedBelow p paths = []
    · simp [hn]
    · simp [hn, List.mem_eraseDups]

/-- **The keys of a node**: nested selections are never empty, and a node is selected as a whole if no path names anything
below it. -/
theorem keys?_of_at?_ofPaths {p : List String} {paths : List (List String)} {s : Selection}
    (h : at? p (.nested (SelectionTree.ofPaths paths)) = some s) :
    s.keys? = if namedBelow p paths = [] then none else some (namedBelow p paths).eraseDups := by
  rw [← keysAt?_ofPaths, keysAt?, h, Option.bind_some]

end Selection
end ListQuery
