import ListQuery.Proofs.SelectionLevels
/-!
# The nodes of a projection

What the executor is given for a field list: which nodes the document of the projection has, which of them are nested, and
in which order the keys of each level stand.  Main statement: `projection_nodes`.
-/
namespace ListQuery

/-! ## Field lists -/

theorem dropTrailing_eq_nil_iff {p : Char → Bool} : ∀ cs : List Char, dropTrailing p cs = [] ↔ ∀ c ∈ cs, p c = true
  | [] => by simp [dropTrailing]
  | c :: cs => by
    have ih := dropTrailing_eq_nil_iff (p := p) cs
    rw [dropTrailing, List.forall_mem_cons, ← ih]
    cases dropTrailing p cs with
    | nil => by_cases h : p c = true <;> simp [h]
    | cons d ds => simp

theorem forall_mem_dropWhile_iff {p : Char → Bool} : ∀ cs : List Char,
    (∀ c ∈ cs.dropWhile p, p c = true) ↔ ∀ c ∈ cs, p c = true
  | [] => Iff.rfl
  | c :: cs => by
    by_cases h : p c = true
    · rw [List.dropWhile_cons_of_pos h, forall_mem_dropWhile_iff cs, List.forall_mem_cons]
      exact (and_iff_right h).symm
    · rw [List.dropWhile_cons_of_neg h]

theorem trimBlank_eq_empty_iff {s : String} : trimBlank s = "" ↔ ∀ c ∈ s.toList, isBlank c = true := by
  rw [trimBlank, ← String.toList_inj, String.toList_ofList, trimChars]
  exact (dropTrailing_eq_nil_iff _).trans (forall_mem_dropWhile_iff _)

theorem fieldPaths_eq_nil_iff {fields : String} :
    fieldPaths fields = [] ↔ ∀ entry ∈ splitText ',' fields, ∀ c ∈ entry.toList, isBlank c = true := by
  unfold fieldPaths
  by_cases h : fields = ""
  · subst h
    simp [splitText, splitChars]
  · rw [if_neg h, List.filterMap_eq_nil_iff]
    refine forall₂_congr fun entry _ => ?_
    rw [← trimBlank_eq_empty_iff]
    by_cases he : trimBlank entry = "" <;> simp [he]

def parsedPaths (fields : Option String) : List (List String) := fields.elim [] fieldPaths

theorem parsedPaths_eq_nil_iff {fields : Option String} :
    parsedPaths fields = [] ↔
      ∀ list, fields = some list → ∀ entry ∈ splitText ',' list, ∀ c ∈ entry.toList, isBlank c = true := by
  cases fields with
  | none => simp [parsedPaths]
  | some list => simpa [parsedPaths] using fieldPaths_eq_nil_iff

theorem projection_eq (fields : Option String) :
    projection fields =
      if parsedPaths fields = [] then none else some (SelectionTree.ofPaths (parsedPaths fields)).toValue := by
  cases fields with
  | none => rfl
  | some list =>
    rw [projection, Option.bind_some, SelectionTree.ofFields?, parsedPaths, Option.elim_some]
    cases fieldPaths list <;> rfl

/-! ## Documents -/

namespace Value

/-- The entries that a value holds under its only key, `select`. -/
def nested? : Value → Option (List (String × Value))
  | map [(key, map below)] => if key = "select" then some below else none
  | _ => none

def at? : List String → Value → Option Value
  | [], v => some v
  | x :: p, v => v.nested?.bind fun below => (lookup? x below).bind (at? p)

/-- The node of a tree at a path.  The tree itself counts as what the root has nested. -/
def node? (tree : List (String × Value)) (p : List String) : Option Value := at? p (.map [("select", .map tree)])

mutual

/-- Whether two documents are equal up to the order of entries: they have equally many, and each of the first is found in
the second. -/
def sameDocument : Value → Value → Bool
  | map a, map b => a.length == b.length && sameEntries a b
  | v, w => sameKey v w

def sameEntries : List (String × Value) → List (String × Value) → Bool
  | [], _ => true
  | (key, v) :: rest, b => (match lookup? key b with | some w => sameDocument v w | none => false) && sameEntries rest b

end

theorem sameDocument_singleton (key : String) (v w : Value) :
    sameDocument (.map [(key, v)]) (.map [(key, w)]) = sameDocument v w := by
  have hkey : lookup? key [(key, w)] = some w := by simp [lookup?, Entries.find?]
  simp [sameDocument, sameEntries, hkey]

end Value

namespace SelectionTree

open Value (lookup?)

theorem lookup?_entries (x : String) : ∀ tree : SelectionTree,
    lookup? x (entries tree) = (Entries.find? (· == x) tree).map selectionValue
  | [] => rfl
  | (name, s) :: rest => by
    have ih := lookup?_entries x rest
    rw [lookup?] at ih ⊢
    rw [entries, Entries.find?, Entries.find?, ih]
    split <;> rfl

theorem keys_entries : ∀ tree : SelectionTree, Entries.keys (entries tree) = Entries.keys tree
  | [] => rfl
  | (name, _) :: rest => congrArg (name :: ·) (keys_entries rest)

theorem at?_selectionValue : ∀ (p : List String) (s : Selection), (selectionValue s).at? p = (s.at? p).map selectionValue
  | [], _ => rfl
  | _ :: _, .whole => rfl
  | x :: p, .nested tree => by
    rw [Selection.at?, Selection.tree, Option.map_bind]
    show (lookup? x (entries tree)).bind (Value.at? p) = _
    rw [lookup?_entries, Option.bind_map]
    exact congrArg _ (funext (at?_selectionValue p))

theorem node?_entries (p : List String) (tree : SelectionTree) :
    Value.node? (entries tree) p = ((Selection.nested tree).at? p).map selectionValue := at?_selectionValue p (.nested tree)

end SelectionTree

/-! ## Order does not count -/

namespace Selection

/-- Two selections are alike if they have the same levels, with the same keys in some order. -/
def Alike (s t : Selection) : Prop :=
  ∀ p, (∀ keys, s.keysAt? p = some keys → keys.Nodup) ∧ Option.Rel List.Perm (s.keysAt? p) (t.keysAt? p)

theorem Alike.perm {a b : SelectionTree} (h : Alike (.nested a) (.nested b)) :
    (Entries.keys a).Nodup ∧ (Entries.keys a).Perm (Entries.keys b) := by
  refine ⟨(h []).1 _ rfl, ?_⟩
  cases (h []).2 with
  | some hperm => exact hperm

theorem Alike.below {a b : SelectionTree} (h : Alike (.nested a) (.nested b)) {x : String} {s : Selection}
    (hmem : (x, s) ∈ a) : ∃ t, Entries.find? (· == x) b = some t ∧ Alike s t := by
  obtain ⟨hnd, hperm⟩ := h.perm
  have ha : Entries.find? (· == x) a = some s := Entries.find?_of_mem hnd hmem
  have hx : x ∈ Entries.keys b := hperm.mem_iff.1 (List.mem_map.2 ⟨_, hmem, rfl⟩)
  obtain ⟨t, hb⟩ : ∃ t, Entries.find? (· == x) b = some t := by
    rw [← Option.isSome_iff_exists, Entries.isSome_find?]
    simpa using hx
  refine ⟨t, hb, fun p => ?_⟩
  have hp := h (x :: p)
  rwa [keysAt?_cons, keysAt?_cons, tree, tree, ha, hb, Option.bind_some, Option.bind_some] at hp

end Selection

namespace SelectionTree

mutual

theorem sameDocument_of_alike : ∀ {s t : Selection}, s.Alike t → (selectionValue s).sameDocument (selectionValue t) = true
  | .whole, .whole, _ => rfl
  | .whole, .nested b, h => by cases (h []).2
  | .nested a, .whole, h => by cases (h []).2
  | .nested a, .nested b, h => by
    -- equal keys in number, so it is enough that each entry of the first tree is found in the second
    have hlength : (entries a).length = (entries b).length := by
      have hkeys := h.perm.2.length_eq
      rwa [← keys_entries, ← keys_entries, Entries.keys, Entries.keys, List.length_map, List.length_map] at hkeys
    have hentries := sameEntries_of_alike fun x s hmem => h.below (x := x) (s := s) hmem
    rw [selectionValue, selectionValue, Value.sameDocument_singleton, Value.sameDocument, hlength, hentries]
    simp

theorem sameEntries_of_alike : ∀ {a b : SelectionTree},
    (∀ x s, (x, s) ∈ a → ∃ t, Entries.find? (· == x) b = some t ∧ s.Alike t) →
      Value.sameEntries (entries a) (entries b) = true
  | [], _, _ => rfl
  | (x, s) :: rest, b, h => by
    obtain ⟨t, ht, hs⟩ := h x s List.mem_cons_self
    have hrest := sameEntries_of_alike fun y u hmem => h y u (List.mem_cons_of_mem _ hmem)
    rw [entries, Value.sameEntries, lookup?_entries, ht, Option.map_some, hrest, Bool.and_true]
    exact sameDocument_of_alike hs

end

theorem alike_ofPaths {paths others : List (List String)} (h : ∀ path, path ∈ paths ↔ path ∈ others) :
    (Selection.nested (ofPaths paths)).Alike (.nested (ofPaths others)) := by
  intro p
  have hmem : ∀ x, x ∈ namedBelow p paths ↔ x ∈ namedBelow p others := by
    intro x
    simp only [mem_namedBelow_iff, h]
  have hnil : namedBelow p paths = [] ↔ namedBelow p others = [] := by
    simp only [List.eq_nil_iff_forall_not_mem, hmem]
  rw [Selection.keysAt?_ofPaths, Selection.keysAt?_ofPaths]
  by_cases hp : namedBelow p paths = []
  · rw [if_pos hp, if_pos (hnil.1 hp)]
    exact ⟨fun _ hnone => (nomatch hnone), .none⟩
  · rw [if_neg hp, if_neg (mt hnil.2 hp)]
    refine ⟨fun keys hkeys => Option.some.inj hkeys ▸ nodup_eraseDups _, .some ?_⟩
    rw [List.perm_ext_iff_of_nodup (nodup_eraseDups _) (nodup_eraseDups _)]
    simpa [List.mem_eraseDups] using hmem

end SelectionTree

/-! ## Which nodes there are -/

/-- What the tree of a projection has to do with the paths that it was made of. -/
structure HasNodes (tree : List (String × Value)) (paths : List (List String)) : Prop where
  /-- There is a node for each beginning of a path, and one for `id`. -/
  isSome_iff : ∀ p, p ≠ [] → ((Value.node? tree p).isSome = true ↔ p = ["id"] ∨ ∃ path ∈ paths, p <+: path)
  /-- A node is true if no path goes on below it. -/
  whole_iff : ∀ p node, p ≠ [] → Value.node? tree p = some node →
    (node = .bool true ↔ ¬ ∃ path ∈ paths, p <+: path ∧ p ≠ path)
  /-- Any other node holds entries under its only key. -/
  nested : ∀ p node, p ≠ [] → Value.node? tree p = some node → node ≠ .bool true →
    ∃ below, below ≠ [] ∧ node = .map [("select", .map below)]
  /-- The keys of a level stand in the order in which the paths name them first. -/
  keys : ∀ p below, Value.node? tree p = some (.map [("select", .map below)]) →
    Entries.keys below = (namedBelow p paths).eraseDups

namespace SelectionTree

theorem eq_true_or_nested_of_node? {p : List String} {paths : List (List String)} {node : Value}
    (h : Value.node? (entries (ofPaths paths)) p = some node) :
    node = .bool true ∧ namedBelow p paths = [] ∨
      ∃ below, node = .map [("select", .map below)] ∧ namedBelow p paths ≠ [] ∧
        Entries.keys below = (namedBelow p paths).eraseDups := by
  rw [node?_entries, Option.map_eq_some_iff] at h
  obtain ⟨s, hs, rfl⟩ := h
  have hkeys := Selection.keys?_of_at?_ofPaths hs
  by_cases hp : namedBelow p paths = []
  · rw [if_pos hp] at hkeys
    cases s with
    | whole => exact .inl ⟨rfl, hp⟩
    | nested tree => cases hkeys
  · rw [if_neg hp] at hkeys
    cases s with
    | whole => cases hkeys
    | nested tree => exact .inr ⟨entries tree, rfl, hp, (keys_entries tree).trans (Option.some.inj hkeys)⟩

theorem hasNodes_ofPaths (paths : List (List String)) : HasNodes (entries (ofPaths paths)) paths where
  isSome_iff p hp := by
    rw [node?_entries, Option.isSome_map]
    exact Selection.isSome_at?_ofPaths_iff hp paths
  whole_iff p node hp hnode := by
    rw [← namedBelow_eq_nil_iff hp]
    rcases eq_true_or_nested_of_node? hnode with ⟨rfl, hnil⟩ | ⟨below, rfl, hne, -⟩
    · exact iff_of_true rfl hnil
    · exact iff_of_false (fun h => nomatch h) hne
  nested p node _ hnode hwhole := by
    rcases eq_true_or_nested_of_node? hnode with ⟨rfl, -⟩ | ⟨below, rfl, hne, hkeys⟩
    · exact absurd rfl hwhole
    · refine ⟨below, ?_, rfl⟩
      rintro rfl
      obtain ⟨x, hx⟩ := List.exists_mem_of_ne_nil _ hne
      rw [← List.mem_eraseDups, ← hkeys] at hx
      cases hx
  keys p below hnode := by
    rcases eq_true_or_nested_of_node? hnode with ⟨hvalue, -⟩ | ⟨inner, hvalue, -, hkeys⟩
    · cases hvalue
    · cases hvalue
      exact hkeys

end SelectionTree

/-- **The nodes of a projection.**  A field list gives a projection unless all of its entries are blank.  Its nodes are the
beginnings of the parsed paths and `id`, nested where a path goes on, and lists with the same paths give equal documents. -/
theorem projection_nodes (fields : Option String) :
    (projection fields = none ↔
      ∀ list, fields = some list → ∀ entry ∈ splitText ',' list, ∀ c ∈ entry.toList, isBlank c = true) ∧
    (∀ document, projection fields = some document → ∃ tree, document = .map tree ∧ HasNodes tree (parsedPaths fields)) ∧
    ∀ other, (∀ path, path ∈ parsedPaths fields ↔ path ∈ parsedPaths other) →
      Option.Rel (fun v w => v.sameDocument w = true) (projection fields) (projection other) := by
  rw [← parsedPaths_eq_nil_iff, projection_eq]
  refine ⟨by simp, ?_, ?_⟩
  · intro document hdocument
    split at hdocument
    · cases hdocument
    · exact ⟨_, (Option.some.inj hdocument).symm, SelectionTree.hasNodes_ofPaths _⟩
  · intro other hother
    have hnil : parsedPaths fields = [] ↔ parsedPaths other = [] := by
      simp only [List.eq_nil_iff_forall_not_mem, hother]
    rw [projection_eq]
    by_cases h : parsedPaths fields = []
    · rw [if_pos h, if_pos (hnil.1 h)]
      exact .none
    · rw [if_neg h, if_neg (mt hnil.2 h)]
      have hsame := SelectionTree.sameDocument_of_alike (SelectionTree.alike_ofPaths hother)
      rw [SelectionTree.selectionValue, SelectionTree.selectionValue, Value.sameDocument_singleton] at hsame
      exact .some hsame

/-- A list with a field that is named twice, one named `select`, one whose name is empty, and a blank entry. -/
theorem projection_nodes_parent :
    ∃ tree, projection (some "select.id, parent.name,parent, ,.height,parent.name") = some (.map tree) ∧
      Entries.keys tree = ["id", "select", "parent", ""] ∧ (Value.node? tree ["parent"]).isSome = true ∧
      Value.node? tree ["parent"] ≠ some (.bool true) ∧
      Option.Rel (fun v w => v.sameDocument w = true)
        (projection (some "select.id, parent.name,parent, ,.height,parent.name"))
        (projection (some "parent,.height,parent . name,select.id")) := by
  obtain ⟨-, hnodes, hsame⟩ := projection_nodes (some "select.id, parent.name,parent, ,.height,parent.name")
  have hpaths : parsedPaths (some "select.id, parent.name,parent, ,.height,parent.name") =
      [["select", "id"], ["parent", "name"], ["parent"], ["", "height"], ["parent", "name"]] := by decide +kernel
  have hothers : parsedPaths (some "parent,.height,parent . name,select.id") =
      [["parent"], ["", "height"], ["parent", "name"], ["select", "id"]] := by decide +kernel
  obtain ⟨document, hdocument⟩ : ∃ document,
      projection (some "select.id, parent.name,parent, ,.height,parent.name") = some document := by
    rw [projection_eq, hpaths]
    exact ⟨_, rfl⟩
  obtain ⟨tree, rfl, nodes⟩ := hnodes document hdocument
  rw [hpaths] at nodes
  have hparent := (nodes.isSome_iff ["parent"] (by decide)).2 (.inr ⟨["parent", "name"], by decide, by decide⟩)
  refine ⟨tree, hdocument, ?_, hparent, ?_, hsame _ fun path => ?_⟩
  · rw [nodes.keys [] tree rfl]
    decide
  · intro hwhole
    exact (nodes.whole_iff _ _ (by decide) hwhole).1 rfl ⟨["parent", "name"], by decide, by decide, by decide⟩
  · rw [hpaths, hothers]
    exact ⟨(by decide : ∀ path ∈ [["select", "id"], ["parent", "name"], ["parent"], ["", "height"], ["parent", "name"]],
        path ∈ [["parent"], ["", "height"], ["parent", "name"], ["select", "id"]]) path,
      (by decide : ∀ path ∈ [["parent"], ["", "height"], ["parent", "name"], ["select", "id"]],
        path ∈ [["select", "id"], ["parent", "name"], ["parent"], ["", "height"], ["parent", "name"]]) path⟩

end ListQuery
