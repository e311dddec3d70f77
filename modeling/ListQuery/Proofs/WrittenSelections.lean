import ListQuery.Proofs.FilterSpelling
import ListQuery.Proofs.ProjectionNodes
import Mathlib.Data.Bool.AllAny
/-!
# Selections written out

A tree can be written out as a field list again: the paths to the fields that are selected as a whole, in the order in which
they stand in the tree.  The tree of that list is the tree itself, with every key where it was (`ofPaths_leaves`), and the
list is read back path by path, as no path in it needs trimming (`fieldPaths_fieldText`).  Main statement:
`SelectionTree.written_form`.
-/
namespace ListQuery

/-! ## Proper selections -/

namespace Selection

/-- At each of its levels a selection names some field, and none twice. -/
def IsProper (s : Selection) : Prop := ∀ p keys, s.keysAt? p = some keys → keys.Nodup ∧ keys ≠ []

theorem isProper_ofPaths (paths : List (List String)) : (nested (SelectionTree.ofPaths paths)).IsProper := by
  intro p keys hkeys
  rw [keysAt?_ofPaths] at hkeys
  split at hkeys
  · cases hkeys
  · rename_i hne
    obtain rfl := Option.some.inj hkeys
    refine ⟨nodup_eraseDups _, fun hnil => hne ?_⟩
    rw [List.eq_nil_iff_forall_not_mem] at hnil ⊢
    exact fun x hx => hnil x (List.mem_eraseDups.2 hx)

theorem IsProper.keys {tree : SelectionTree} (h : (nested tree).IsProper) : (Entries.keys tree).Nodup := (h [] _ rfl).1

theorem IsProper.ne_nil {tree : SelectionTree} (h : (nested tree).IsProper) : tree ≠ [] := by
  rintro rfl
  exact (h [] _ rfl).2 rfl

theorem IsProper.below {tree : SelectionTree} (h : (nested tree).IsProper) {x : String} {s : Selection}
    (hmem : (x, s) ∈ tree) :
    s.IsProper := by
  intro p keys hkeys
  refine h (x :: p) keys ?_
  rw [keysAt?_cons, Selection.tree, Entries.find?_of_mem h.keys hmem]
  exact hkeys

def growAll (paths : List (List String)) (s : Option Selection) : Option Selection :=
  paths.foldl (fun s path => some (grow path s)) s

theorem growAll_nested (paths : List (List String)) (tree : SelectionTree) :
    growAll paths (some (nested tree)) =
      some (nested (paths.foldl (fun tree path => SelectionTree.add path tree) tree)) := by
  induction paths generalizing tree with
  | nil => rfl
  | cons path paths ih => rw [growAll, List.foldl_cons, grow_nested, ← growAll, ih, List.foldl_cons]

end Selection

/-! ## The tree of the leaves -/

namespace SelectionTree

open Selection (IsProper grow growAll)

theorem add_cons (name : String) (rest : List String) (tree : SelectionTree) :
    add (name :: rest) tree = alter name (grow rest) tree := by
  cases rest <;> rfl

theorem foldl_add_map_cons (name : String) (start : SelectionTree) : ∀ {rests : List (List String)}, rests ≠ [] →
    (rests.map (name :: ·)).foldl (fun tree path => add path tree) start =
      alter name (fun s => (growAll rests s).getD .whole) start
  | [rest], _ => add_cons name rest start
  | rest :: next :: rests, _ => by
    rw [List.map_cons, List.foldl_cons, foldl_add_map_cons name _ (List.cons_ne_nil next rests), add_cons, alter,
      alter, Entries.alter_alter _ _ (by simp)]
    rfl

theorem mem_leaves_iff {p : List String} : ∀ {tree : SelectionTree},
    p ∈ leaves tree ↔ ∃ x s rest, (x, s) ∈ tree ∧ rest ∈ selectionLeaves s ∧ p = x :: rest
  | [] => by simp [leaves]
  | (x, s) :: tree => by
    rw [leaves, List.mem_append, @mem_leaves_iff p tree, List.mem_map]
    constructor
    · rintro (⟨rest, hrest, rfl⟩ | ⟨y, t, rest, hmem, hrest, rfl⟩)
      · exact ⟨x, s, rest, List.mem_cons_self, hrest, rfl⟩
      · exact ⟨y, t, rest, List.mem_cons_of_mem _ hmem, hrest, rfl⟩
    · rintro ⟨y, t, rest, hmem, hrest, rfl⟩
      rcases List.mem_cons.1 hmem with heq | hmem
      · obtain ⟨rfl, rfl⟩ := Prod.mk.inj heq
        exact .inl ⟨rest, hrest, rfl⟩
      · exact .inr ⟨y, t, rest, hmem, hrest, rfl⟩

theorem ne_nil_of_mem_leaves {p : List String} {tree : SelectionTree} (h : p ∈ leaves tree) : p ≠ [] := by
  obtain ⟨x, s, rest, -, -, rfl⟩ := mem_leaves_iff.1 h
  exact List.cons_ne_nil x rest

theorem growAll_of_below {paths : List (List String)} (hne : paths ≠ []) (hbelow : ∀ p ∈ paths, p ≠ [])
    {start : Option Selection}
    (hstart : start.elim [] Selection.tree = []) :
    growAll paths start = some (.nested (paths.foldl (fun tree path => add path tree) [])) := by
  obtain ⟨path, paths, rfl⟩ := List.exists_cons_of_ne_nil hne
  obtain ⟨name, rest, rfl⟩ := List.exists_cons_of_ne_nil (hbelow path List.mem_cons_self)
  have hgrow : grow (name :: rest) start = .nested (add (name :: rest) []) := by rw [grow, hstart]; simp
  rw [growAll, List.foldl_cons, hgrow, ← growAll, Selection.growAll_nested, List.foldl_cons]

mutual

theorem selectionLeaves_ne_nil : ∀ {s : Selection}, s.IsProper → selectionLeaves s ≠ []
  | .whole, _ => List.cons_ne_nil _ _
  | .nested _, h => leaves_ne_nil h.ne_nil fun _ _ hmem => h.below hmem

theorem leaves_ne_nil : ∀ {tree : SelectionTree}, tree ≠ [] → (∀ x s, (x, s) ∈ tree → s.IsProper) → leaves tree ≠ []
  | [], hne, _ => absurd rfl hne
  | (x, s) :: rest, _, h => by
    rw [leaves]
    have hs := selectionLeaves_ne_nil (h x s List.mem_cons_self)
    simp [hs]

end

mutual

theorem growAll_selectionLeaves : ∀ {s : Selection}, s.IsProper → ∀ {start : Option Selection},
    start = none ∨ start = some .whole → growAll (selectionLeaves s) start = some s
  | .whole, _, _, hstart => by rcases hstart with rfl | rfl <;> rfl
  | .nested tree, h, start, hstart => by
    have hempty : start.elim [] Selection.tree = [] := by rcases hstart with rfl | rfl <;> rfl
    rw [selectionLeaves, growAll_of_below (leaves_ne_nil h.ne_nil fun _ _ hmem => h.below hmem)
      (fun p hp => ne_nil_of_mem_leaves hp) hempty, foldl_add_leaves (by simpa using h.keys) fun _ _ hmem => h.below hmem]
    rfl

theorem foldl_add_leaves : ∀ {tree front : SelectionTree}, (Entries.keys (front ++ tree)).Nodup →
    (∀ x s, (x, s) ∈ tree → s.IsProper) → (leaves tree).foldl (fun tree path => add path tree) front = front ++ tree
  | [], front, _, _ => (List.append_nil front).symm
  | (x, s) :: rest, front, hkeys, h => by
    have hs := h x s List.mem_cons_self
    have hnew : ∀ k ∈ Entries.keys front, (k == x) = false := by
      rintro k hk
      rw [Entries.keys, List.map_append, List.nodup_append] at hkeys
      exact beq_eq_false_iff_ne.2 (hkeys.2.2 k hk x List.mem_cons_self)
    rw [leaves, List.foldl_append, foldl_add_map_cons x front (selectionLeaves_ne_nil hs), alter,
      Entries.alter_of_new x _ hnew, growAll_selectionLeaves hs (.inl rfl), Option.getD_some,
      foldl_add_leaves (by simpa using hkeys) fun y t hmem => h y t (List.mem_cons_of_mem _ hmem)]
    simp

end

theorem exists_ofPaths_eq (paths : List (List String)) : ∃ s rest, ofPaths paths = ("id", s) :: rest := by
  have hkeys : Entries.keys (ofPaths paths) = (namedBelow [] paths).eraseDups := by
    have hroot := Selection.keysAt?_ofPaths [] paths
    rw [if_neg (by simp [namedBelow])] at hroot
    exact Option.some.inj hroot
  rw [namedBelow, if_pos rfl, List.cons_append, List.eraseDups_cons] at hkeys
  cases htree : ofPaths paths with
  | nil => rw [htree] at hkeys; cases hkeys
  | cons entry rest =>
    rw [htree] at hkeys
    exact ⟨entry.2, rest, congrArg (· :: rest) (Prod.ext (List.cons.inj hkeys).1 rfl)⟩

/-- **The tree of the leaves** of a tree is that tree, with every key where it was. -/
theorem ofPaths_leaves (paths : List (List String)) : ofPaths (leaves (ofPaths paths)) = ofPaths paths := by
  have hproper := Selection.isProper_ofPaths paths
  obtain ⟨s, rest, htree⟩ := exists_ofPaths_eq paths
  rw [htree] at hproper ⊢
  have hs : s.IsProper := hproper.below List.mem_cons_self
  -- the entry of `id` is there from the start, and all others come behind it
  have hid : alter "id" (fun t => (growAll (selectionLeaves s) t).getD .whole) [("id", .whole)] = [("id", s)] := by
    simp [alter, Entries.alter, growAll_selectionLeaves hs (.inr rfl)]
  rw [ofPaths, leaves, List.foldl_append, foldl_add_map_cons "id" _ (selectionLeaves_ne_nil hs), hid,
    foldl_add_leaves hproper.keys fun x t hmem => hproper.below (List.mem_cons_of_mem _ hmem)]
  rfl

/-! ## Which paths are leaves -/

theorem mem_selectionLeaves_iff : ∀ {p : List String} {s : Selection}, s.IsProper →
    (p ∈ selectionLeaves s ↔ s.at? p = some .whole)
  | [], .whole, _ => by simp [selectionLeaves, Selection.at?]
  | [], .nested tree, _ => by
    refine iff_of_false (fun h => ne_nil_of_mem_leaves h rfl) fun h => ?_
    cases h
  | x :: p, .whole, _ => by simp [selectionLeaves, Selection.at?, Selection.tree, Entries.find?]
  | x :: p, .nested tree, h => by
    rw [selectionLeaves, mem_leaves_iff, Selection.at?, Selection.tree, Option.bind_eq_some_iff]
    constructor
    · rintro ⟨y, s, rest, hmem, hrest, heq⟩
      obtain ⟨rfl, rfl⟩ := List.cons.inj heq
      exact ⟨s, Entries.find?_of_mem h.keys hmem, (mem_selectionLeaves_iff (h.below hmem)).1 hrest⟩
    · rintro ⟨s, hfind, hs⟩
      have hmem := Entries.mem_pair_of_find? hfind
      exact ⟨x, s, p, hmem, (mem_selectionLeaves_iff (h.below hmem)).2 hs, rfl⟩

theorem mem_leaves_iff_node? {tree : SelectionTree} (h : (Selection.nested tree).IsProper) {p : List String} :
    p ∈ leaves tree ↔ Value.node? (entries tree) p = some (.bool true) := by
  have htrue : ∀ s : Selection, selectionValue s = .bool true ↔ s = .whole := by
    intro s
    cases s <;> simp [selectionValue]
  rw [← selectionLeaves, mem_selectionLeaves_iff h, node?_entries, Option.map_eq_some_iff]
  simp [htrue]

theorem mem_of_mem_leaves {paths : List (List String)} {p : List String} (h : p ∈ leaves (ofPaths paths)) :
    p = ["id"] ∨ p ∈ paths := by
  have hnode : (Selection.nested (ofPaths paths)).at? p = some .whole :=
    (mem_selectionLeaves_iff (Selection.isProper_ofPaths paths)).1 h
  have hne := ne_nil_of_mem_leaves h
  rcases (Selection.isSome_at?_ofPaths_iff hne paths).1 (by rw [hnode]; rfl) with hid | ⟨path, hpath, hprefix⟩
  · exact .inl hid
  · refine .inr ?_
    -- no path goes on below a leaf
    have hkeys := Selection.keys?_of_at?_ofPaths hnode
    have hlast : namedBelow p paths = [] := by
      by_contra hnamed
      rw [if_neg hnamed] at hkeys
      cases hkeys
    have heq : p = path := by
      by_contra hneq
      exact (namedBelow_eq_nil_iff hne).1 hlast ⟨path, hpath, hprefix, hneq⟩
    exact heq ▸ hpath

/-- Neither of two paths goes on where the other ends. -/
def Diverge (p q : List String) : Prop := ¬p <+: q ∧ ¬q <+: p

theorem diverge_cons_iff {x : String} {p q : List String} : Diverge (x :: p) (x :: q) ↔ Diverge p q := by
  simp [Diverge, List.cons_prefix_cons]

theorem diverge_of_ne {x y : String} (h : x ≠ y) (p q : List String) : Diverge (x :: p) (y :: q) := by
  simp [Diverge, List.cons_prefix_cons, h, Ne.symm h]

mutual

theorem pairwise_selectionLeaves : ∀ {s : Selection}, s.IsProper → (selectionLeaves s).Pairwise Diverge
  | .whole, _ => List.pairwise_singleton _ _
  | .nested _, h => pairwise_leaves h.keys fun _ _ hmem => h.below hmem

theorem pairwise_leaves : ∀ {tree : SelectionTree}, (Entries.keys tree).Nodup → (∀ x s, (x, s) ∈ tree → s.IsProper) →
    (leaves tree).Pairwise Diverge
  | [], _, _ => .nil
  | (x, s) :: rest, hkeys, h => by
    obtain ⟨hx, hrest⟩ := List.nodup_cons.1 hkeys
    rw [leaves, List.pairwise_append, List.pairwise_map]
    refine ⟨(pairwise_selectionLeaves (h x s List.mem_cons_self)).imp diverge_cons_iff.2,
      pairwise_leaves hrest fun y t hmem => h y t (List.mem_cons_of_mem _ hmem), fun p hp q hq => ?_⟩
    obtain ⟨p, -, rfl⟩ := List.mem_map.1 hp
    obtain ⟨y, t, q, hmem, -, rfl⟩ := mem_leaves_iff.1 hq
    refine diverge_of_ne ?_ p q
    rintro rfl
    exact hx (List.mem_map.2 ⟨_, hmem, rfl⟩)

end

end SelectionTree

/-! ## Paths as a field list -/

theorem mem_intercalate_of_mem {sep c : Char} {row : List Char} (hc : c ∈ row) : ∀ {rows : List (List Char)}, row ∈ rows →
    c ∈ [sep].intercalate rows
  | [_], hrow => by
    rw [List.intercalate_singleton]
    exact List.mem_singleton.1 hrow ▸ hc
  | first :: next :: rows, hrow => by
    rw [List.intercalate_cons_cons]
    rcases List.mem_cons.1 hrow with rfl | hrow
    · simp [hc]
    · exact List.mem_append_right _ (mem_intercalate_of_mem hc hrow)

theorem of_mem_intercalate {sep c : Char} : ∀ {rows : List (List Char)}, c ∈ [sep].intercalate rows →
    c = sep ∨ ∃ row ∈ rows, c ∈ row
  | [], hc => by cases hc
  | [row], hc => .inr ⟨row, List.mem_cons_self, by rwa [List.intercalate_singleton] at hc⟩
  | first :: next :: rows, hc => by
    rw [List.intercalate_cons_cons, List.mem_append, List.mem_append, List.mem_singleton] at hc
    rcases hc with (hc | hc) | hc
    · exact .inr ⟨first, List.mem_cons_self, hc⟩
    · exact .inl hc
    · exact (of_mem_intercalate hc).imp_right fun ⟨row, hrow, hc⟩ => ⟨row, List.mem_cons_of_mem _ hrow, hc⟩

theorem isTrimmed_intercalate {p : Char → Bool} {sep : Char} (hsep : p sep = false) : ∀ {rows : List (List Char)},
    (∀ row ∈ rows, IsTrimmed p row) → IsTrimmed p ([sep].intercalate rows)
  | [], _ => ⟨fun _ hc => (nomatch hc), fun _ hc => (nomatch hc)⟩
  | [row], h => by
    rw [List.intercalate_singleton]
    exact h row List.mem_cons_self
  | first :: next :: rows, h => by
    rw [List.intercalate_cons_cons, List.append_assoc, List.singleton_append]
    exact (h first List.mem_cons_self).join hsep
      (isTrimmed_intercalate hsep fun row hrow => h row (List.mem_cons_of_mem _ hrow))

def fieldText (paths : List (List String)) : String := ",".intercalate (paths.map fun path => ".".intercalate path)

structure IsFieldPath (path : List String) : Prop where
  ne_nil : path ≠ []
  ne_blank : path ≠ [""]
  trimmed : ∀ name ∈ path, trimBlank name = name
  plain : ∀ name ∈ path, ',' ∉ name.toList ∧ '.' ∉ name.toList

theorem isFieldPath_id : IsFieldPath ["id"] := by
  constructor <;> decide +kernel

theorem isFieldPath_of_mem_fieldPaths {fields : String} {path : List String} (h : path ∈ fieldPaths fields) :
    IsFieldPath path := by
  unfold fieldPaths at h
  split at h
  · cases h
  obtain ⟨entry, hentry, hpath⟩ := List.mem_filterMap.1 h
  obtain ⟨-, hcommas, -⟩ := splitText_eq_iff.1 (rfl : splitText ',' fields = _)
  obtain ⟨hne, hdots, hjoin⟩ := splitText_eq_iff.1 (rfl : splitText '.' (trimBlank entry) = _)
  dsimp only at hpath
  split at hpath
  · cases hpath
  rename_i hblank
  obtain rfl := Option.some.inj hpath
  have hsub : ∀ (s : String) (c : Char), c ∈ (trimBlank s).toList → c ∈ s.toList := by
    intro s c hc
    rw [trimBlank, String.toList_ofList] at hc
    exact (trimChars_sublist _ _).mem hc
  constructor
  · simpa using hne
  · intro hall
    -- only a single piece could give this path, and it would be the entry
    obtain ⟨piece, hpiece, hempty⟩ := List.map_eq_singleton_iff.1 hall
    rw [hpiece, String.intercalate_singleton] at hjoin
    rw [← hjoin, trimBlank_trimBlank] at hempty
    exact hblank hempty
  · intro name hname
    obtain ⟨piece, -, rfl⟩ := List.mem_map.1 hname
    exact trimBlank_trimBlank piece
  · intro name hname
    obtain ⟨piece, hpiece, rfl⟩ := List.mem_map.1 hname
    refine ⟨fun hc => hcommas entry hentry ?_, fun hc => hdots piece hpiece (hsub piece _ hc)⟩
    have hin : ',' ∈ (trimBlank entry).toList := by
      rw [hjoin, String.toList_intercalate]
      exact mem_intercalate_of_mem (hsub piece _ hc) (List.mem_map.2 ⟨piece, hpiece, rfl⟩)
    exact hsub entry _ hin

namespace IsFieldPath

variable {path : List String}

theorem splitText_eq (h : IsFieldPath path) : splitText '.' (".".intercalate path) = path :=
  splitText_eq_iff.2 ⟨h.ne_nil, fun name hname => (h.plain name hname).2, rfl⟩

theorem intercalate_ne_empty (h : IsFieldPath path) : ".".intercalate path ≠ "" := by
  intro hempty
  have hsplit := h.splitText_eq
  rw [hempty] at hsplit
  exact h.ne_blank hsplit.symm

theorem noComma (h : IsFieldPath path) : ',' ∉ (".".intercalate path).toList := by
  intro hc
  rw [String.toList_intercalate] at hc
  rcases of_mem_intercalate hc with hsep | ⟨row, hrow, hc⟩
  · cases hsep
  · obtain ⟨name, hname, rfl⟩ := List.mem_map.1 hrow
    exact (h.plain name hname).1 hc

theorem trimBlank_eq (h : IsFieldPath path) : trimBlank (".".intercalate path) = ".".intercalate path := by
  rw [trimBlank_eq_self_iff, String.toList_intercalate]
  refine isTrimmed_intercalate (by decide) fun row hrow => ?_
  obtain ⟨name, hname, rfl⟩ := List.mem_map.1 hrow
  exact trimBlank_eq_self_iff.1 (h.trimmed name hname)

end IsFieldPath

variable {paths : List (List String)}

theorem splitText_fieldText (hne : paths ≠ []) (h : ∀ path ∈ paths, IsFieldPath path) :
    splitText ',' (fieldText paths) = paths.map fun path => ".".intercalate path := by
  refine splitText_eq_iff.2 ⟨by simpa using hne, fun entry hentry => ?_, rfl⟩
  obtain ⟨path, hpath, rfl⟩ := List.mem_map.1 hentry
  exact (h path hpath).noComma

theorem fieldPaths_fieldText (h : ∀ path ∈ paths, IsFieldPath path) : fieldPaths (fieldText paths) = paths := by
  by_cases hne : paths = []
  · subst hne
    rfl
  have hsplit := splitText_fieldText hne h
  have htext : fieldText paths ≠ "" := by
    intro hempty
    obtain ⟨path, paths, rfl⟩ := List.exists_cons_of_ne_nil hne
    rw [hempty] at hsplit
    exact (h path List.mem_cons_self).intercalate_ne_empty (List.cons.inj hsplit).1.symm
  rw [fieldPaths, if_neg htext, hsplit, List.filterMap_map]
  refine (List.filterMap_congr fun path hpath => ?_).trans List.filterMap_some
  have hp := h path hpath
  rw [Function.comp]
  dsimp only
  rw [hp.trimBlank_eq, if_neg hp.intercalate_ne_empty, hp.splitText_eq, List.map_congr_left hp.trimmed, List.map_id']

/-- No blanks stand around the entries of a field list or around the segments of an entry, and no entry is empty. -/
def IsTidy (fields : String) : Prop :=
  ∀ entry ∈ splitText ',' fields, entry ≠ "" ∧ trimBlank entry = entry ∧ ∀ name ∈ splitText '.' entry, trimBlank name = name

theorem isTidy_fieldText (hne : paths ≠ []) (h : ∀ path ∈ paths, IsFieldPath path) : IsTidy (fieldText paths) := by
  intro entry hentry
  rw [splitText_fieldText hne h] at hentry
  obtain ⟨path, hpath, rfl⟩ := List.mem_map.1 hentry
  have hp := h path hpath
  rw [hp.splitText_eq]
  exact ⟨hp.intercalate_ne_empty, hp.trimBlank_eq, hp.trimmed⟩

theorem of_mem_fieldText {c : Char} (hc : c ∈ (fieldText paths).toList) :
    c = ',' ∨ c = '.' ∨ ∃ path ∈ paths, ∃ name ∈ path, c ∈ name.toList := by
  rw [fieldText, String.toList_intercalate, List.map_map] at hc
  rcases of_mem_intercalate hc with hsep | ⟨row, hrow, hc⟩
  · exact .inl hsep
  obtain ⟨path, hpath, rfl⟩ := List.mem_map.1 hrow
  rw [Function.comp, String.toList_intercalate] at hc
  rcases of_mem_intercalate hc with hsep | ⟨row, hrow, hc⟩
  · exact .inr (.inl hsep)
  obtain ⟨name, hname, rfl⟩ := List.mem_map.1 hrow
  exact .inr (.inr ⟨path, hpath, name, hname, hc⟩)

/-! ## The written form of a tree -/

namespace SelectionTree

def written (tree : SelectionTree) : String := fieldText (leaves tree)

theorem ofFields?_eq_some_iff {fields : String} {tree : SelectionTree} :
    ofFields? fields = some tree ↔ fieldPaths fields ≠ [] ∧ ofPaths (fieldPaths fields) = tree := by
  rw [ofFields?]
  cases fieldPaths fields <;> simp

theorem isFieldPath_of_mem_leaves {fields : String} {p : List String} (h : p ∈ leaves (ofPaths (fieldPaths fields))) :
    IsFieldPath p := by
  rcases mem_of_mem_leaves h with rfl | hp
  · exact isFieldPath_id
  · exact isFieldPath_of_mem_fieldPaths hp

/-- **A tree written out.**  The paths to the nodes of a tree that are true, written as a field list, give the tree
again with the same keys in the same order at every level.  None of these paths goes on where another one ends, other
trees are written in other ways, and no blanks stand around an entry or a segment; a blank in the text is one inside a
segment of the list that the tree was made of. -/
theorem written_form {fields : String} {tree : SelectionTree} (h : ofFields? fields = some tree) :
    projection (some fields) = some tree.toValue ∧ ofFields? tree.written = some tree ∧
    (∀ p, p ∈ leaves tree ↔ Value.node? (entries tree) p = some (.bool true)) ∧ fieldPaths tree.written = leaves tree ∧
    (leaves tree).Pairwise Diverge ∧
    (∀ other tree', ofFields? other = some tree' → (tree'.written = tree.written ↔ tree' = tree)) ∧
    IsTidy tree.written ∧
    ∀ c ∈ tree.written.toList, isBlank c = true → ∃ path ∈ fieldPaths fields, ∃ name ∈ path, c ∈ name.toList := by
  have hproj : projection (some fields) = some tree.toValue := by rw [projection, Option.bind_some, h, Option.map_some]
  have hread : ∀ {other : String} {tree' : SelectionTree},
      ofFields? other = some tree' → ofFields? tree'.written = some tree' := by
    intro other tree' hother
    obtain ⟨-, rfl⟩ := ofFields?_eq_some_iff.1 hother
    have hpaths := fieldPaths_fieldText fun p hp => @isFieldPath_of_mem_leaves other p hp
    refine ofFields?_eq_some_iff.2 ⟨?_, ?_⟩
    · rw [written, hpaths]
      exact selectionLeaves_ne_nil (Selection.isProper_ofPaths (fieldPaths other))
    · rw [written, hpaths, ofPaths_leaves]
  have hwritten := hread h
  obtain ⟨-, rfl⟩ := ofFields?_eq_some_iff.1 h
  have hproper := Selection.isProper_ofPaths (fieldPaths fields)
  have hpaths := fun p (hp : p ∈ leaves (ofPaths (fieldPaths fields))) => isFieldPath_of_mem_leaves hp
  refine ⟨hproj, hwritten, fun p => mem_leaves_iff_node? hproper, fieldPaths_fieldText hpaths,
    pairwise_selectionLeaves hproper, fun other tree' hother => ⟨fun htext => ?_, fun htree => by rw [htree]⟩,
    isTidy_fieldText (selectionLeaves_ne_nil hproper) hpaths, fun c hc hblank => ?_⟩
  · have hother' := hread hother
    rw [htext, hwritten] at hother'
    exact (Option.some.inj hother').symm
  · rcases of_mem_fieldText hc with rfl | rfl | ⟨p, hp, name, hname, hcname⟩
    · cases hblank
    · cases hblank
    · rcases mem_of_mem_leaves hp with rfl | hmem
      · -- there is no blank in the name `id`
        obtain rfl := List.mem_singleton.1 hname
        have hid : ∀ d ∈ "id".toList, isBlank d = false := List.all_iff_forall_prop.1 (by decide)
        rw [hid c hcname] at hblank
        cases hblank
      · exact ⟨p, hmem, name, hname, hcname⟩

/-- A list with nested selections under `id` and `select`, a field whose name is empty, and a field that comes back. -/
theorem written_form_branches : ∃ tree,
    ofFields? " height,select.id ,id. year,.height,, select.select" = some tree ∧
      tree.written = "id.year,height,select.id,select.select,.height" ∧ ofFields? tree.written = some tree ∧
      (leaves tree).Pairwise Diverge ∧ IsTidy tree.written := by
  have hpaths : fieldPaths " height,select.id ,id. year,.height,, select.select" =
      [["height"], ["select", "id"], ["id", "year"], ["", "height"], ["select", "select"]] := by decide +kernel
  have htree := ofFields?_eq_some_iff.2 ⟨hpaths ▸ List.cons_ne_nil _ _, rfl⟩
  obtain ⟨-, hwritten, -, -, hdiverge, -, htidy, -⟩ := written_form htree
  refine ⟨_, htree, ?_, hwritten, hdiverge, htidy⟩
  rw [hpaths]
  decide +kernel

/-- A blank inside a name is written out with the name. -/
theorem written_keeps_blank : ∃ tree, ofFields? "planted by" = some tree ∧ tree.written = "id,planted by" ∧
    ¬∀ c ∈ tree.written.toList, isBlank c = false := by
  have hpaths : fieldPaths "planted by" = [["planted by"]] := by decide +kernel
  refine ⟨_, ofFields?_eq_some_iff.2 ⟨hpaths ▸ List.cons_ne_nil _ _, rfl⟩, ?_⟩
  have htext : (ofPaths [["planted by"]]).written = "id,planted by" := by decide +kernel
  rw [hpaths, htext]
  refine ⟨rfl, fun hnone => ?_⟩
  have hspace : isBlank ' ' = false := hnone ' ' (by decide)
  cases hspace

end SelectionTree
end ListQuery
