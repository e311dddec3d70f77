/-!
# Blank characters

Two classes of blanks.  `isWhiteSpace` is the Unicode property *White_Space*; `isBlank` adds the four information
separators U+001C to U+001F, which separate text without being white space.  Trimming is written once, for any class.
-/
namespace ListQuery

def isWhiteSpace (c : Char) : Bool :=
  let n := c.toNat
  (9 ≤ n && n ≤ 13) || n == 0x20 || n == 0x85 || n == 0xA0 || n == 0x1680 || (0x2000 ≤ n && n ≤ 0x200A) ||
    n == 0x2028 || n == 0x2029 || n == 0x202F || n == 0x205F || n == 0x3000

def isBlank (c : Char) : Bool := isWhiteSpace c || (0x1C ≤ c.toNat && c.toNat ≤ 0x1F)

theorem isBlank_of_isWhiteSpace {c : Char} (h : isWhiteSpace c = true) : isBlank c = true := by
  simp [isBlank, h]

/-! ## Trimming -/

def dropTrailing (p : Char → Bool) : List Char → List Char
  | [] => []
  | c :: cs =>
    match dropTrailing p cs with
    | [] => if p c then [] else [c]
    | rest => c :: rest

def trimChars (p : Char → Bool) (cs : List Char) : List Char := dropTrailing p (cs.dropWhile p)

def trimBlank (s : String) : String := String.ofList (trimChars isBlank s.toList)

theorem dropTrailing_cons (p : Char → Bool) (c : Char) (cs : List Char) :
    dropTrailing p (c :: cs) = if dropTrailing p cs = [] ∧ p c = true then [] else c :: dropTrailing p cs := by
  rw [dropTrailing]
  cases h : dropTrailing p cs with
  | nil => cases hc : p c <;> simp
  | cons => simp

theorem dropTrailing_dropTrailing (p : Char → Bool) : ∀ cs : List Char,
    dropTrailing p (dropTrailing p cs) = dropTrailing p cs
  | [] => rfl
  | c :: cs => by
    have ih := dropTrailing_dropTrailing p cs
    rw [dropTrailing_cons]
    split
    · rfl
    · rename_i h
      rw [dropTrailing_cons, ih, if_neg h]

theorem trimChars_trimChars (p : Char → Bool) (cs : List Char) : trimChars p (trimChars p cs) = trimChars p cs := by
  unfold trimChars
  suffices h : (dropTrailing p (cs.dropWhile p)).dropWhile p = dropTrailing p (cs.dropWhile p) by
    rw [h, dropTrailing_dropTrailing]
  cases hcs : cs.dropWhile p with
  | nil => rfl
  | cons c rest =>
    have hc : p c = false := by
      have := List.head?_dropWhile_not p cs
      simpa [hcs] using this
    rw [dropTrailing_cons, if_neg (by simp [hc]), List.dropWhile_cons, if_neg (by simp [hc])]

/-! ## Trimmed texts -/

/-- No character of a class stands at either end. -/
structure IsTrimmed (p : Char → Bool) (cs : List Char) : Prop where
  head : ∀ c ∈ cs.head?, p c = false
  last : ∀ c ∈ cs.getLast?, p c = false

theorem prefix_dropTrailing (p : Char → Bool) : ∀ cs : List Char, dropTrailing p cs <+: cs
  | [] => List.prefix_refl []
  | c :: cs => by
    rw [dropTrailing_cons]
    split
    · exact List.nil_prefix
    · exact (List.prefix_cons_inj c).2 (prefix_dropTrailing p cs)

theorem trimChars_sublist (p : Char → Bool) (cs : List Char) : (trimChars p cs).Sublist cs :=
  (prefix_dropTrailing p _).sublist.trans (List.dropWhile_sublist p)

theorem dropTrailing_of_all {p : Char → Bool} : ∀ {cs : List Char}, (∀ c ∈ cs, p c = true) → dropTrailing p cs = []
  | [], _ => rfl
  | c :: cs, h => by
    rw [dropTrailing_cons, if_pos ⟨dropTrailing_of_all fun d hd => h d (List.mem_cons_of_mem c hd), h c List.mem_cons_self⟩]

theorem dropTrailing_append {p : Char → Bool} {behind : List Char} (h : ∀ c ∈ behind, p c = true) :
    ∀ cs : List Char, dropTrailing p (cs ++ behind) = dropTrailing p cs
  | [] => dropTrailing_of_all h
  | c :: cs => by rw [List.cons_append, dropTrailing_cons, dropTrailing_cons, dropTrailing_append h cs]

theorem dropTrailing_of_last {p : Char → Bool} : ∀ {cs : List Char}, (∀ c ∈ cs.getLast?, p c = false) →
    dropTrailing p cs = cs
  | [], _ => rfl
  | [c], h => by
    have hc : ¬(dropTrailing p [] = [] ∧ p c = true) := by simp [h c rfl]
    rw [dropTrailing_cons, if_neg hc]
    rfl
  | c :: d :: cs, h => by
    have ih : dropTrailing p (d :: cs) = d :: cs := dropTrailing_of_last (by rwa [List.getLast?_cons_cons] at h)
    rw [dropTrailing_cons, ih, if_neg (by simp)]

theorem exists_dropped {p : Char → Bool} : ∀ cs : List Char,
    ∃ behind, cs = dropTrailing p cs ++ behind ∧ ∀ c ∈ behind, p c = true
  | [] => ⟨[], rfl, by simp⟩
  | c :: cs => by
    obtain ⟨behind, hcs, hbehind⟩ := exists_dropped (p := p) cs
    rw [dropTrailing_cons]
    by_cases h : dropTrailing p cs = [] ∧ p c = true
    · rw [h.1, List.nil_append] at hcs
      rw [if_pos h]
      exact ⟨c :: cs, rfl, List.forall_mem_cons.2 ⟨h.2, hcs ▸ hbehind⟩⟩
    · rw [if_neg h]
      exact ⟨behind, congrArg (c :: ·) hcs, hbehind⟩

theorem trimChars_around {p : Char → Bool} {before cs behind : List Char} (hbefore : ∀ c ∈ before, p c = true)
    (h : IsTrimmed p cs) (hbehind : ∀ c ∈ behind, p c = true) : trimChars p (before ++ cs ++ behind) = cs := by
  rw [trimChars, List.append_assoc, List.dropWhile_append_of_pos hbefore]
  cases cs with
  | nil =>
    have hnil : behind.dropWhile p = [] := List.append_nil behind ▸ List.dropWhile_append_of_pos hbehind
    rw [List.nil_append, hnil]
    rfl
  | cons c cs =>
    rw [List.cons_append, List.dropWhile_cons_of_neg (by simp [h.head c rfl]), ← List.cons_append,
      dropTrailing_append hbehind, dropTrailing_of_last h.last]

theorem trimChars_eq_self_iff {p : Char → Bool} {cs : List Char} : trimChars p cs = cs ↔ IsTrimmed p cs := by
  constructor
  · intro h
    have hdrop : cs.dropWhile p = cs := by
      refine (List.dropWhile_sublist p).eq_of_length_le ?_
      have hle := (prefix_dropTrailing p (cs.dropWhile p)).length_le
      rwa [← trimChars, h] at hle
    refine ⟨fun c hc => ?_, fun c hc => ?_⟩
    · have hhead := List.head?_dropWhile_not p cs
      rw [hdrop, Option.mem_def.1 hc] at hhead
      simpa using hhead
    · -- a last character of the class would have been dropped
      obtain ⟨front, rfl⟩ := List.getLast?_eq_some_iff.1 hc
      refine Bool.eq_false_iff.2 fun hp => ?_
      rw [trimChars, hdrop, dropTrailing_append (by simpa using hp)] at h
      have hle := (prefix_dropTrailing p front).length_le
      rw [h, List.length_append] at hle
      exact absurd hle (by simp)
  · intro h
    have haround : trimChars p ([] ++ cs ++ []) = cs := trimChars_around (by simp) h (by simp)
    rwa [List.nil_append, List.append_nil] at haround

/-- **What is left by trimming** is the trimmed text that has nothing but characters of the class around it. -/
theorem trimChars_eq_iff {p : Char → Bool} {cs trimmed : List Char} : trimChars p cs = trimmed ↔
    IsTrimmed p trimmed ∧ ∃ before behind, cs = before ++ trimmed ++ behind ∧
      (∀ c ∈ before, p c = true) ∧ ∀ c ∈ behind, p c = true := by
  constructor
  · rintro rfl
    obtain ⟨behind, hcs, hbehind⟩ := exists_dropped (p := p) (cs.dropWhile p)
    refine ⟨trimChars_eq_self_iff.1 (trimChars_trimChars p cs), cs.takeWhile p, behind, ?_, ?_, hbehind⟩
    · rw [List.append_assoc, trimChars, ← hcs, List.takeWhile_append_dropWhile]
    · exact List.all_eq_true.1 List.all_takeWhile
  · rintro ⟨h, before, behind, rfl, hbefore, hbehind⟩
    exact trimChars_around hbefore h hbehind

theorem IsTrimmed.join {p : Char → Bool} {sep : Char} (hsep : p sep = false) {cs ds : List Char} (hcs : IsTrimmed p cs)
    (hds : IsTrimmed p ds) : IsTrimmed p (cs ++ sep :: ds) := by
  constructor
  · intro c hc
    cases cs with
    | nil => exact Option.some.inj hc ▸ hsep
    | cons d cs => exact hcs.head c hc
  · intro c hc
    rw [List.getLast?_append, List.getLast?_cons] at hc
    cases hlast : ds.getLast? with
    | none =>
      rw [hlast] at hc
      exact Option.some.inj hc ▸ hsep
    | some d =>
      rw [hlast] at hc
      exact Option.some.inj hc ▸ hds.last d hlast

theorem trimBlank_eq_self_iff {s : String} : trimBlank s = s ↔ IsTrimmed isBlank s.toList := by
  rw [← trimChars_eq_self_iff, ← String.toList_inj, trimBlank, String.toList_ofList]

theorem trimBlank_trimBlank (s : String) : trimBlank (trimBlank s) = trimBlank s := by
  rw [trimBlank, trimBlank, String.toList_ofList, trimChars_trimChars]

end ListQuery
