/-!
# Rows of entries

A row of entries is a map that keeps the order in which its keys were first given.  Which keys count as one is up to the
caller: a key is looked for with a test.  `alter` changes the entry of a key where it stands, or puts a new one at the
end, and `collect` gathers values under their keys.  Main statements: `keys_alter` (no key moves, and at most one is
added), `find?_alter_self` and `find?_alter_of_ne`.
-/
namespace ListQuery.Entries

variable {κ α : Type}

def find? (isKey : κ → Bool) : List (κ × α) → Option α
  | [] => none
  | (k, a) :: rest => if isKey k then some a else find? isKey rest

/-- Replaces the value of the first entry whose key passes the test by what `f` makes of it.  If there is none, `key` gets
an entry at the end. -/
def alter (isKey : κ → Bool) (key : κ) (f : Option α → α) : List (κ × α) → List (κ × α)
  | [] => [(key, f none)]
  | (k, a) :: rest => if isKey k then (k, f (some a)) :: rest else (k, a) :: alter isKey key f rest

/-- Puts a value at the end of the row of the first key that is the same as its own; a new key goes to the end. -/
def put (same : κ → κ → Bool) (entries : List (κ × List α)) (item : κ × α) : List (κ × List α) :=
  alter (fun k => same k item.1) item.1 (fun row => row.getD [] ++ [item.2]) entries

def collect (same : κ → κ → Bool) (items : List (κ × α)) : List (κ × List α) := items.foldl (put same) []

def keys (entries : List (κ × α)) : List κ := entries.map Prod.fst

/-- **No key moves**: altering an entry keeps all keys in place, and a new key goes to the end. -/
theorem keys_alter (isKey : κ → Bool) (key : κ) (f : Option α → α) : ∀ entries : List (κ × α),
    keys (alter isKey key f entries) = if (keys entries).any isKey then keys entries else keys entries ++ [key]
  | [] => rfl
  | (k, a) :: rest => by
    have ih := keys_alter isKey key f rest
    simp only [keys, alter, List.map_cons, List.any_cons] at ih ⊢
    cases hk : isKey k
    · by_cases hr : (rest.map Prod.fst).any isKey = true <;> simp [ih, hr]
    · simp

theorem find?_alter_self {isKey : κ → Bool} {key : κ} (f : Option α → α) (h : isKey key = true) :
    ∀ entries : List (κ × α), find? isKey (alter isKey key f entries) = some (f (find? isKey entries))
  | [] => by simp [alter, find?, h]
  | (k, a) :: rest => by
    have ih := find?_alter_self f h rest
    cases hk : isKey k <;> simp [alter, find?, hk, ih]

theorem find?_alter_of_ne {isKey other : κ → Bool} {key : κ} (f : Option α → α) (h : other key = false)
    (apart : ∀ k, isKey k = true → other k = false) :
    ∀ entries : List (κ × α), find? other (alter isKey key f entries) = find? other entries
  | [] => by simp [alter, find?, h]
  | (k, a) :: rest => by
    have ih := find?_alter_of_ne f h apart rest
    cases hk : isKey k
    · simp [alter, find?, hk, ih]
    · simp [alter, find?, hk, apart k hk]

theorem alter_of_new {isKey : κ → Bool} (key : κ) (f : Option α → α) : ∀ {entries : List (κ × α)},
    (∀ k ∈ keys entries, isKey k = false) → alter isKey key f entries = entries ++ [(key, f none)]
  | [], _ => rfl
  | (k, a) :: rest, h => by
    rw [alter, if_neg (by simp [h k List.mem_cons_self]), alter_of_new key f fun l hl => h l (List.mem_cons_of_mem k hl)]
    rfl

theorem alter_alter {isKey : κ → Bool} {key : κ} (f g : Option α → α) (h : isKey key = true) : ∀ entries : List (κ × α),
    alter isKey key g (alter isKey key f entries) = alter isKey key (fun a => g (some (f a))) entries
  | [] => by simp [alter, h]
  | (k, a) :: rest => by
    have ih := alter_alter f g h rest
    cases hk : isKey k <;> simp [alter, hk, ih]

/-! ## What is found -/

theorem mem_of_find? {isKey : κ → Bool} {a : α} :
    ∀ {entries : List (κ × α)}, find? isKey entries = some a → a ∈ entries.map Prod.snd
  | (k, b) :: rest, h => by
    rw [find?] at h
    split at h
    · exact Option.some.inj h ▸ List.mem_cons_self
    · exact List.mem_cons_of_mem b (mem_of_find? h)

theorem mem_pair_of_find? [BEq κ] [LawfulBEq κ] {key : κ} {a : α} :
    ∀ {entries : List (κ × α)}, find? (· == key) entries = some a → (key, a) ∈ entries
  | (k, b) :: rest, h => by
    rw [find?] at h
    split at h
    · rename_i hk
      rw [← eq_of_beq hk, Option.some.inj h]
      exact List.mem_cons_self
    · exact List.mem_cons_of_mem _ (mem_pair_of_find? h)

theorem isSome_find? (isKey : κ → Bool) : ∀ entries : List (κ × α), (find? isKey entries).isSome = (keys entries).any isKey
  | [] => rfl
  | (k, a) :: rest => by
    have ih := isSome_find? isKey rest
    rw [keys] at ih
    cases hk : isKey k <;> simp [find?, keys, hk, ih]

theorem find?_of_mem [BEq κ] [LawfulBEq κ] {key : κ} {a : α} :
    ∀ {entries : List (κ × α)}, (keys entries).Nodup → (key, a) ∈ entries → find? (· == key) entries = some a
  | (k, b) :: rest, hnd, hmem => by
    rw [keys, List.map_cons, List.nodup_cons] at hnd
    rw [find?]
    rcases List.mem_cons.1 hmem with heq | hmem
    · obtain ⟨rfl, rfl⟩ := Prod.mk.inj heq
      simp
    · have hne : k ≠ key := by
        rintro rfl
        exact hnd.1 (List.mem_map.2 ⟨_, hmem, rfl⟩)
      rw [if_neg (by simpa using hne)]
      exact find?_of_mem hnd.2 hmem

end ListQuery.Entries
