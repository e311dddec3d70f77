import ListQuery.Schema.Document
/-!
# The shape of a schema document

Which JSON documents describe a schema, place by place.  A kind is told by its text, whatever value it stands for, and
names are made keys.  Neither lets more through than it seems: only a text has the text of a kind (`exists_str_of_word`),
and of the values of JSON only lists and objects cannot be keys (`isHashable_eq`).
-/
namespace ListQuery

namespace Value

/-! ## Values of JSON -/

mutual

def isJson : Value → Bool
  | null | bool _ | int _ | float _ | str _ => true
  | list items => allJson items
  | map entries => allJsonEntries entries
  | _ => false

def allJson : List Value → Bool
  | [] => true
  | v :: rest => isJson v && allJson rest

def allJsonEntries : List (String × Value) → Bool
  | [] => true
  | (_, v) :: rest => isJson v && allJsonEntries rest

end

theorem isJson_of_mem : ∀ {items : List Value}, allJson items = true → ∀ v ∈ items, v.isJson = true
  | v :: rest, h, w, hw => by
    rw [allJson, Bool.and_eq_true] at h
    obtain rfl | hw := List.mem_cons.1 hw
    · exact h.1
    · exact isJson_of_mem h.2 w hw

theorem isJson_of_lookup? {key : String} {v : Value} : ∀ {entries : List (String × Value)},
    allJsonEntries entries = true → lookup? key entries = some v → v.isJson = true
  | (k, w) :: rest, h, hv => by
    rw [allJsonEntries, Bool.and_eq_true] at h
    rw [lookup?, Entries.find?] at hv
    split at hv
    · exact Option.some.inj hv ▸ h.1
    · exact isJson_of_lookup? h.2 hv

def isCompound : Value → Bool
  | list _ | map _ => true
  | _ => false

theorem isHashable_eq {v : Value} (json : v.isJson = true) : v.isHashable = !v.isCompound := by
  cases v <;> first | rfl | cases json

/-! ## Parts of an object -/

def isObject : Value → Bool
  | map _ => true
  | _ => false

def under? (key : String) : Value → Option Value
  | map entries => lookup? key entries
  | _ => none

def part (key : String) (v : Value) : Value := (v.under? key).getD null

/-- What a value holds under a key one by one: the items of a list, the characters of a text, the keys of an object. -/
def contentsUnder (key : String) (v : Value) : List Value :=
  match v.under? key with
  | some (list items) => items
  | some (str text) => text.toList.map fun c => str (String.singleton c)
  | some (map entries) => entries.map fun e => str e.1
  | _ => []

theorem isJson_of_under? {key : String} {v w : Value} (json : v.isJson = true) (h : v.under? key = some w) :
    w.isJson = true := by
  cases v with
  | map => exact isJson_of_lookup? json h
  | _ => cases h

theorem isJson_part {v : Value} (json : v.isJson = true) (key : String) : (v.part key).isJson = true := by
  rw [part]
  cases h : v.under? key with
  | none => rfl
  | some w => exact isJson_of_under? json h

theorem isJson_of_mem_contentsUnder {d : Value} (json : d.isJson = true) (key : String) :
    ∀ v ∈ d.contentsUnder key, v.isJson = true := by
  intro v hv
  unfold contentsUnder at hv
  split at hv
  · rename_i hitems
    exact isJson_of_mem (isJson_of_under? json hitems) v hv
  · obtain ⟨c, -, rfl⟩ := List.mem_map.1 hv
    rfl
  · obtain ⟨e, -, rfl⟩ := List.mem_map.1 hv
    rfl
  · cases hv

end Value

/-! ## The text of a kind -/

namespace Kind

/-- The words for kinds.  No letter outside ASCII becomes one of their letters in lower case. -/
def words : List String := ["scalar", "enum", "object"]

/-- What a word says about a field of a type and a relation name, of which an empty one is none. -/
inductive Reads (type relation : Value) : String → Kind → Prop
  | scalar : Reads type relation "scalar" (.scalar type)
  | enum : Reads type relation "enum" (.enum type)
  | object : Reads type relation "object" (.object type (if relation.isTruthy then some relation else none))

theorem exists_reads_iff {type relation : Value} {word : String} :
    (∃ kind, Reads type relation word kind) ↔ word ∈ words := by
  constructor
  · rintro ⟨_, _ | _ | _⟩ <;> simp [words]
  · intro h
    simp only [words, List.mem_cons, List.not_mem_nil, or_false] at h
    obtain rfl | rfl | rfl := h
    · exact ⟨_, .scalar⟩
    · exact ⟨_, .enum⟩
    · exact ⟨_, .object⟩

def letters : List Char := words.flatMap String.toList

theorem not_mem_words {text : String} {c : Char} (hc : c ∈ text.toList) (hother : c.toLower ∉ letters) :
    text.toLower ∉ words := by
  intro h
  refine hother (List.mem_flatMap.2 ⟨_, h, ?_⟩)
  have hlower : text.toLower = text.map Char.toLower := rfl
  rw [hlower, String.toList_map]
  exact List.mem_map_of_mem hc

theorem not_mem_letters_of_isDigit {c : Char} (h : c.isDigit = true) : c.toLower ∉ letters := by
  have hsame : c.toLower = c := by
    refine dif_neg ?_
    rintro ⟨hupper, -⟩
    simp only [Char.isDigit, Bool.and_eq_true, decide_eq_true_eq, UInt32.le_iff_toNat_le] at h hupper
    exact absurd (Nat.le_trans hupper h.2) (by decide)
  have hletters : letters.all (fun l => !l.isDigit) = true := by decide
  intro hmem
  have hnone := List.all_eq_true.1 hletters c (hsame ▸ hmem)
  rw [h] at hnone
  exact Bool.false_ne_true hnone

end Kind

theorem exists_isDigit_mem_decimal (n : Nat) : ∃ c ∈ decimal n, c.isDigit = true := by
  obtain ⟨c, hc⟩ := List.exists_mem_of_ne_nil _ (Nat.toDigits_ne_nil (n := n) (b := 10))
  exact ⟨c, hc, Nat.isDigit_of_mem_toDigits (by decide) (by decide) hc⟩

theorem exists_isDigit_mem_signedDecimal : ∀ n : Int, ∃ c ∈ signedDecimal n, c.isDigit = true
  | .ofNat n => exists_isDigit_mem_decimal n
  | .negSucc n =>
    have ⟨c, hc, hdigit⟩ := exists_isDigit_mem_decimal (n + 1)
    ⟨c, List.mem_cons_of_mem _ hc, hdigit⟩

namespace Binary64

theorem point_mem_positional (digits : List Char) (place : Int) : '.' ∈ positional digits place := by
  unfold positional
  split
  · simp
  · split <;> simp

theorem sign_mem_scientific (count : Nat) (digits : List Char) (exponent : Int) :
    (if exponent < 0 then '-' else '+') ∈ scientific count digits exponent := by
  simp [scientific]

theorem exists_mark_mem_magnitudeText (rank : Nat) : ∃ c ∈ magnitudeText rank, c ∈ ['.', '+', '-'] := by
  unfold magnitudeText
  generalize shortest rank = decimal
  obtain ⟨digits, place⟩ := decimal
  by_cases hzero : rank = 0
  · rw [if_pos hzero]
    exact ⟨'.', by decide, by decide⟩
  · rw [if_neg hzero]
    dsimp only [Layout.text]
    split
    · exact ⟨_, point_mem_positional digits place, by decide⟩
    · exact ⟨_, sign_mem_scientific _ digits _, by split <;> decide⟩

end Binary64

open Kind in
theorem Value.exists_str_of_word {v : Value} (json : v.isJson = true) (h : v.display.toLower ∈ words) :
    ∃ text, v = .str text := by
  -- the text of any other value is a fixed word, or it has a character that is in no word for a kind
  cases v with
  | str text => exact ⟨text, rfl⟩
  | null => exact absurd h (by decide +kernel)
  | bool b => cases b <;> exact absurd h (by decide +kernel)
  | int n =>
    obtain ⟨c, hc, hdigit⟩ := exists_isDigit_mem_signedDecimal n
    have hdisplay : (int n).display = String.ofList (signedDecimal n) := rfl
    refine absurd h (not_mem_words (c := c) ?_ (not_mem_letters_of_isDigit hdigit))
    rwa [hdisplay, String.toList_ofList]
  | float x =>
    cases x with
    | nan => exact absurd h (by decide +kernel)
    | infinite negative => cases negative <;> exact absurd h (by decide +kernel)
    | finite negative rank =>
      obtain ⟨c, hc, hmark⟩ := Binary64.exists_mark_mem_magnitudeText rank
      have hother : c.toLower ∉ letters := by
        simp only [List.mem_cons, List.not_mem_nil, or_false] at hmark
        obtain rfl | rfl | rfl := hmark <;> decide
      have hdisplay : (float (.finite negative rank)).display =
          String.ofList ((if negative then ['-'] else []) ++ Binary64.magnitudeText rank) := rfl
      refine absurd h (not_mem_words (c := c) ?_ hother)
      rw [hdisplay, String.toList_ofList]
      exact List.mem_append_right _ hc
  | list items =>
    have hdisplay : (list items).display = "[" ++ arguments (literals items) ++ "]" := rfl
    exact absurd h (not_mem_words (c := '[') (by simp [hdisplay]) (by decide))
  | map entries =>
    have hdisplay : (map entries).display = "\x7b" ++ arguments (entryLiterals entries) ++ "\x7d" := rfl
    exact absurd h (not_mem_words (c := '\x7b') (by simp [hdisplay]) (by decide))
  | _ => cases json

theorem Kind.ofTag?_eq_some_iff {tag : Value} (json : tag.isJson = true) (type relation : Value) {kind : Kind} :
    ofTag? tag type relation = some kind ↔ Reads type relation tag.display.toLower kind := by
  constructor
  · cases tag with
    | str text =>
      rw [ofTag?, Value.display]
      generalize text.toLower = word
      intro h
      split at h
      · cases h; exact .scalar
      · cases h; exact .enum
      · cases h; exact .object
      · cases h
    | _ => rintro ⟨⟩
  · intro h
    obtain ⟨text, rfl⟩ := Value.exists_str_of_word json (exists_reads_iff.1 ⟨kind, h⟩)
    rw [Value.display] at h
    rw [ofTag?]
    generalize text.toLower = word at h ⊢
    cases h <;> rfl

/-! ## Documents -/

namespace Document

/-- A name: any value but an empty one, a list or an object. -/
structure IsName (v : Value) : Prop where
  given : v.isTruthy = true
  plain : v.isCompound = false

/-- What may stand under a key: nothing, or a list. -/
def IsListOf (shape : Value → Prop) : Option Value → Prop
  | none => True
  | some (.list items) => ∀ raw ∈ items, shape raw
  | some _ => False

structure IsField (raw : Value) : Prop where
  object : raw.isObject = true
  name : IsName (raw.part "name")
  type : (raw.part "type").isTruthy = true
  kind : (raw.part "kind").display.toLower ∈ Kind.words

/-- What may stand under `fields`: nothing, a list, or what is empty. -/
def AreFields : Option Value → Prop
  | some (.str text) => text = ""
  | some (.map entries) => entries = []
  | v => IsListOf IsField v

structure IsModel (raw : Value) : Prop where
  object : raw.isObject = true
  name : IsName (raw.part "name")
  fields : AreFields (raw.under? "fields")

def IsEnumValue (raw : Value) : Prop := raw.isObject = true → (raw.under? "name").isSome = true

/-- What may stand under `values`: nothing, a list, or a text or object, which holds texts. -/
def AreValues : Option Value → Prop
  | some (.str _) | some (.map _) => True
  | v => IsListOf IsEnumValue v

structure IsEnum (raw : Value) : Prop where
  object : raw.isObject = true
  name : IsName (raw.part "name")
  values : AreValues (raw.under? "values")

/-- What lists the models: the value under `datamodel`, if there is one, or else the document itself. -/
def datamodel (document : Value) : Value := (document.under? "datamodel").getD document

structure IsDatamodel (d : Value) : Prop where
  object : d.isObject = true
  models : IsListOf IsModel (d.under? "models")
  composites : IsListOf IsModel (d.under? "types")
  enums : IsListOf IsEnum (d.under? "enums")

structure IsSchema (document : Value) : Prop where
  object : document.isObject = true
  datamodel : IsDatamodel (datamodel document)

end Document
end ListQuery
