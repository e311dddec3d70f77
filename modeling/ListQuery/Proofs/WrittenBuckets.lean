import ListQuery.Proofs.CanonicalReading
import ListQuery.Proofs.DocumentShape
import ListQuery.Proofs.SharedBuckets
import ListQuery.Schema.Raw
/-!
# Lists and maps as keys

The key of a list or a map is its canonical text.  Read as a value of a Json field, that text is the list or map again, up
to the order in which maps list their entries; so such values share a bucket exactly if they have the same content.  Main
statement: `written_bucket`.
-/
namespace ListQuery

namespace Value

variable {u v w : Value}

theorem isHashable_of_isCompound (h : v.isCompound = true) : v.isHashable = false := by
  cases v with
  | list | map => rfl
  | _ => cases h

theorem ne_null_of_isCompound (h : v.isCompound = true) : v ≠ .null := by
  rintro rfl
  cases h

theorem sameKey_bucketKey_iff (hv : v.Writable) (hvc : v.isCompound = true) (hw : w.Writable) (hwc : w.isCompound = true) :
    (v.bucketKey u).sameKey (w.bucketKey u) = true ↔ v.sameContent w = true := by
  rw [bucketKey_of_unhashable (isHashable_of_isCompound hvc), bucketKey_of_unhashable (isHashable_of_isCompound hwc),
    sameKey_str_iff, str.injEq, eq_comm]
  exact Json.canonical_eq_iff hv hw

end Value

theorem Field.valueOf_canonical {f : Field} (hf : f.kind = .scalar (.str "Json")) {v : Value} (h : v.Writable) :
    f.valueOf (Json.canonical v) = .ok v.inKeyOrder := by
  have hjson : Raw.json (Json.canonical v) = v.inKeyOrder := by
    rw [Raw.json, Json.read_canonical h]
  rw [valueOf, hf, ← hjson]
  rfl

namespace Buckets

variable {path : String} {unassigned : Value} {rows : List Value} {i j : Nat} {row other : Value}

theorem together_iff_sameContent (hi : rows[i]? = some row) (hj : rows[j]? = some other)
    (hrow : (row.atPath path).Writable) (hrowc : (row.atPath path).isCompound = true)
    (hother : (other.atPath path).Writable) (hotherc : (other.atPath path).isCompound = true) :
    Together path unassigned rows i j ↔ (row.atPath path).sameContent (other.atPath path) = true := by
  rw [together_iff hi hj, BucketKey.same_iff, ofRow_of_ne_null (Value.ne_null_of_isCompound hrowc),
    ofRow_of_ne_null (Value.ne_null_of_isCompound hotherc)]
  constructor
  · rintro (hplace | hkey)
    · -- one place, so one row
      obtain rfl := Option.some.inj hplace
      obtain rfl := Option.some.inj (hi.symm.trans hj)
      exact (Value.sameContent_iff hrow.distinct hrow.distinct).2 rfl
    · exact (Value.sameKey_bucketKey_iff hrow hrowc hother hotherc).1 hkey
  · intro h
    exact .inr ((Value.sameKey_bucketKey_iff hrow hrowc hother hotherc).2 h)

/-- **Lists and maps as keys.**  The key of a list or a map is a text that every Json field reads as a value of the same
content; and rows with lists or maps share a bucket exactly if these have the same content. -/
theorem written_bucket :
    (∀ v unassigned : Value, v.isCompound = true → v.Writable → ∃ text, v.bucketKey unassigned = .str text ∧
      ∀ f : Field, f.kind = .scalar (.str "Json") → ∃ w, f.valueOf text = .ok w ∧ w.sameContent v = true) ∧
    ∀ (path : String) (unassigned : Value) (rows : List Value),
      (∀ b, ofRows path unassigned rows = .ok b → b = atPlaces path unassigned rows) ∧
      ∀ (i j : Nat) (row other : Value), rows[i]? = some row → rows[j]? = some other →
        (row.atPath path).isCompound = true → (row.atPath path).Writable →
        (other.atPath path).isCompound = true → (other.atPath path).Writable →
          (Together path unassigned rows i j ↔ (row.atPath path).sameContent (other.atPath path) = true) := by
  constructor
  · intro v unassigned hcompound h
    refine ⟨Json.canonical v, Value.bucketKey_of_unhashable (Value.isHashable_of_isCompound hcompound), fun f hf => ?_⟩
    exact ⟨v.inKeyOrder, f.valueOf_canonical hf h, Value.sameContent_inKeyOrder h.distinct⟩
  · intro path unassigned rows
    refine ⟨fun b hb => eq_atPlaces_of_ofRows hb, ?_⟩
    intro i j row other hi hj hrowc hrow hotherc hother
    exact together_iff_sameContent hi hj hrow hrowc hother hotherc

/-- A map with a clef beyond sixteen bits, a line feed, a quote and a character beyond ASCII in its texts. -/
def score : Value :=
  .map [("\"part\"", .list [.bool true, .int 1, .str "𝄞\n", .null]), ("caf\u00e9", .map []), ("a", .int (-40))]

def reorderedScore : Value :=
  .map [("a", .int (-40)), ("\"part\"", .list [.bool true, .int 1, .str "𝄞\n", .null]), ("caf\u00e9", .map [])]

/-- A map in which an integer stands for a truth value. -/
def otherScore : Value :=
  .map [("\"part\"", .list [.int 1, .int 1, .str "𝄞\n", .null]), ("caf\u00e9", .map []), ("a", .int (-40))]

theorem writable_scores : score.Writable ∧ reorderedScore.Writable ∧ otherScore.Writable := by
  refine ⟨⟨?_, ?_, ?_⟩, ⟨?_, ?_, ?_⟩, ?_, ?_, ?_⟩ <;> decide +kernel

def sheet : Field := ⟨.str "sheet", .scalar (.str "Json"), false⟩

def scoreRows : List Value := [.map [("k", score)], .map [("k", reorderedScore)], .map [("k", otherScore)]]

theorem written_bucket_scores :
    (∃ text w, score.bucketKey (.str "unassigned") = .str text ∧ sheet.valueOf text = .ok w ∧ w.sameContent score = true) ∧
      Together "k" (.str "unassigned") scoreRows 0 1 ∧ ¬ Together "k" (.str "unassigned") scoreRows 0 2 := by
  obtain ⟨hscore, hreordered, hother⟩ := writable_scores
  obtain ⟨hread, hshared⟩ := written_bucket
  obtain ⟨text, htext, hvalue⟩ := hread score (.str "unassigned") rfl hscore
  obtain ⟨w, hw, hsame⟩ := hvalue sheet rfl
  have hpair := (hshared "k" (.str "unassigned") scoreRows).2
  refine ⟨⟨text, w, htext, hw, hsame⟩, ?_, ?_⟩
  · exact (hpair 0 1 _ _ rfl rfl rfl hscore rfl hreordered).2 (by decide +kernel)
  · intro h
    exact absurd ((hpair 0 2 _ _ rfl rfl rfl hscore rfl hother).1 h) (by decide +kernel)

end Buckets
end ListQuery
