import ListQuery.Proofs.DayNumbers
import ListQuery.Schema.Raw
/-!
# What a raw timestamp is read as

A text that is read with an offset is put into universal time: the offset is taken off the reading of the clock, and what is
left is split into a day and a time of day.  Main statements: `Timestamp.ofInstant?_eq_some_iff` (nothing is lost on the way)
and `Field.timestamp_outcome`.
-/
namespace ListQuery
namespace Timestamp

theorem clockMicros_eq (t : Timestamp) :
    t.clockMicros = ((t.date.ordinal * microsPerDay + t.micros.val : Nat) : Int) := by
  unfold clockMicros
  push_cast
  rfl

theorem div_clockMicros (t : Timestamp) :
    (t.date.ordinal * microsPerDay + t.micros.val) / microsPerDay = t.date.ordinal := by
  rw [Nat.mul_comm, Nat.mul_add_div microsPerDay_pos, Nat.div_eq_of_lt t.micros.isLt, Nat.add_zero]

theorem mod_clockMicros (t : Timestamp) : (t.date.ordinal * microsPerDay + t.micros.val) % microsPerDay = t.micros.val := by
  rw [Nat.mul_comm, Nat.mul_add_mod, Nat.mod_eq_of_lt t.micros.isLt]

def InCalendar (i : Int) : Prop := first.clockMicros ≤ i ∧ i ≤ last.clockMicros

instance (i : Int) : Decidable (InCalendar i) := inferInstanceAs (Decidable (_ ∧ _))

theorem inCalendar_iff {i : Int} :
    InCalendar i ↔ ∃ n : Nat, i = n ∧ 1 ≤ n / microsPerDay ∧ n / microsPerDay ≤ Date.lastOrdinal := by
  have hfirst : first.clockMicros = (1 * microsPerDay : Nat) := by decide
  have hlast : last.clockMicros = ((Date.lastOrdinal + 1) * microsPerDay : Nat) - 1 := by decide
  have hday : ∀ n : Nat, 1 ≤ n / microsPerDay ∧ n / microsPerDay ≤ Date.lastOrdinal ↔
      1 * microsPerDay ≤ n ∧ n < (Date.lastOrdinal + 1) * microsPerDay := by
    intro n
    exact and_congr (Nat.le_div_iff_mul_le microsPerDay_pos)
      (Nat.lt_succ_iff.symm.trans (Nat.div_lt_iff_lt_mul microsPerDay_pos))
  simp only [InCalendar, hfirst, hlast, hday]
  constructor
  · rintro ⟨hlow, hhigh⟩
    obtain ⟨n, rfl⟩ := Int.eq_ofNat_of_zero_le (Int.le_trans (Int.natCast_nonneg _) hlow)
    exact ⟨n, rfl, by omega, by omega⟩
  · rintro ⟨n, rfl, hlow, hhigh⟩
    omega

/-- **Nothing is lost on the way**: a timestamp of universal time is found exactly at the instant that its clock shows. -/
theorem ofInstant?_eq_some_iff {i : Int} {t : Timestamp} :
    ofInstant? i = some t ↔ t.offset = some .utc ∧ t.clockMicros = i := by
  rw [clockMicros_eq]
  constructor
  · intro h
    unfold ofInstant? at h
    split at h
    · obtain ⟨date, hdate, rfl⟩ := Option.map_eq_some_iff.1 h
      refine ⟨rfl, ?_⟩
      rw [Date.ofOrdinal?_eq_some_iff.1 hdate, Nat.mul_comm, Nat.div_add_mod]
      omega
    · cases h
  · rintro ⟨hoffset, rfl⟩
    unfold ofInstant?
    simp only [Int.toNat_natCast, Int.natCast_nonneg, if_true, t.div_clockMicros, t.mod_clockMicros,
      Date.ofOrdinal?_eq_some_iff.2 rfl, Option.map_some, ← hoffset]

theorem exists_ofInstant?_iff {i : Int} : (∃ t, ofInstant? i = some t) ↔ InCalendar i := by
  rw [inCalendar_iff]
  constructor
  · rintro ⟨t, ht⟩
    obtain ⟨-, rfl⟩ := ofInstant?_eq_some_iff.1 ht
    refine ⟨_, t.clockMicros_eq, ?_⟩
    rw [div_clockMicros]
    exact ⟨t.date.one_le_ordinal, t.date.ordinal_le_lastOrdinal⟩
  · rintro ⟨n, rfl, hfirst, hlast⟩
    obtain ⟨d, -, hd⟩ := Date.exists_ofOrdinal?_eq hfirst hlast
    refine ⟨⟨d, ⟨n % microsPerDay, Nat.mod_lt _ microsPerDay_pos⟩, some .utc⟩, ofInstant?_eq_some_iff.2 ⟨rfl, ?_⟩⟩
    rw [clockMicros_eq, hd, Nat.mul_comm, Nat.div_add_mod]

theorem toUtc?_of_offset {l : Timestamp} {o : Offset} (h : l.offset = some o) :
    l.toUtc? = ofInstant? (l.clockMicros - o.micros) := by
  rw [toUtc?, instant, h]

theorem toUtc?_of_naive {l : Timestamp} (h : l.offset = none) : l.toUtc? = some l := by
  rw [toUtc?, h]

end Timestamp

namespace Raw

/-- A raw timestamp and the text that is read for it: nothing but blanks stands around what is kept of it, which has none at
its ends, and of this each `Z` is replaced by `+00:00`. -/
def ReadAs (raw : String) (text : List Char) : Prop :=
  ∃ before kept behind, raw.toList = before ++ kept ++ behind ∧ (∀ c ∈ before, isBlank c = true) ∧
    (∀ c ∈ behind, isBlank c = true) ∧ IsTrimmed isBlank kept ∧
      text = kept.flatMap fun c => if c = 'Z' then ['+', '0', '0', ':', '0', '0'] else [c]

theorem readAs_iff {raw : String} {text : List Char} : ReadAs raw text ↔ zoned raw = text := by
  have hzoned : zoned raw = (trimChars isBlank raw.toList).flatMap fun c =>
      if c = 'Z' then ['+', '0', '0', ':', '0', '0'] else [c] := by
    have hoffset : "+00:00".toList = ['+', '0', '0', ':', '0', '0'] := by decide
    simp only [zoned, trimBlank, String.toList_ofList, hoffset]
  rw [hzoned]
  constructor
  · rintro ⟨before, kept, behind, hraw, hbefore, hbehind, hkept, rfl⟩
    rw [trimChars_eq_iff.2 ⟨hkept, before, behind, hraw, hbefore, hbehind⟩]
  · rintro rfl
    obtain ⟨hkept, before, behind, hraw, hbefore, hbehind⟩ := trimChars_eq_iff.1 (Eq.refl (trimChars isBlank raw.toList))
    exact ⟨before, _, behind, hraw, hbefore, hbehind, hkept, rfl⟩

theorem timestamp_of_unread {raw : String} (h : Timestamp.read? (zoned raw) = none) : timestamp raw = .badTime raw := by
  simp only [timestamp, h, Option.bind_none]

theorem timestamp_of_read {raw : String} {l : Timestamp} (h : Timestamp.read? (zoned raw) = some l) :
    timestamp raw = match l.toUtc? with | some t => .time t | none => .badTime raw := by
  simp only [timestamp, h]
  rfl

end Raw

/-- **What a raw timestamp is read as.**  A text is read without the blanks around it, and with `+00:00` for each `Z`.
If it is no timestamp then, it becomes a marker that keeps it as it was given, and without an offset it is what it reads
as.  With an offset it becomes the timestamp of universal time at the clock's reading less the offset, if that instant
lies in the calendar, and a marker otherwise; so texts of one instant become one timestamp. -/
theorem Field.timestamp_outcome {f : Field} (hf : f.kind = .scalar (.str "DateTime")) (raw : String) :
    ∃ v text, f.valueOf raw = .ok v ∧ Raw.ReadAs raw text ∧
      (v = .badTime raw ∨ (∃ t, v = .time t ∧ t.offset = none) ∨ ∃ t, v = .time t ∧ t.offset = some .utc) ∧
      (Timestamp.read? text = none → v = .badTime raw) ∧
      (∀ l, Timestamp.read? text = some l → l.offset = none → v = .time l) ∧
      ∀ l o, Timestamp.read? text = some l → l.offset = some o →
        (Timestamp.InCalendar (l.clockMicros - o.micros) →
          (∃ t, v = .time t ∧ t.offset = some .utc ∧ t.clockMicros = l.clockMicros - o.micros) ∧
          ∀ other text' l' o', Raw.ReadAs other text' → Timestamp.read? text' = some l' → l'.offset = some o' →
            l'.clockMicros - o'.micros = l.clockMicros - o.micros → f.valueOf other = .ok v) ∧
        (¬Timestamp.InCalendar (l.clockMicros - o.micros) → v = .badTime raw) := by
  have hvalue : ∀ text, f.valueOf text = .ok (Raw.timestamp text) := by
    intro text
    rw [valueOf, hf]
    rfl
  have houtside : ∀ i, ¬Timestamp.InCalendar i → Timestamp.ofInstant? i = none := by
    intro i hi
    exact Option.eq_none_iff_forall_ne_some.2 fun t ht => hi (Timestamp.exists_ofInstant?_iff.1 ⟨t, ht⟩)
  refine ⟨_, _, hvalue raw, Raw.readAs_iff.2 rfl, ?_, Raw.timestamp_of_unread, ?_, ?_⟩
  · cases hread : Timestamp.read? (Raw.zoned raw) with
    | none => exact .inl (Raw.timestamp_of_unread hread)
    | some l =>
      rw [Raw.timestamp_of_read hread]
      cases ho : l.offset with
      | none => exact .inr (.inl ⟨l, by rw [Timestamp.toUtc?_of_naive ho], ho⟩)
      | some o =>
        rw [Timestamp.toUtc?_of_offset ho]
        cases ht : Timestamp.ofInstant? (l.clockMicros - o.micros) with
        | none => exact .inl rfl
        | some t => exact .inr (.inr ⟨t, rfl, (Timestamp.ofInstant?_eq_some_iff.1 ht).1⟩)
  · intro l hread ho
    rw [Raw.timestamp_of_read hread, Timestamp.toUtc?_of_naive ho]
  · intro l o hread ho
    constructor
    · intro hi
      obtain ⟨t, ht⟩ := Timestamp.exists_ofInstant?_iff.2 hi
      have hraw : Raw.timestamp raw = .time t := by
        rw [Raw.timestamp_of_read hread, Timestamp.toUtc?_of_offset ho, ht]
      refine ⟨⟨t, hraw, Timestamp.ofInstant?_eq_some_iff.1 ht⟩, ?_⟩
      intro other text' l' o' hother hread' ho' hsame
      rw [← Raw.readAs_iff.1 hother] at hread'
      rw [hvalue, hraw, Raw.timestamp_of_read hread', Timestamp.toUtc?_of_offset ho', hsame, ht]
    · intro hi
      rw [Raw.timestamp_of_read hread, Timestamp.toUtc?_of_offset ho, houtside _ hi]

/-- Three texts of one instant, of which one carries the day over the end of February and one ends in `Z`, and a text whose
instant lies before the calendar. -/
theorem Field.timestamp_outcome_february :
    let f : Field := ⟨.str "felled", .scalar (.str "DateTime"), false⟩
    let t : Timestamp := ⟨⟨2024, 2, 29, by decide⟩, ⟨84600250000, by decide⟩, some .utc⟩
    f.valueOf "2024-03-01T00:30:00.25+01:00" = .ok (.time t) ∧ f.valueOf " 2024-02-29 18:30:00,250-05:00" = .ok (.time t) ∧
      f.valueOf "2024-02-29T23:30:00.25Z " = .ok (.time t) ∧
      f.valueOf "0001-01-01T00:00+00:01" = .ok (.badTime "0001-01-01T00:00+00:01") := by
  intro f t
  have hread : Timestamp.read? "2024-03-01T00:30:00.25+01:00".toList =
      some ⟨⟨2024, 3, 1, by decide⟩, ⟨1800250000, by decide⟩, some ⟨3600000000, by decide⟩⟩ := by decide +kernel
  have hother : Timestamp.read? "2024-02-29 18:30:00,250-05:00".toList =
      some ⟨⟨2024, 2, 29, by decide⟩, ⟨66600250000, by decide⟩, some ⟨-18000000000, by decide⟩⟩ := by decide +kernel
  have hzulu : Timestamp.read? "2024-02-29T23:30:00.25+00:00".toList = some t := by decide +kernel
  have hearly : Timestamp.read? "0001-01-01T00:00+00:01".toList =
      some ⟨⟨1, 1, 1, by decide⟩, ⟨0, by decide⟩, some ⟨60000000, by decide⟩⟩ := by decide +kernel
  obtain ⟨v, _, hv, htext, -, -, -, hinstant⟩ := timestamp_outcome (f := f) rfl "2024-03-01T00:30:00.25+01:00"
  have hzoned : Raw.zoned "2024-03-01T00:30:00.25+01:00" = "2024-03-01T00:30:00.25+01:00".toList := by decide +kernel
  obtain rfl := hzoned.symm.trans (Raw.readAs_iff.1 htext)
  obtain ⟨⟨u, rfl, hu⟩, hsame⟩ := (hinstant _ _ hread rfl).1 (by decide +kernel)
  have hut : u = t := by
    refine Option.some.inj ((Timestamp.ofInstant?_eq_some_iff.2 hu).symm.trans ?_)
    decide +kernel
  obtain ⟨w, _, hw, htext', -, -, -, hbefore⟩ := timestamp_outcome (f := f) rfl "0001-01-01T00:00+00:01"
  have hzoned' : Raw.zoned "0001-01-01T00:00+00:01" = "0001-01-01T00:00+00:01".toList := by decide +kernel
  obtain rfl := hzoned'.symm.trans (Raw.readAs_iff.1 htext')
  obtain rfl := (hbefore _ _ hearly rfl).2 (by decide +kernel)
  rw [hut] at hv hsame
  refine ⟨hv, hsame _ _ _ _ ?_ hother rfl (by decide +kernel), hsame _ _ _ _ ?_ hzulu rfl (by decide +kernel), hw⟩
  · exact Raw.readAs_iff.2 (by decide +kernel)
  · exact Raw.readAs_iff.2 (by decide +kernel)

end ListQuery
