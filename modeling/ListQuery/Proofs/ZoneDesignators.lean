import ListQuery.Proofs.WrittenTimestamps
/-!
# Zone designators

A `Z` at the end of a raw timestamp is written out as an offset before the text is read.  Behind a time of day it is read as
that offset.  Behind a date alone, though, its plus sign separates date and time, and what is left of it is read as midnight
of a clock without an offset (`exists_writes_of_naive`): the designator is lost.  Main statement: `Field.valueOf_designated`.
-/
namespace ListQuery

namespace Timestamp

theorem read?_eq_some_iff {cs : List Char} {l : Timestamp} : read? cs = some l ↔
    readDate? cs = some (l.date, []) ∧ l = ⟨l.date, ⟨0, microsPerDay_pos⟩, none⟩ ∨
      ∃ c time, readDate? cs = some (l.date, c :: time) ∧ readTime? time = some (l.micros, l.offset) := by
  constructor
  · intro h
    simp only [read?, Option.bind_eq_bind, Option.bind_eq_some_iff, Option.pure_def] at h
    obtain ⟨⟨d, rest⟩, hdate, h⟩ := h
    dsimp only at h
    split at h
    · cases h
      exact .inl ⟨hdate, rfl⟩
    · obtain ⟨⟨micros, o⟩, htime, h⟩ := Option.bind_eq_some_iff.1 h
      cases h
      exact .inr ⟨_, _, hdate, htime⟩
  · rintro (⟨hdate, hl⟩ | ⟨c, time, hdate, htime⟩)
    · rw [hl]
      simp only [read?, hdate, Option.bind_eq_bind, Option.bind_some, Option.pure_def]
    · exact read?_of_time hdate htime

theorem eq_of_append_cons {x y : Char} {front front' behind behind' : List Char} (hfront : y ∉ front) (hbehind : y ∉ behind)
    (h : front ++ x :: behind = front' ++ y :: behind') : front = front' := by
  rcases List.append_eq_append_iff.1 h with ⟨more, rfl, hmore⟩ | ⟨more, rfl, hmore⟩
  · cases more with
    | nil => exact (List.append_nil front).symm
    | cons z more =>
      rw [(List.cons.inj hmore).2] at hbehind
      exact absurd (List.mem_append_right _ List.mem_cons_self) hbehind
  · cases more with
    | nil => exact List.append_nil front'
    | cons z more =>
      rw [(List.cons.inj hmore).1] at hfront
      exact absurd (List.mem_append_right _ List.mem_cons_self) hfront

/-- **A designator is lost behind a date alone**, and nowhere else. -/
theorem exists_writes_of_naive {cs : List Char} {l : Timestamp} (h : read? (cs ++ "+00:00".toList) = some l)
    (hnaive : l.offset = none) : l.date.Writes cs := by
  have hplus : ∀ {text : List Char}, l.date.Writes text → '+' ∉ text :=
    fun htext => htext.notMem (by decide) (by decide) (by decide)
  rcases read?_eq_some_iff.1 h with ⟨hdate, -⟩ | ⟨c, time, hdate, htime⟩
  · obtain ⟨text, htext, hwrites⟩ := exists_writes_of_readDate? hdate
    rw [List.append_nil] at htext
    refine absurd ?_ (hplus hwrites)
    rw [← htext]
    exact List.mem_append_right _ (by decide)
  · obtain ⟨text, htext, hwrites⟩ := exists_writes_of_readDate? hdate
    rw [hnaive] at htime
    have hsign : '+' ∉ time := fun hmem => nomatch (readTime?_eq_naive_iff.1 htime).1 _ hmem
    have heq : text = cs := eq_of_append_cons (hplus hwrites) hsign htext.symm
    rwa [← heq]

theorem read?_date_designated {d : Date} {text : List Char} (h : d.Writes text) :
    read? (text ++ "+00:00".toList) = some ⟨d, ⟨0, microsPerDay_pos⟩, none⟩ := by
  have hmidnight : readTime? "00:00".toList = some (⟨0, microsPerDay_pos⟩, none) := by decide +kernel
  exact read?_of_time (readDate?_of_writes h fun _ hc => Option.some.inj hc ▸ by decide) hmidnight

theorem read?_time_designated {cs : List Char} {l : Timestamp} (h : read? cs = some l) (hnaive : l.offset = none)
    (htime : ¬l.date.Writes cs) : read? (cs ++ "+00:00".toList) = some { l with offset := some .utc } := by
  rcases read?_eq_some_iff.1 h with ⟨hdate, -⟩ | ⟨c, time, hdate, hclock⟩
  · obtain ⟨text, htext, hwrites⟩ := exists_writes_of_readDate? hdate
    rw [htext, List.append_nil] at htime
    exact absurd hwrites htime
  · rw [hnaive] at hclock
    have hends : EndsDate "+00:00".toList := fun _ hc => Option.some.inj hc ▸ by decide
    exact read?_of_time (readDate?_append hdate hends) (readTime?_designated hclock)

end Timestamp

namespace Raw

variable {raw before : String}

theorem zoned_designated (h : trimBlank raw = before ++ "Z") : zoned raw = spelledOut before.toList ++ "+00:00".toList := by
  have hspelled : spelledOut "Z".toList = "+00:00".toList := by decide
  rw [zoned_eq, h, String.toList_append, spelledOut_append, hspelled]

theorem plus_mem_spelledOut {cs : List Char} (h : 'Z' ∈ cs) : '+' ∈ spelledOut cs :=
  List.mem_flatMap.2 ⟨'Z', h, by decide⟩

theorem spelledOut_of_writes {d : Date} {cs : List Char} (h : d.Writes (spelledOut cs)) : spelledOut cs = cs := by
  have hplus : '+' ∉ spelledOut cs := h.notMem (by decide) (by decide) (by decide)
  exact spelledOut_of_notMem fun hz => hplus (plus_mem_spelledOut hz)

end Raw

/-- **A zone designator at the end.**  Behind a date alone, in whichever of its forms, it is lost: a DateTime field
reads the text as midnight of a clock without an offset.  Whatever else stands before it, the timestamp that is read is
one of universal time; and a text with a time of day, which is read without an offset, is read as the same time of
universal time. -/
theorem Field.valueOf_designated {f : Field} (hf : f.kind = .scalar (.str "DateTime")) {raw before : String}
    (hraw : trimBlank raw = before ++ "Z") :
    (∀ d : Date, d.Writes before.toList → f.valueOf raw = .ok (.time ⟨d, ⟨0, microsPerDay_pos⟩, none⟩)) ∧
    (∀ t, f.valueOf raw = .ok (.time t) → (¬∃ d : Date, d.Writes before.toList) → t.offset = some .utc) ∧
    ∀ l, Timestamp.read? before.toList = some l → l.offset = none → 'Z' ∉ before.toList →
      (¬∃ d : Date, d.Writes before.toList) → f.valueOf raw = .ok (.time { l with offset := some .utc }) := by
  have hzoned := Raw.zoned_designated hraw
  refine ⟨?_, ?_, ?_⟩
  · intro d hd
    have hplain : 'Z' ∉ before.toList := hd.notMem (by decide) (by decide) (by decide)
    refine valueOf_of_read? hf ?_ (.inl rfl)
    rw [hzoned, Raw.spelledOut_of_notMem hplain, Timestamp.read?_date_designated hd]
  · intro t ht hdate
    rw [valueOf_timestamp hf] at ht
    obtain ⟨l, hread, hutc⟩ := Raw.timestamp_eq_time_iff.1 (Except.ok.inj ht)
    rcases Timestamp.offset_of_toUtc? hutc with ⟨hnaive, -⟩ | hutc
    · rw [hzoned] at hread
      have hwrites := Timestamp.exists_writes_of_naive hread hnaive
      rw [Raw.spelledOut_of_writes hwrites] at hwrites
      exact absurd ⟨_, hwrites⟩ hdate
    · exact hutc
  · intro l hread hnaive hplain hdate
    refine valueOf_of_read? hf ?_ (.inr rfl)
    rw [hzoned, Raw.spelledOut_of_notMem hplain]
    exact Timestamp.read?_time_designated hread hnaive fun hwrites => hdate ⟨_, hwrites⟩

def monday : Date := ⟨2024, 1, 15, by decide⟩

/-- A week date with a designator, and the same date with a time of day before it. -/
theorem Field.valueOf_designated_monday :
    let f : Field := ⟨.str "felled", .scalar (.str "DateTime"), false⟩
    f.valueOf "2024W03Z" = .ok (.time ⟨monday, ⟨0, microsPerDay_pos⟩, none⟩) ∧
      f.valueOf " 2024W03T00Z\n" = .ok (.time ⟨monday, ⟨0, microsPerDay_pos⟩, some .utc⟩) := by
  intro f
  have hweek : monday.Writes "2024W03".toList :=
    .week (by decide : [] ∈ dashes) (by decide : 2024 < 10000) (by decide +kernel : Date.ofWeek? 2024 3 1 = some monday)
  have hclock : ¬∃ d : Date, d.Writes "2024W03T00".toList := by
    rintro ⟨d, hd⟩
    exact hd.notMem (by decide : 'T'.isDigit = false) (by decide) (by decide) (by decide)
  have hread : Timestamp.read? "2024W03T00".toList = some ⟨monday, ⟨0, microsPerDay_pos⟩, none⟩ := by decide +kernel
  refine ⟨?_, ?_⟩
  · exact (valueOf_designated rfl (by decide : trimBlank "2024W03Z" = "2024W03" ++ "Z")).1 monday hweek
  · have htrim : trimBlank " 2024W03T00Z\n" = "2024W03T00" ++ "Z" := by decide
    exact (valueOf_designated rfl htrim).2.2 _ hread rfl (by decide) hclock

/-- A designator that is not read as a zone. -/
theorem Field.valueOf_loses_zone :
    trimBlank "2024-01-15Z" = "2024-01-15" ++ "Z" ∧
      ∃ t, Field.valueOf ⟨.str "felled", .scalar (.str "DateTime"), false⟩ "2024-01-15Z" = .ok (.time t) ∧
        t.offset ≠ some .utc := by
  have hread : Timestamp.read? (Raw.zoned "2024-01-15Z") = some ⟨monday, ⟨0, microsPerDay_pos⟩, none⟩ := by decide +kernel
  exact ⟨by decide, _, valueOf_of_read? rfl hread (.inl rfl), nofun⟩

end ListQuery
