import ListQuery.Json.Reader
import ListQuery.Proofs.DocumentShape
import ListQuery.Proofs.Success
/-!
# What the JSON reader promises

Whatever text it is given, the reader hands back a value of JSON or stops at a place in the text, and it finds containers
too deep only in a text that opens more of them than are read inside each other.  `Reads` says so of one call on a text, and
each reader of the parts of a value keeps it.  Main statements: `isJson_of_read`, `lt_openings_of_tooDeep`, and the other
way round `read_nested` (a text that opens an array in an array often enough is too deep, whatever stands behind).
-/
namespace ListQuery.Json

def isOpening (c : Char) : Bool := c == '[' || c == '{'

/-- How many containers a text can open at most; brackets inside strings are counted as well. -/
def openings (cs : List Char) : Nat := cs.countP isOpening

theorem openings_le_of_suffix {cs ds : List Char} (h : cs <:+ ds) : openings cs ≤ openings ds := h.sublist.countP_le

/-- What a call on a text promises: a good value with a rest of the text, and more openings than a depth if it finds
containers too deep. -/
structure Reads {α : Type} (good : α → Prop) (depth : Nat) (cs : List Char) (x : Except Stop (α × List Char)) : Prop where
  good_of_ok : ∀ {a rest}, x = .ok (a, rest) → good a ∧ rest <:+ cs
  lt_of_tooDeep : x = .error .tooDeep → depth < openings cs

namespace Reads

variable {α β : Type} {good : α → Prop} {good' : β → Prop} {depth : Nat} {cs ds rest : List Char}
  {x : Except Stop (α × List Char)}

theorem ok {a : α} (ha : good a) (hrest : rest <:+ cs) : Reads good depth cs (.ok (a, rest)) where
  good_of_ok h := by cases h; exact ⟨ha, hrest⟩
  lt_of_tooDeep h := nomatch h

theorem error {stop : Stop} (h : stop ≠ .tooDeep) : Reads good depth cs (.error stop) where
  good_of_ok h := nomatch h
  lt_of_tooDeep hdeep := absurd (Except.error.inj hdeep) h

theorem complaint {why : Complaint} : Reads good depth cs (.error (.complaint why rest)) := error (by simp)

theorem mono (h : Reads good depth cs x) (hcs : cs <:+ ds) : Reads good depth ds x where
  good_of_ok hx := ⟨(h.good_of_ok hx).1, (h.good_of_ok hx).2.trans hcs⟩
  lt_of_tooDeep hx := Nat.lt_of_lt_of_le (h.lt_of_tooDeep hx) (openings_le_of_suffix hcs)

theorem bind {f : α × List Char → Except Stop (β × List Char)} (h : Reads good depth cs x)
    (hf : ∀ a rest, good a → rest <:+ cs → Reads good' depth cs (f (a, rest))) : Reads good' depth cs (x >>= f) := by
  cases x with
  | error stop =>
    constructor
    case good_of_ok => exact fun hx => nomatch hx
    case lt_of_tooDeep =>
      intro hx
      obtain rfl := Except.error.inj hx
      exact h.lt_of_tooDeep rfl
  | ok result =>
    obtain ⟨a, rest⟩ := result
    obtain ⟨ha, hrest⟩ := h.good_of_ok rfl
    exact hf a rest ha hrest

theorem opened {c : Char} (h : Reads good depth cs x) (hc : isOpening c = true) : Reads good (depth + 1) (c :: cs) x where
  good_of_ok hx := ⟨(h.good_of_ok hx).1, (h.good_of_ok hx).2.trans (List.suffix_cons c cs)⟩
  lt_of_tooDeep hx := by
    have hlt := h.lt_of_tooDeep hx
    rw [openings, List.countP_cons_of_pos hc]
    exact Nat.succ_lt_succ hlt

theorem tooDeep {c : Char} (hc : isOpening c = true) : Reads good 0 (c :: cs) (.error .tooDeep) where
  good_of_ok h := nomatch h
  lt_of_tooDeep _ := by
    rw [openings, List.countP_cons_of_pos hc]
    exact Nat.succ_pos _

end Reads

/-! ## Strings -/

variable {depth : Nat}

theorem suffix_skipBlank (cs : List Char) : skipBlank cs <:+ cs := List.dropWhile_suffix _

theorem suffix_of_skipBlank {c : Char} {cs rest : List Char} (h : skipBlank cs = c :: rest) : rest <:+ cs :=
  (List.suffix_cons c rest).trans (h ▸ suffix_skipBlank cs)

theorem suffix_of_hexQuad? {cs rest : List Char} {n : Nat} (h : hexQuad? cs = some (n, rest)) : rest <:+ cs := by
  unfold hexQuad? at h
  split at h
  · rename_i a b c d behind
    obtain rfl : behind = rest := by
      simp only [Option.bind_eq_bind, Option.bind_eq_some_iff, Option.pure_def, Option.some.injEq, Prod.mk.injEq] at h
      obtain ⟨_, _, _, _, _, _, _, _, _, h⟩ := h
      exact h
    exact ⟨[a, b, c, d], rfl⟩
  · cases h

theorem readCodePoint_reads (cs : List Char) : Reads (fun _ => True) depth cs (readCodePoint cs) := by
  unfold readCodePoint
  split
  · exact .complaint
  · exact .complaint
  · rename_i high rest _ hquad
    have hrest := suffix_of_hexQuad? hquad
    split
    · rename_i more _ _
      split
      · exact .ok trivial hrest
      split
      · exact .complaint
      · rename_i low behind hlow
        have hbehind : behind <:+ '\\' :: 'u' :: more := (suffix_of_hexQuad? hlow).trans ⟨['\\', 'u'], rfl⟩
        split
        · exact .ok trivial (hbehind.trans hrest)
        · exact .ok trivial hrest
    · exact .ok trivial hrest

theorem readEscape_reads (opening cs : List Char) : Reads (fun _ => True) depth cs (readEscape opening cs) := by
  unfold readEscape
  split
  · exact .complaint
  · exact (readCodePoint_reads _).mono (List.suffix_cons _ _)
  · split <;> first | exact .ok trivial (List.suffix_cons _ _) | exact .complaint

theorem readString_reads (opening : List Char) : ∀ (fuel : Nat) (cs : List Char),
    Reads (fun _ => True) depth cs (readString opening fuel cs)
  | 0, _ => .complaint
  | _ + 1, [] => .complaint
  | fuel + 1, c :: rest => by
    have hc := List.suffix_cons c rest
    rw [readString]
    split
    · exact .ok trivial hc
    split
    · refine ((readEscape_reads opening rest).mono hc).bind fun d behind _ hbehind => ?_
      exact ((readString_reads opening fuel behind).mono hbehind).bind fun s _ _ hrest => .ok trivial hrest
    split
    · exact .complaint
    · exact ((readString_reads opening fuel rest).mono hc).bind fun s _ _ hrest => .ok trivial hrest

/-! ## Numbers -/

theorem suffix_of_digitRun {digit : Char → Bool} {cs digits rest : List Char} (h : digitRun digit cs = (digits, rest)) :
    rest <:+ cs := by
  obtain ⟨-, rfl⟩ := Prod.mk.inj h
  exact List.dropWhile_suffix _

theorem suffix_minusPart (cs : List Char) : (minusPart cs).2 <:+ cs := by
  unfold minusPart
  split
  · exact List.suffix_cons _ _
  · exact List.suffix_rfl

theorem suffix_signPart (cs : List Char) : (signPart cs).2 <:+ cs := by
  unfold signPart
  split
  · exact List.suffix_cons _ _
  · exact List.suffix_cons _ _
  · exact List.suffix_rfl

theorem suffix_of_wholePart? {cs whole rest : List Char} (h : wholePart? cs = some (whole, rest)) : rest <:+ cs := by
  unfold wholePart? at h
  split at h
  · cases h
    exact List.suffix_cons _ _
  · split at h
    · cases h
    · cases h
      exact List.dropWhile_suffix _

theorem suffix_of_fractionPart? {cs fraction rest : List Char} (h : fractionPart? Char.isDigit cs = some (fraction, rest)) :
    rest <:+ cs := by
  unfold fractionPart? at h
  split at h
  · split at h
    · cases h
    · cases h
      exact (List.dropWhile_suffix _).trans (List.suffix_cons _ _)
  · cases h

theorem suffix_of_exponentPart? {cs rest : List Char} {exponent : Int}
    (h : exponentPart? Char.isDigit cs = some (exponent, rest)) : rest <:+ cs := by
  unfold exponentPart? at h
  split at h
  · rename_i e body
    have hbody := (suffix_signPart body).trans (List.suffix_cons e body)
    split at h
    · dsimp only at h
      split at h
      · cases h
      · rename_i hrun
        cases h
        exact (suffix_of_digitRun hrun).trans hbody
    · cases h
  · cases h

theorem readNumber_reads (cs : List Char) : Reads (fun v => v.isJson = true) depth cs (readNumber cs) := by
  unfold readNumber
  dsimp only
  split
  · exact .complaint
  · rename_i whole rest hwhole
    have hrest := (suffix_of_wholePart? hwhole).trans (suffix_minusPart cs)
    have hfraction : ((fractionPart? Char.isDigit rest).getD ([], rest)).2 <:+ cs := by
      cases h : fractionPart? Char.isDigit rest with
      | none => exact hrest
      | some part => exact (suffix_of_fractionPart? h).trans hrest
    split
    · rename_i exponent behind hexponent
      exact .ok rfl ((suffix_of_exponentPart? hexponent).trans hfraction)
    split
    · exact .ok rfl hfraction
    split
    · exact .error (by simp)
    · exact .ok rfl hrest

theorem isJson_of_mem_words : ∀ w ∈ words, w.2.isJson = true := by decide

theorem readScalar_reads (cs : List Char) : Reads (fun v => v.isJson = true) depth cs (readScalar cs) := by
  unfold readScalar
  split
  · rename_i found hfound
    obtain ⟨w, hw, hprefix⟩ := List.exists_of_findSome?_eq_some hfound
    obtain ⟨rest, hrest, rfl⟩ := Option.map_eq_some_iff.1 hprefix
    exact .ok (isJson_of_mem_words w hw) ⟨w.1, List.isPrefixOf?_eq_some_iff_append_eq.1 hrest⟩
  · exact readNumber_reads cs

/-! ## Containers -/

theorem readItems_reads {item : Reader Value} (hitem : ∀ cs, Reads (fun v => v.isJson = true) depth cs (item cs)) :
    ∀ (fuel : Nat) (cs : List Char), Reads (fun vs => Value.allJson vs = true) depth cs (readItems item fuel cs)
  | 0, _ => .complaint
  | fuel + 1, cs => by
    rw [readItems]
    refine (hitem cs).bind fun v rest hv hrest => ?_
    dsimp only
    split
    · rename_i behind hskip
      exact .ok (by rw [Value.allJson, hv]; rfl) ((suffix_of_skipBlank hskip).trans hrest)
    · rename_i behind hskip
      have hbehind := (suffix_skipBlank behind).trans ((suffix_of_skipBlank hskip).trans hrest)
      refine ((readItems_reads hitem fuel (skipBlank behind)).mono hbehind).bind fun vs _ hvs hend => ?_
      exact .ok (by rw [Value.allJson, hv, hvs]; rfl) hend
    · exact .complaint

theorem readEntry_reads {item : Reader Value} (hitem : ∀ cs, Reads (fun v => v.isJson = true) depth cs (item cs))
    (fuel : Nat) (cs : List Char) : Reads (fun e => e.2.isJson = true) depth cs (readEntry fuel item cs) := by
  unfold readEntry
  split
  · rename_i body
    refine ((readString_reads _ fuel body).mono (List.suffix_cons _ _)).bind fun name rest _ hrest => ?_
    dsimp only
    split
    · rename_i behind hskip
      have hbehind := (suffix_skipBlank behind).trans ((suffix_of_skipBlank hskip).trans hrest)
      exact ((hitem (skipBlank behind)).mono hbehind).bind fun v _ hv hend => .ok hv hend
    · exact .complaint
  · exact .complaint

theorem readEntries_reads {entry : Reader (String × Value)}
    (hentry : ∀ cs, Reads (fun e => e.2.isJson = true) depth cs (entry cs)) : ∀ (fuel : Nat) (cs : List Char),
      Reads (fun es => Value.allJsonEntries es = true) depth cs (readEntries entry fuel cs)
  | 0, _ => .complaint
  | fuel + 1, cs => by
    rw [readEntries]
    refine (hentry cs).bind fun e rest he hrest => ?_
    dsimp only
    split
    · rename_i behind hskip
      exact .ok (by rw [Value.allJsonEntries, he]; rfl) ((suffix_of_skipBlank hskip).trans hrest)
    · rename_i behind hskip
      have hbehind := (suffix_skipBlank behind).trans ((suffix_of_skipBlank hskip).trans hrest)
      refine ((readEntries_reads hentry fuel (skipBlank behind)).mono hbehind).bind fun es _ hes hend => ?_
      exact .ok (by rw [Value.allJsonEntries, he, hes]; rfl) hend
    · exact .complaint

theorem allJsonEntries_insert (key : String) {v : Value} (hv : v.isJson = true) : ∀ entries : List (String × Value),
    Value.allJsonEntries entries = true → Value.allJsonEntries (Value.insert key v entries) = true
  | [], _ => by
    rw [Value.insert, Entries.alter, Value.allJsonEntries, hv]
    rfl
  | (k, w) :: rest, h => by
    have ih := allJsonEntries_insert key hv rest
    rw [Value.allJsonEntries, Bool.and_eq_true] at h
    rw [Value.insert] at ih ⊢
    rw [Entries.alter]
    split
    · rw [Value.allJsonEntries, hv, h.2]
      rfl
    · rw [Value.allJsonEntries, h.1, ih h.2]
      rfl

theorem allJsonEntries_foldl_insert : ∀ (entries base : List (String × Value)), Value.allJsonEntries entries = true →
    Value.allJsonEntries base = true →
      Value.allJsonEntries (entries.foldl (fun m e => Value.insert e.1 e.2 m) base) = true
  | [], _, _, hbase => hbase
  | (k, v) :: rest, base, h, hbase => by
    rw [Value.allJsonEntries, Bool.and_eq_true] at h
    exact allJsonEntries_foldl_insert rest _ h.2 (allJsonEntries_insert k h.1 base hbase)

theorem isJson_mapOf {entries : List (String × Value)} (h : Value.allJsonEntries entries = true) :
    (Value.map (Value.mapOf entries)).isJson = true :=
  allJsonEntries_foldl_insert entries [] h rfl

theorem readWith_none_reads (fuel : Nat) (cs : List Char) :
    Reads (fun v => v.isJson = true) 0 cs (readWith fuel none cs) := by
  unfold readWith
  split
  · rename_i body
    exact ((readString_reads _ fuel body).mono (List.suffix_cons _ _)).bind fun s _ _ hrest => .ok rfl hrest
  · exact .tooDeep rfl
  · exact .tooDeep rfl
  · exact readScalar_reads _

theorem readWith_some_reads {item : Reader Value} (hitem : ∀ cs, Reads (fun v => v.isJson = true) depth cs (item cs))
    (fuel : Nat) (cs : List Char) : Reads (fun v => v.isJson = true) (depth + 1) cs (readWith fuel (some item) cs) := by
  unfold readWith
  split
  · rename_i body
    exact ((readString_reads _ fuel body).mono (List.suffix_cons _ _)).bind fun s _ _ hrest => .ok rfl hrest
  · rename_i body
    split
    · rename_i h; cases h
    · rename_i rest hskip
      exact .ok rfl ((suffix_of_skipBlank hskip).trans (List.suffix_cons _ _))
    · rename_i inner hinner _
      cases hinner
      have hitems := (readItems_reads hitem fuel (skipBlank body)).mono (suffix_skipBlank body)
      exact (hitems.opened rfl).bind fun vs _ hvs hrest => .ok (by rw [Value.isJson, hvs]) hrest
  · rename_i body
    split
    · rename_i h; cases h
    · rename_i rest hskip
      exact .ok rfl ((suffix_of_skipBlank hskip).trans (List.suffix_cons _ _))
    · rename_i inner hinner _
      cases hinner
      have hentries := (readEntries_reads (readEntry_reads hitem fuel) fuel (skipBlank body)).mono (suffix_skipBlank body)
      exact (hentries.opened rfl).bind fun es _ hes hrest => .ok (isJson_mapOf hes) hrest
  · exact readScalar_reads _

theorem readValue_reads (fuel : Nat) : ∀ (depth : Nat) (cs : List Char),
    Reads (fun v => v.isJson = true) depth cs (readValue fuel depth cs)
  | 0, cs => readWith_none_reads fuel cs
  | depth + 1, cs => readWith_some_reads (readValue_reads fuel depth) fuel cs

/-! ## Whole texts -/

theorem readChars_reads (cs : List Char) :
    (∀ v, readChars cs = .ok v → v.isJson = true) ∧ (readChars cs = .error .tooDeep → maxDepth < openings cs) := by
  have hvalue := (readValue_reads cs.length maxDepth (skipBlank cs)).mono (suffix_skipBlank cs)
  unfold readChars
  split
  · exact ⟨fun _ h => (nomatch h), fun h => (nomatch h)⟩
  · cases hread : readValue cs.length maxDepth (skipBlank cs) with
    | error stop =>
      refine ⟨fun _ h => (nomatch h), fun h => hvalue.lt_of_tooDeep ?_⟩
      rw [hread, Except.error.inj h]
    | ok result =>
      obtain ⟨hv, -⟩ := hvalue.good_of_ok hread
      rw [ok_bind]
      dsimp only
      split
      · exact ⟨fun _ h => Except.ok.inj h ▸ hv, fun h => (nomatch h)⟩
      · exact ⟨fun _ h => (nomatch h), fun h => (nomatch h)⟩

theorem read_eq_ok_iff {text : String} {v : Value} : read text = .ok v ↔ readChars text.toList = .ok v := by
  rw [read]
  cases readChars text.toList <;> simp [Except.mapError]

theorem read_eq_tooDeep_iff {text : String} : read text = .error .tooDeep ↔ readChars text.toList = .error .tooDeep := by
  rw [read]
  cases readChars text.toList with
  | ok v => simp [Except.mapError]
  | error stop => cases stop <;> simp [Except.mapError, Stop.fault]

theorem isJson_of_read {text : String} {v : Value} (h : read text = .ok v) : v.isJson = true :=
  (readChars_reads text.toList).1 v (read_eq_ok_iff.1 h)

/-- **Only a text that opens more containers than are read inside each other is too deep.** -/
theorem lt_openings_of_tooDeep {text : String} (h : read text = .error .tooDeep) : maxDepth < openings text.toList :=
  (readChars_reads text.toList).2 (read_eq_tooDeep_iff.1 h)

/-! ## Texts that are too deep -/

theorem readItems_of_error {item : Reader Value} {cs : List Char} {stop : Stop} (h : item cs = .error stop) (fuel : Nat) :
    readItems item (fuel + 1) cs = .error stop := by
  rw [readItems, h]
  rfl

theorem readValue_replicate (fuel : Nat) (rest : List Char) : ∀ depth : Nat,
    readValue (fuel + 1) depth (List.replicate (depth + 1) '[' ++ rest) = .error .tooDeep
  | 0 => rfl
  | depth + 1 => by
    have ih := readItems_of_error (readValue_replicate fuel rest depth) fuel
    have hstep : readValue (fuel + 1) (depth + 1) (List.replicate (depth + 2) '[' ++ rest) =
        (readItems (readValue (fuel + 1) depth) (fuel + 1) (List.replicate (depth + 1) '[' ++ rest) >>= fun r =>
          .ok (.list r.1, r.2)) := rfl
    rw [hstep, ih]
    rfl

/-- The text of an object whose entry `a` opens so many arrays and closes none. -/
def nested (arrays : Nat) : List Char := '\x7b' :: '"' :: 'a' :: '"' :: ':' :: List.replicate arrays '['

theorem readEntries_of_error {entry : Reader (String × Value)} {cs : List Char} {stop : Stop} (h : entry cs = .error stop)
    (fuel : Nat) : readEntries entry (fuel + 1) cs = .error stop := by
  rw [readEntries, h]
  rfl

theorem readValue_nested (fuel depth : Nat) (rest : List Char) :
    readValue (fuel + 2) (depth + 1) (nested (depth + 1) ++ rest) = .error .tooDeep := by
  have hentry : readEntry (fuel + 2) (readValue (fuel + 2) depth) ((nested (depth + 1)).tail ++ rest) = .error .tooDeep := by
    have hstep : readEntry (fuel + 2) (readValue (fuel + 2) depth) ((nested (depth + 1)).tail ++ rest) =
        (readValue (fuel + 2) depth (List.replicate (depth + 1) '[' ++ rest) >>= fun r => .ok (("a", r.1), r.2)) := rfl
    rw [hstep, readValue_replicate]
    rfl
  have hstep : readValue (fuel + 2) (depth + 1) (nested (depth + 1) ++ rest) =
      (readEntries (readEntry (fuel + 2) (readValue (fuel + 2) depth)) (fuel + 2) ((nested (depth + 1)).tail ++ rest) >>=
        fun r => .ok (.map (Value.mapOf r.1), r.2)) := rfl
  rw [hstep, readEntries_of_error hentry]
  rfl

theorem nested_append (m n : Nat) (rest : List Char) :
    nested (m + n) ++ rest = nested m ++ (List.replicate n '[' ++ rest) := by
  simp only [nested, List.replicate_add, List.cons_append, List.append_assoc]

theorem readChars_of_error {c : Char} {cs : List Char} {stop : Stop} (hc : c ≠ '\uFEFF')
    (h : readValue (c :: cs).length maxDepth (skipBlank (c :: cs)) = .error stop) : readChars (c :: cs) = .error stop := by
  unfold readChars
  split
  · rename_i heq
    exact absurd (List.cons.inj heq).1 hc
  · rw [h]
    rfl

theorem read_nested {arrays : Nat} (h : maxDepth ≤ arrays) (rest : List Char) :
    read (String.ofList (nested arrays ++ rest)) = .error .tooDeep := by
  obtain ⟨more, rfl⟩ := Nat.exists_eq_add_of_le h
  rw [read_eq_tooDeep_iff, String.toList_ofList, nested_append]
  generalize List.replicate more '[' ++ rest = behind
  obtain ⟨depth, hdepth⟩ : ∃ depth, maxDepth = depth + 1 := Nat.exists_eq_succ_of_ne_zero (by decide)
  -- that the text has two characters is all that is said of its length, so that nothing counts the others
  obtain ⟨fuel, hfuel⟩ : ∃ fuel, (nested maxDepth ++ behind).length = fuel + 2 := ⟨_, rfl⟩
  have hvalue : readValue (nested maxDepth ++ behind).length maxDepth (nested maxDepth ++ behind) = .error .tooDeep := by
    rw [hfuel, hdepth]
    exact readValue_nested fuel depth behind
  exact readChars_of_error (by decide) hvalue

end ListQuery.Json
