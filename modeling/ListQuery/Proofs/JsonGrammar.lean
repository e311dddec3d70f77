import ListQuery.Proofs.JsonReading
/-!
# The grammar of JSON texts

Which texts are JSON, told without the reader: RFC 8259 with the words `NaN`, `Infinity` and `-Infinity`, and containers in
each other at most so deep.  The reader takes no other text for a value (`isText_of_readChars`), and it finds an integer too
long only where the text has so many digits in a row (`digits_of_tooManyDigits`).
-/
namespace ListQuery.Json

/-! ## The grammar -/

def IsBlank (cs : List Char) : Prop := ∀ c ∈ cs, c ∈ [' ', '\t', '\n', '\r']

def IsHex (c : Char) : Prop := c.isDigit = true ∨ ('a' ≤ c ∧ c ≤ 'f') ∨ ('A' ≤ c ∧ c ≤ 'F')

inductive IsStringBody : List Char → Prop
  | nil : IsStringBody []
  | verbatim {c rest} : c ≠ '"' → c ≠ '\\' → 0x20 ≤ c.toNat → IsStringBody rest → IsStringBody (c :: rest)
  | escape {c rest} : c ∈ ['"', '\\', '/', 'b', 'f', 'n', 'r', 't'] → IsStringBody rest → IsStringBody ('\\' :: c :: rest)
  | codePoint {quad rest} : quad.length = 4 → (∀ c ∈ quad, IsHex c) → IsStringBody rest →
      IsStringBody ('\\' :: 'u' :: (quad ++ rest))

structure IsDigits (cs : List Char) : Prop where
  ne_nil : cs ≠ []
  digit : ∀ c ∈ cs, c.isDigit = true

/-- Digits without a needless zero. -/
inductive IsWhole : List Char → Prop
  | zero : IsWhole ['0']
  | digits {c cs} : c ≠ '0' → IsDigits (c :: cs) → IsWhole (c :: cs)

inductive IsFraction : List Char → Prop
  | absent : IsFraction []
  | point {digits} : IsDigits digits → IsFraction ('.' :: digits)

inductive IsExponent : List Char → Prop
  | absent : IsExponent []
  | mark {e sign digits} : e = 'e' ∨ e = 'E' → sign ∈ [[], ['+'], ['-']] → IsDigits digits →
      IsExponent (e :: (sign ++ digits))

inductive IsScalar : List Char → Prop
  | word {cs} : cs ∈ ["null", "true", "false", "NaN", "Infinity", "-Infinity"].map String.toList → IsScalar cs
  | number {sign whole fraction exponent} : sign ∈ [[], ['-']] → IsWhole whole → IsFraction fraction →
      IsExponent exponent → IsScalar (sign ++ whole ++ fraction ++ exponent)
  | string {body} : IsStringBody body → IsScalar ('"' :: (body ++ ['"']))

inductive IsRow (member : List Char → Prop) : List Char → Prop
  | last {before text behind} : IsBlank before → member text → IsBlank behind → IsRow member (before ++ text ++ behind)
  | more {before text behind rest} : IsBlank before → member text → IsBlank behind → IsRow member rest →
      IsRow member (before ++ text ++ behind ++ ',' :: rest)

inductive IsEntry (value : List Char → Prop) : List Char → Prop
  | mk {name before behind text} : IsStringBody name → IsBlank before → IsBlank behind → value text →
      IsEntry value ('"' :: (name ++ '"' :: (before ++ ':' :: (behind ++ text))))

inductive IsContainer (value : List Char → Prop) : List Char → Prop
  | emptyArray {blank} : IsBlank blank → IsContainer value ('[' :: (blank ++ [']']))
  | array {items} : IsRow value items → IsContainer value ('[' :: (items ++ [']']))
  | emptyObject {blank} : IsBlank blank → IsContainer value ('\x7b' :: (blank ++ ['\x7d']))
  | object {entries} : IsRow (IsEntry value) entries → IsContainer value ('\x7b' :: (entries ++ ['\x7d']))

/-- A value in which containers stand in each other at most so deep. -/
def IsValue : (depth : Nat) → List Char → Prop
  | 0, cs => IsScalar cs
  | depth + 1, cs => IsScalar cs ∨ IsContainer (IsValue depth) cs

inductive IsText (depth : Nat) : List Char → Prop
  | mk {before text behind} : IsBlank before → IsValue depth text → IsBlank behind → IsText depth (before ++ text ++ behind)

/-! ## What a call on a text gets -/

structure IsLongRun (cs digits : List Char) : Prop where
  isInfix : digits <:+: cs
  digit : ∀ c ∈ digits, c.isDigit = true
  long : maxIntegerDigits < digits.length

theorem IsLongRun.mono {cs ds digits : List Char} (h : IsLongRun cs digits) (hcs : cs <:+: ds) : IsLongRun ds digits :=
  ⟨h.isInfix.trans hcs, h.digit, h.long⟩

/-- A call that gets a part of the given shape off the front of a text, or stops; for its digits only where there are too
many in a row. -/
inductive Gets {α : Type} (shape : List Char → Prop) (cs : List Char) : Except Stop (α × List Char) → Prop
  | ok {a rest} (text : List Char) : cs = text ++ rest → shape text → Gets shape cs (.ok (a, rest))
  | complaint {why rest} : Gets shape cs (.error (.complaint why rest))
  | tooDeep : Gets shape cs (.error .tooDeep)
  | tooManyDigits {digits} : IsLongRun cs digits → Gets shape cs (.error (.tooManyDigits digits.length))

namespace Gets

variable {α β : Type} {shape shape' : List Char → Prop} {cs rest : List Char} {x : Except Stop (α × List Char)}

theorem bind {f : α × List Char → Except Stop (β × List Char)} (h : Gets shape cs x)
    (hf : ∀ a text rest, cs = text ++ rest → shape text → Gets shape' cs (f (a, rest))) : Gets shape' cs (x >>= f) := by
  cases h with
  | ok _ hcs htext => exact hf _ _ _ hcs htext
  | complaint => exact .complaint
  | tooDeep => exact .tooDeep
  | tooManyDigits hrun => exact .tooManyDigits hrun

theorem map (h : Gets shape cs x) (g : α → β) : Gets shape cs (x >>= fun r => .ok (g r.1, r.2)) :=
  h.bind fun _ _ _ hcs htext => .ok _ hcs htext

theorem behind (before : List Char) (hcs : cs = before ++ rest) (h : Gets (fun text => shape (before ++ text)) rest x) :
    Gets shape cs x := by
  subst hcs
  cases h with
  | ok _ hrest htext => exact .ok _ (by rw [hrest, List.append_assoc]) htext
  | complaint => exact .complaint
  | tooDeep => exact .tooDeep
  | tooManyDigits hrun => exact .tooManyDigits (hrun.mono (List.suffix_append _ _).isInfix)

theorem imp (h : Gets shape cs x) (himp : ∀ text, shape text → shape' text) : Gets shape' cs x := by
  cases h with
  | ok _ hcs htext => exact .ok _ hcs (himp _ htext)
  | complaint => exact .complaint
  | tooDeep => exact .tooDeep
  | tooManyDigits hrun => exact .tooManyDigits hrun

end Gets

/-! ## Blanks -/

theorem isJsonBlank_iff {c : Char} : isJsonBlank c = true ↔ c ∈ [' ', '\t', '\n', '\r'] := by
  simp [isJsonBlank, or_assoc]

theorem exists_blank (cs : List Char) : ∃ blank, IsBlank blank ∧ cs = blank ++ skipBlank cs := by
  refine ⟨cs.takeWhile isJsonBlank, fun c hc => ?_, (List.takeWhile_append_dropWhile).symm⟩
  exact isJsonBlank_iff.1 (List.all_eq_true.1 List.all_takeWhile c hc)

theorem exists_blanks {rest behind : List Char} {c : Char} (h : skipBlank rest = c :: behind) : ∃ blank blank',
    IsBlank blank ∧ IsBlank blank' ∧ behind = blank' ++ skipBlank behind ∧ rest = blank ++ c :: behind := by
  obtain ⟨blank, hblank, hrest⟩ := exists_blank rest
  obtain ⟨blank', hblank', hbehind⟩ := exists_blank behind
  exact ⟨blank, blank', hblank, hblank', hbehind, h ▸ hrest⟩

theorem isBlank_nil : IsBlank [] := List.forall_mem_nil _

theorem isBlank_append {before behind : List Char} (h : IsBlank before) (h' : IsBlank behind) :
    IsBlank (before ++ behind) := by
  intro c hc
  rcases List.mem_append.1 hc with hc | hc
  · exact h c hc
  · exact h' c hc

theorem IsRow.blank {member : List Char → Prop} {blank row : List Char} (hblank : IsBlank blank) (h : IsRow member row) :
    IsRow member (blank ++ row) := by
  cases h with
  | last hbefore htext hbehind =>
    rw [← List.append_assoc, ← List.append_assoc]
    exact .last (isBlank_append hblank hbefore) htext hbehind
  | more hbefore htext hbehind hrest =>
    rw [← List.append_assoc, ← List.append_assoc, ← List.append_assoc]
    exact .more (isBlank_append hblank hbefore) htext hbehind hrest

/-! ## Strings -/

def IsStringPart (part : List Char) : Prop := ∀ body, IsStringBody body → IsStringBody (part ++ body)

theorem isHex_of_hexDigit? {c : Char} {n : Nat} (h : hexDigit? c = some n) : IsHex c := by
  unfold hexDigit? at h
  split at h
  · rename_i hc
    exact .inl hc
  split at h
  · rename_i hc
    exact .inr (.inl hc)
  split at h
  · rename_i hc
    exact .inr (.inr hc)
  · cases h

theorem exists_quad {cs rest : List Char} {n : Nat} (h : hexQuad? cs = some (n, rest)) :
    ∃ quad, quad.length = 4 ∧ (∀ c ∈ quad, IsHex c) ∧ cs = quad ++ rest := by
  unfold hexQuad? at h
  split at h
  · rename_i a b c d behind
    simp only [Option.bind_eq_bind, Option.bind_eq_some_iff, Option.pure_def, Option.some.injEq, Prod.mk.injEq] at h
    obtain ⟨_, ha, _, hb, _, hc, _, hd, -, rfl⟩ := h
    refine ⟨[a, b, c, d], rfl, ?_, rfl⟩
    simp only [List.forall_mem_cons]
    exact ⟨isHex_of_hexDigit? ha, isHex_of_hexDigit? hb, isHex_of_hexDigit? hc, isHex_of_hexDigit? hd,
      List.forall_mem_nil _⟩
  · cases h

theorem isStringPart_codePoint {quad : List Char} (hlength : quad.length = 4) (hhex : ∀ c ∈ quad, IsHex c) :
    IsStringPart ('\\' :: 'u' :: quad) := by
  intro body hbody
  exact .codePoint hlength hhex hbody

theorem readCodePoint_gets (cs : List Char) :
    Gets (fun text => IsStringPart ('\\' :: 'u' :: text)) cs (readCodePoint cs) := by
  unfold readCodePoint
  split
  · exact .complaint
  · exact .complaint
  · rename_i high rest _ hquad
    obtain ⟨quad, hlength, hhex, rfl⟩ := exists_quad hquad
    have hpart := isStringPart_codePoint hlength hhex
    split
    · rename_i more _ _
      split
      · exact .ok _ rfl hpart
      split
      · exact .complaint
      · rename_i low behind hlow
        obtain ⟨quad', hlength', hhex', rfl⟩ := exists_quad hlow
        split
        · refine .ok (quad ++ '\\' :: 'u' :: quad') (by simp) fun body hbody => ?_
          have hbehind := hpart _ (isStringPart_codePoint hlength' hhex' body hbody)
          simpa using hbehind
        · exact .ok _ rfl hpart
    · exact .ok _ rfl hpart

theorem readEscape_gets (opening cs : List Char) :
    Gets (fun text => IsStringPart ('\\' :: text)) cs (readEscape opening cs) := by
  unfold readEscape
  split
  · exact .complaint
  · rename_i rest
    exact .behind ['u'] rfl (readCodePoint_gets rest)
  · rename_i c rest _
    have hpart : ∀ d : Char, c ∈ ['"', '\\', '/', 'b', 'f', 'n', 'r', 't'] →
        Gets (fun text => IsStringPart ('\\' :: text)) (c :: rest) (.ok (d, rest)) :=
      fun d hc => .ok [c] rfl fun body hbody => .escape hc hbody
    split <;> first | exact hpart _ (by decide) | exact .complaint

def IsClosedBody (cs : List Char) : Prop := ∃ body, IsStringBody body ∧ cs = body ++ ['"']

theorem IsStringPart.isClosedBody {part text : List Char} (h : IsStringPart part) (htext : IsClosedBody text) :
    IsClosedBody (part ++ text) := by
  obtain ⟨body, hbody, rfl⟩ := htext
  exact ⟨part ++ body, h body hbody, (List.append_assoc _ _ _).symm⟩

theorem readString_gets (opening : List Char) : ∀ (fuel : Nat) (cs : List Char),
    Gets IsClosedBody cs (readString opening fuel cs)
  | 0, _ => .complaint
  | _ + 1, [] => .complaint
  | fuel + 1, c :: rest => by
    rw [readString]
    split
    · rename_i hc
      subst hc
      exact .ok ['"'] rfl ⟨[], .nil, rfl⟩
    split
    · rename_i hc
      subst hc
      have hescape : Gets IsStringPart ('\\' :: rest) (readEscape opening rest) :=
        .behind ['\\'] rfl (readEscape_gets opening rest)
      refine hescape.bind fun d text behind hrest hpart => ?_
      have hstring : Gets IsClosedBody ('\\' :: rest) (readString opening fuel behind) :=
        .behind _ hrest ((readString_gets opening fuel behind).imp fun _ => hpart.isClosedBody)
      exact hstring.map _
    split
    · exact .complaint
    · rename_i hquote hbackslash hcontrol
      have hpart : IsStringPart [c] := fun body hbody => .verbatim hquote hbackslash (Nat.le_of_not_lt hcontrol) hbody
      have hstring : Gets IsClosedBody (c :: rest) (readString opening fuel rest) :=
        .behind [c] rfl ((readString_gets opening fuel rest).imp fun _ => hpart.isClosedBody)
      exact hstring.map _

def IsQuoted (cs : List Char) : Prop := ∃ body, IsStringBody body ∧ cs = '"' :: (body ++ ['"'])

theorem readString_gets_quoted (fuel : Nat) (rest : List Char) :
    Gets IsQuoted ('"' :: rest) (readString ('"' :: rest) fuel rest) := by
  refine .behind ['"'] rfl ((readString_gets _ fuel rest).imp fun text htext => ?_)
  obtain ⟨body, hbody, rfl⟩ := htext
  exact ⟨body, hbody, rfl⟩

/-! ## Numbers -/

theorem isDigits_of_digitRun {cs digits rest : List Char} (h : digitRun Char.isDigit cs = (digits, rest))
    (hne : digits ≠ []) : IsDigits digits ∧ cs = digits ++ rest := by
  obtain ⟨rfl, rfl⟩ := Prod.mk.inj h
  exact ⟨⟨hne, List.all_eq_true.1 List.all_takeWhile⟩, List.takeWhile_append_dropWhile.symm⟩

theorem IsWhole.isDigits {whole : List Char} (h : IsWhole whole) : IsDigits whole := by
  cases h with
  | zero => exact ⟨by simp, List.forall_mem_singleton.2 rfl⟩
  | digits _ hdigits => exact hdigits

theorem exists_minus (cs : List Char) : ∃ sign ∈ [[], ['-']], cs = sign ++ (minusPart cs).2 := by
  unfold minusPart
  split
  · exact ⟨['-'], by simp, rfl⟩
  · exact ⟨[], by simp, rfl⟩

theorem exists_sign (cs : List Char) : ∃ sign ∈ [[], ['+'], ['-']], cs = sign ++ (signPart cs).2 := by
  unfold signPart
  split
  · exact ⟨['-'], by simp, rfl⟩
  · exact ⟨['+'], by simp, rfl⟩
  · exact ⟨[], by simp, rfl⟩

theorem isWhole_of_wholePart? {cs whole rest : List Char} (h : wholePart? cs = some (whole, rest)) :
    IsWhole whole ∧ cs = whole ++ rest := by
  unfold wholePart? at h
  split at h
  · obtain ⟨rfl, rfl⟩ := Prod.mk.inj (Option.some.inj h)
    exact ⟨.zero, rfl⟩
  · rename_i hzero
    split at h
    · cases h
    · rename_i hne
      have hrun := Option.some.inj h
      obtain ⟨hdigits, rfl⟩ := isDigits_of_digitRun hrun fun hnil => hne _ (hnil ▸ hrun)
      cases whole with
      | nil => exact absurd rfl hdigits.ne_nil
      | cons c digits => exact ⟨.digits (fun hc => hzero _ (by rw [hc]; rfl)) hdigits, rfl⟩

theorem exists_fraction (cs : List Char) : ∃ text, IsFraction text ∧
    cs = text ++ ((fractionPart? Char.isDigit cs).getD ([], cs)).2 ∧
      (((fractionPart? Char.isDigit cs).getD ([], cs)).1.isEmpty = true → text = []) := by
  unfold fractionPart?
  split
  · rename_i rest
    split
    · exact ⟨[], .absent, rfl, fun _ => rfl⟩
    · rename_i hne
      rcases hrun : digitRun Char.isDigit rest with ⟨digits, behind⟩
      obtain ⟨hdigits, rfl⟩ := isDigits_of_digitRun hrun fun hnil => hne _ (hnil ▸ hrun)
      exact ⟨'.' :: digits, .point hdigits, rfl, fun hempty => absurd (List.isEmpty_iff.1 hempty) hdigits.ne_nil⟩
  · exact ⟨[], .absent, rfl, fun _ => rfl⟩

theorem isExponent_of_exponentPart? {cs rest : List Char} {exponent : Int}
    (h : exponentPart? Char.isDigit cs = some (exponent, rest)) : ∃ text, IsExponent text ∧ cs = text ++ rest := by
  unfold exponentPart? at h
  split at h
  · rename_i e body
    split at h
    · rename_i he
      dsimp only at h
      split at h
      · cases h
      · rename_i digits behind hne hrun
        obtain ⟨-, rfl⟩ := Prod.mk.inj (Option.some.inj h)
        obtain ⟨hdigits, hbody⟩ := isDigits_of_digitRun hrun hne
        obtain ⟨sign, hsign, hsplit⟩ := exists_sign body
        refine ⟨e :: (sign ++ digits), .mark he hsign hdigits, ?_⟩
        rw [hsplit, hbody, List.cons_append, List.append_assoc]
    · cases h
  · cases h

theorem readNumber_gets (cs : List Char) : Gets IsScalar cs (readNumber cs) := by
  obtain ⟨sign, hsign, hcs⟩ := exists_minus cs
  unfold readNumber
  dsimp only
  split
  · exact .complaint
  · rename_i whole rest hwhole
    obtain ⟨hwhole, hbody⟩ := isWhole_of_wholePart? hwhole
    obtain ⟨fraction, hfraction, hrest, hempty⟩ := exists_fraction rest
    split
    · rename_i exponent behind hexponent
      obtain ⟨exponent, hexponent, hbehind⟩ := isExponent_of_exponentPart? hexponent
      refine .ok _ ?_ (.number hsign hwhole hfraction hexponent)
      rw [hcs, hbody, hrest, hbehind]
      simp only [List.append_assoc]
    split
    · refine .ok _ ?_ (.number hsign hwhole hfraction .absent)
      rw [hcs, hbody, List.append_nil, List.append_assoc, List.append_assoc, ← hrest]
    · rename_i hnone
      rw [Bool.not_eq_true, Bool.not_eq_false'] at hnone
      split
      · rename_i hlong
        refine .tooManyDigits ⟨?_, hwhole.isDigits.digit, hlong⟩
        rw [hcs, hbody]
        exact ⟨sign, rest, by simp⟩
      · refine .ok _ ?_ (.number hsign hwhole .absent .absent)
        rw [hcs, hbody, List.append_nil, List.append_nil, List.append_assoc]

theorem words_fst : words.map Prod.fst =
    ["null", "true", "false", "NaN", "Infinity", "-Infinity"].map String.toList := rfl

theorem readScalar_gets (cs : List Char) : Gets IsScalar cs (readScalar cs) := by
  unfold readScalar
  split
  · rename_i found hfound
    obtain ⟨w, hw, hprefix⟩ := List.exists_of_findSome?_eq_some hfound
    obtain ⟨rest, hrest, rfl⟩ := Option.map_eq_some_iff.1 hprefix
    refine .ok _ (List.isPrefixOf?_eq_some_iff_append_eq.1 hrest).symm (.word ?_)
    rw [← words_fst]
    exact List.mem_map_of_mem hw
  · exact readNumber_gets cs

/-! ## Containers -/

def readRow {α : Type} (part : Reader α) (closing : Char) (missing : Complaint) : (fuel : Nat) → Reader (List α)
  | 0, cs => .error (.complaint missing cs)
  | fuel + 1, cs => do
    let (a, rest) ← part cs
    match skipBlank rest with
    | ',' :: rest =>
      let (as, rest) ← readRow part closing missing fuel (skipBlank rest)
      return (a :: as, rest)
    | c :: rest => if c = closing then return ([a], rest) else .error (.complaint .commaExpected (c :: rest))
    | [] => .error (.complaint .commaExpected [])

theorem readItems_eq (item : Reader Value) : ∀ fuel, readItems item fuel = readRow item ']' .valueExpected fuel
  | 0 => rfl
  | fuel + 1 => by
    funext cs
    rw [readItems, readRow, readItems_eq item fuel]
    congr 1
    funext r
    obtain ⟨v, rest⟩ := r
    rcases hskip : skipBlank rest with _ | ⟨c, more⟩
    · simp [hskip]
    · by_cases hclosing : c = ']'
      · simp [hskip, hclosing]
      by_cases hcomma : c = ','
      · simp [hskip, hcomma]
      · simp [hskip, hclosing, hcomma]

theorem readEntries_eq (entry : Reader (String × Value)) : ∀ fuel,
    readEntries entry fuel = readRow entry '\x7d' .nameExpected fuel
  | 0 => rfl
  | fuel + 1 => by
    funext cs
    rw [readEntries, readRow, readEntries_eq entry fuel]
    congr 1
    funext r
    obtain ⟨e, rest⟩ := r
    rcases hskip : skipBlank rest with _ | ⟨c, more⟩
    · simp [hskip]
    · by_cases hclosing : c = '\x7d'
      · simp [hskip, hclosing]
      by_cases hcomma : c = ','
      · simp [hskip, hcomma]
      · simp [hskip, hclosing, hcomma]

section

variable {shape : List Char → Prop}

def IsClosedRow (member : List Char → Prop) (closing : Char) (cs : List Char) : Prop :=
  ∃ row, IsRow member row ∧ cs = row ++ [closing]

theorem isClosedRow_last {text blank : List Char} {closing : Char} (htext : shape text) (hblank : IsBlank blank) :
    IsClosedRow shape closing (text ++ blank ++ [closing]) :=
  ⟨text ++ blank, @IsRow.last _ [] _ _ isBlank_nil htext hblank, rfl⟩

theorem IsClosedRow.more {text blank blank' row : List Char} {closing : Char} (htext : shape text) (hblank : IsBlank blank)
    (hblank' : IsBlank blank') (hrow : IsClosedRow shape closing row) :
    IsClosedRow shape closing (text ++ blank ++ ',' :: blank' ++ row) := by
  obtain ⟨row, hrow, rfl⟩ := hrow
  refine ⟨text ++ blank ++ ',' :: (blank' ++ row), ?_, by simp⟩
  exact @IsRow.more _ [] _ _ _ isBlank_nil htext hblank (hrow.blank hblank')

theorem readRow_gets {α : Type} {part : Reader α} (hpart : ∀ cs, Gets shape cs (part cs)) (closing : Char)
    (missing : Complaint) : ∀ (fuel : Nat) (cs : List Char),
      Gets (IsClosedRow shape closing) cs (readRow part closing missing fuel cs)
  | 0, _ => .complaint
  | fuel + 1, cs => by
    rw [readRow]
    refine (hpart cs).bind fun a text rest hcs htext => ?_
    dsimp only
    split
    · rename_i behind hskip
      obtain ⟨blank, blank', hblank, hblank', hbehind, hrest⟩ := exists_blanks hskip
      have hsplit : cs = text ++ blank ++ ',' :: blank' ++ skipBlank behind := by
        rw [hcs, hrest, List.append_assoc, List.cons_append, ← hbehind, List.append_assoc]
      have hmore : Gets (IsClosedRow shape closing) cs (readRow part closing missing fuel (skipBlank behind)) :=
        .behind _ hsplit ((readRow_gets hpart closing missing fuel _).imp fun _ => .more htext hblank hblank')
      exact hmore.map _
    · rename_i c behind _ hskip
      obtain ⟨blank, _, hblank, -, -, hrest⟩ := exists_blanks hskip
      split
      · rename_i hc
        subst hc
        refine .ok _ ?_ (isClosedRow_last htext hblank)
        rw [hcs, hrest]
        simp
      · exact .complaint
    · exact .complaint

theorem readEntry_gets {item : Reader Value} (hitem : ∀ cs, Gets shape cs (item cs)) (fuel : Nat) (cs : List Char) :
    Gets (IsEntry shape) cs (readEntry fuel item cs) := by
  unfold readEntry
  split
  · rename_i body
    refine (readString_gets_quoted fuel body).bind fun s text rest hcs htext => ?_
    obtain ⟨name, hname, rfl⟩ := htext
    dsimp only
    split
    · rename_i behind hskip
      obtain ⟨blank, blank', hblank, hblank', hbehind, hrest⟩ := exists_blanks hskip
      have hsplit : '"' :: body = '"' :: (name ++ '"' :: (blank ++ ':' :: blank')) ++ skipBlank behind := by
        rw [hcs, hrest]
        conv_lhs => rw [hbehind]
        simp
      have hvalue : Gets (IsEntry shape) ('"' :: body) (item (skipBlank behind)) := by
        refine .behind _ hsplit ((hitem _).imp fun text htext => ?_)
        have hentry := IsEntry.mk hname hblank hblank' htext
        simpa using hentry
      exact hvalue.map _
    · exact .complaint
  · exact .complaint

end

/-! ## Values -/

theorem readWith_string_gets (fuel : Nat) (rest : List Char) : Gets IsScalar ('"' :: rest)
    (readString ('"' :: rest) fuel rest >>= fun s => .ok (Value.str (String.ofList s.1), s.2)) := by
  have hstring : Gets IsScalar ('"' :: rest) (readString ('"' :: rest) fuel rest) := by
    refine (readString_gets_quoted fuel rest).imp fun text htext => ?_
    obtain ⟨body, hbody, rfl⟩ := htext
    exact .string hbody
  exact hstring.map fun s => Value.str (String.ofList s)

theorem readWith_none_gets (fuel : Nat) (cs : List Char) : Gets IsScalar cs (readWith fuel none cs) := by
  unfold readWith
  split
  · exact readWith_string_gets fuel _
  · exact .tooDeep
  · exact .tooDeep
  · exact readScalar_gets _

section

variable {shape whole : List Char → Prop} {opening closing : Char} {body : List Char}

theorem gets_nothing {α : Type} {a : α} {rest : List Char} (hskip : skipBlank body = closing :: rest)
    (hwhole : ∀ blank, IsBlank blank → whole (opening :: (blank ++ [closing]))) :
    Gets whole (opening :: body) (.ok (a, rest)) := by
  obtain ⟨blank, hblank, hbody⟩ := exists_blank body
  refine .ok _ ?_ (hwhole blank hblank)
  rw [hbody, hskip]
  simp

theorem gets_row {α : Type} {part : Reader α} (hpart : ∀ cs, Gets shape cs (part cs)) (missing : Complaint) (fuel : Nat)
    (hwhole : ∀ row, IsRow shape row → whole (opening :: (row ++ [closing]))) :
    Gets whole (opening :: body) (readRow part closing missing fuel (skipBlank body)) := by
  obtain ⟨blank, hblank, hbody⟩ := exists_blank body
  have hrow := readRow_gets hpart closing missing fuel (skipBlank body)
  refine .behind (opening :: blank) (by rw [List.cons_append, ← hbody]) (hrow.imp fun text htext => ?_)
  obtain ⟨row, hrow, rfl⟩ := htext
  have hcontainer := hwhole _ (hrow.blank hblank)
  simpa using hcontainer

end

theorem readWith_some_gets {item : Reader Value} {shape : List Char → Prop} (hitem : ∀ cs, Gets shape cs (item cs))
    (fuel : Nat) (cs : List Char) :
    Gets (fun text => IsScalar text ∨ IsContainer shape text) cs (readWith fuel (some item) cs) := by
  unfold readWith
  split
  · exact (readWith_string_gets fuel _).imp fun _ => .inl
  · split
    · rename_i h; cases h
    · rename_i hskip
      exact gets_nothing hskip fun _ hblank => .inr (.emptyArray hblank)
    · rename_i inner hinner _
      cases hinner
      rw [readItems_eq]
      refine Gets.map ?_ Value.list
      exact gets_row hitem .valueExpected fuel fun _ hrow => .inr (.array hrow)
  · split
    · rename_i h; cases h
    · rename_i hskip
      exact gets_nothing hskip fun _ hblank => .inr (.emptyObject hblank)
    · rename_i inner hinner _
      cases hinner
      rw [readEntries_eq]
      refine Gets.map ?_ fun es => Value.map (Value.mapOf es)
      exact gets_row (readEntry_gets hitem fuel) .nameExpected fuel fun _ hrow => .inr (.object hrow)
  · exact (readScalar_gets _).imp fun _ => .inl

theorem readValue_gets (fuel : Nat) : ∀ (depth : Nat) (cs : List Char), Gets (IsValue depth) cs (readValue fuel depth cs)
  | 0, cs => readWith_none_gets fuel cs
  | depth + 1, cs => readWith_some_gets (readValue_gets fuel depth) fuel cs

/-! ## Whole texts -/

/-- **What is read is a JSON text.** -/
theorem isText_of_readChars {cs : List Char} {v : Value} (h : readChars cs = .ok v) : IsText maxDepth cs := by
  unfold readChars at h
  split at h
  · cases h
  · obtain ⟨⟨v, rest⟩, hvalue, h⟩ := bind_eq_ok_iff.1 h
    obtain ⟨before, hbefore, hcs⟩ := exists_blank cs
    obtain ⟨behind, hbehind, hrest⟩ := exists_blank rest
    have hgets := readValue_gets cs.length maxDepth (skipBlank cs)
    rw [hvalue] at hgets
    cases hgets with
    | ok _ hsplit htext =>
      dsimp only at h
      split at h
      · rename_i hend
        rw [hcs, hsplit, hrest, hend, List.append_nil, ← List.append_assoc]
        exact .mk hbefore htext hbehind
      · cases h

/-- **An integer is too long only where so many digits stand in a row.** -/
theorem digits_of_tooManyDigits {cs : List Char} {count : Nat} (h : readChars cs = .error (.tooManyDigits count)) :
    ∃ digits, IsLongRun cs digits ∧ digits.length = count := by
  unfold readChars at h
  split at h
  · cases h
  · have hgets := readValue_gets cs.length maxDepth (skipBlank cs)
    cases hvalue : readValue cs.length maxDepth (skipBlank cs) with
    | error stop =>
      rw [hvalue] at h hgets
      obtain rfl := Except.error.inj h
      cases hgets with
      | tooManyDigits hrun => exact ⟨_, hrun.mono (suffix_skipBlank cs).isInfix, rfl⟩
    | ok result =>
      rw [hvalue, ok_bind] at h
      dsimp only at h
      split at h <;> cases h

end ListQuery.Json
