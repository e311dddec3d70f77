import ListQuery.Proofs.CanonicalReading
import ListQuery.Proofs.JsonGrammar
/-!
# Every JSON text is read

The other direction of the grammar: the reader refuses no text of it, unless an integer in it has too many digits or its
containers are too deep.  What a reader takes has to end where the grammar says, so it is followed by a delimiter, and a
pair of escapes that the reader makes one character of is two parts of a string in the grammar.  Main statement:
`readChars_of_isText`.
-/
namespace ListQuery.Json

/-- A call that takes a text up to a rest, or finds an integer too long, or finds containers too deep where they can be. -/
inductive Takes {α : Type} (deep : Prop) (rest : List Char) : Except Stop (α × List Char) → Prop
  | ok {a} : Takes deep rest (.ok (a, rest))
  | tooManyDigits {count} : Takes deep rest (.error (.tooManyDigits count))
  | tooDeep : deep → Takes deep rest (.error .tooDeep)

theorem Takes.bind {α β : Type} {deep : Prop} {rest rest' : List Char} {x : Except Stop (α × List Char)}
    {f : α × List Char → Except Stop (β × List Char)} (h : Takes deep rest x) (hf : ∀ a, Takes deep rest' (f (a, rest))) :
    Takes deep rest' (x >>= f) := by
  cases h with
  | ok => exact hf _
  | tooManyDigits => exact .tooManyDigits
  | tooDeep hdeep => exact .tooDeep hdeep

/-! ## Where a value ends -/

def delimiters : List Char := [' ', '\t', '\n', '\r', ',', ']', '\x7d']

def IsDelimited (rest : List Char) : Prop := ∀ c ∈ rest.head?, c ∈ delimiters

theorem isDelimited_cons {c : Char} (hc : c ∈ delimiters) (rest : List Char) : IsDelimited (c :: rest) :=
  fun _ hd => Option.some.inj hd ▸ hc

theorem isDelimited_blank_append {blank rest : List Char} (hblank : IsBlank blank) (hrest : IsDelimited rest) :
    IsDelimited (blank ++ rest) := by
  cases blank with
  | nil => exact hrest
  | cons c cs =>
    have hin : ∀ d ∈ [' ', '\t', '\n', '\r'], d ∈ delimiters := by simp [delimiters]
    exact isDelimited_cons (hin c (hblank c List.mem_cons_self)) _

theorem skipBlank_blank_append {blank : List Char} (hblank : IsBlank blank) (cs : List Char) :
    skipBlank (blank ++ cs) = skipBlank cs :=
  List.dropWhile_append_of_pos fun c hc => isJsonBlank_iff.2 (hblank c hc)

theorem skipBlank_upTo {blank : List Char} (hblank : IsBlank blank) {c : Char} (hc : isJsonBlank c = false)
    (cs : List Char) : skipBlank (blank ++ c :: cs) = c :: cs := by
  rw [skipBlank_blank_append hblank]
  exact List.dropWhile_cons_of_neg (Bool.eq_false_iff.1 hc)

/-! ## Strings -/

theorem hexDigit?_of_isHex {c : Char} (h : IsHex c) : ∃ n, hexDigit? c = some n := by
  unfold hexDigit?
  split
  · exact ⟨_, rfl⟩
  split
  · exact ⟨_, rfl⟩
  split
  · exact ⟨_, rfl⟩
  · rename_i hdigit hlower hupper
    rcases h with h | h | h
    · exact absurd h hdigit
    · exact absurd h hlower
    · exact absurd h hupper

theorem hexQuad?_of_isHex {quad : List Char} (hlength : quad.length = 4) (hhex : ∀ c ∈ quad, IsHex c) :
    ∃ n, ∀ rest, hexQuad? (quad ++ rest) = some (n, rest) := by
  match quad, hlength with
  | [a, b, c, d], _ =>
    simp only [List.forall_mem_cons] at hhex
    obtain ⟨ha, hb, hc, hd, -⟩ := hhex
    obtain ⟨i, hi⟩ := hexDigit?_of_isHex ha
    obtain ⟨j, hj⟩ := hexDigit?_of_isHex hb
    obtain ⟨k, hk⟩ := hexDigit?_of_isHex hc
    obtain ⟨l, hl⟩ := hexDigit?_of_isHex hd
    exact ⟨((i * 16 + j) * 16 + k) * 16 + l, fun rest => by simp [hexQuad?, hi, hj, hk, hl]⟩

theorem readCodePoint_single {cs rest : List Char} {n : Nat} (hquad : hexQuad? cs = some (n, rest)) (hrest : rest ≠ [])
    (h : ∀ more, rest ≠ '\\' :: 'u' :: more) : readCodePoint cs = .ok (charOf n, rest) := by
  unfold readCodePoint
  rw [hquad]
  cases rest with
  | nil => exact absurd rfl hrest
  | cons c cs =>
    dsimp only
    split
    · rename_i more _ heq
      exact absurd heq (h more)
    · rfl

theorem readCodePoint_double {cs more behind : List Char} {high low : Nat}
    (hquad : hexQuad? cs = some (high, '\\' :: 'u' :: more)) (hmore : (more.drop 4).isEmpty = false)
    (hlow : hexQuad? more = some (low, behind)) : readCodePoint cs = .ok (charOf high, '\\' :: 'u' :: more) ∨
      ∃ c, readCodePoint cs = .ok (c, behind) := by
  unfold readCodePoint
  rw [hquad]
  cases hhigh : isHighSurrogate high with
  | false => exact .inl (by simp [hhigh])
  | true =>
    cases hpair : isLowSurrogate low with
    | false => exact .inl (by simp [hhigh, hmore, hlow, hpair])
    | true => exact .inr ⟨_, by simp [hhigh, hmore, hlow, hpair]; rfl⟩

theorem exists_readCodePoint {quad body : List Char} (hlength : quad.length = 4) (hhex : ∀ c ∈ quad, IsHex c)
    (hbody : IsStringBody body) (rest : List Char) : ∃ c body', IsStringBody body' ∧ body'.length ≤ body.length ∧
      readCodePoint (quad ++ (body ++ '"' :: rest)) = .ok (c, body' ++ '"' :: rest) := by
  obtain ⟨high, hquad⟩ := hexQuad?_of_isHex hlength hhex
  have hsingle : (∀ more, body ++ '"' :: rest ≠ '\\' :: 'u' :: more) → ∃ c body', IsStringBody body' ∧
      body'.length ≤ body.length ∧ readCodePoint (quad ++ (body ++ '"' :: rest)) = .ok (c, body' ++ '"' :: rest) :=
    fun h => ⟨_, body, hbody, Nat.le_refl _, readCodePoint_single (hquad _) (by simp) h⟩
  cases hbody with
  | nil => exact hsingle (by simp)
  | verbatim _ hbackslash _ _ => exact hsingle fun more h => hbackslash (List.cons.inj h).1
  | escape hc _ =>
    refine hsingle fun more h => ?_
    rw [List.cons_append, List.cons_append, List.cons.injEq, List.cons.injEq] at h
    rw [h.2.1] at hc
    exact absurd hc (by decide)
  | @codePoint quad' body' hlength' hhex' hbody' =>
    -- the only part that may be read together with the first
    obtain ⟨low, hquad'⟩ := hexQuad?_of_isHex hlength' hhex'
    have hmore : ((quad' ++ (body' ++ '"' :: rest)).drop 4).isEmpty = false := by
      rw [← hlength', List.drop_left]
      simp
    rcases readCodePoint_double (hquad _) hmore (hquad' _) with hread | ⟨c, hread⟩
    · exact ⟨_, _, .codePoint hlength' hhex' hbody', Nat.le_refl _, by simpa using hread⟩
    · refine ⟨c, body', hbody', ?_, by simpa using hread⟩
      simp only [List.length_cons, List.length_append]
      omega

theorem exists_readString (opening rest : List Char) : ∀ (fuel : Nat) {body : List Char}, IsStringBody body →
    body.length < fuel → ∃ s, readString opening fuel (body ++ '"' :: rest) = .ok (s, rest)
  | 0, _, _, h => absurd h (Nat.not_lt_zero _)
  | fuel + 1, _, .nil, _ => ⟨[], by rw [List.nil_append, readString, if_pos rfl]⟩
  | fuel + 1, _, .verbatim hquote hbackslash hcontrol hbody, h => by
    obtain ⟨s, hs⟩ := exists_readString opening rest fuel hbody (Nat.lt_of_succ_lt_succ h)
    rw [List.cons_append, readString_verbatim hquote hbackslash (Nat.not_lt.2 hcontrol), hs]
    exact ⟨_, rfl⟩
  | fuel + 1, _, @IsStringBody.escape c body hc hbody, h => by
    obtain ⟨s, hs⟩ := exists_readString opening rest fuel hbody (by simp only [List.length_cons] at h; omega)
    have hescape : ∃ d, readEscape opening (c :: (body ++ '"' :: rest)) = .ok (d, body ++ '"' :: rest) := by
      simp only [List.mem_cons, List.not_mem_nil, or_false] at hc
      rcases hc with rfl | rfl | rfl | rfl | rfl | rfl | rfl | rfl <;> exact ⟨_, rfl⟩
    obtain ⟨d, hd⟩ := hescape
    rw [List.cons_append, List.cons_append, readString_escape hd, hs]
    exact ⟨_, rfl⟩
  | fuel + 1, _, @IsStringBody.codePoint quad body hlength hhex hbody, h => by
    obtain ⟨c, body', hbody', hle, hread⟩ := exists_readCodePoint hlength hhex hbody rest
    have hlt : body'.length < fuel := by
      simp only [List.length_cons, List.length_append] at h
      omega
    obtain ⟨s, hs⟩ := exists_readString opening rest fuel hbody' hlt
    have hescape : readEscape opening ('u' :: (quad ++ (body ++ '"' :: rest))) = .ok (c, body' ++ '"' :: rest) := hread
    rw [List.cons_append, List.cons_append, List.append_assoc, readString_escape hescape, hs]
    exact ⟨_, rfl⟩

/-! ## Numbers -/

def NotFirst (p : Char → Bool) (cs : List Char) : Prop := ∀ c ∈ cs.head?, p c = false

theorem notFirst_cons {p : Char → Bool} {c : Char} (hc : p c = false) (cs : List Char) : NotFirst p (c :: cs) :=
  fun _ hd => Option.some.inj hd ▸ hc

theorem IsDelimited.notFirst {rest : List Char} (h : IsDelimited rest) {p : Char → Bool}
    (hp : delimiters.all (fun c => !p c) = true) : NotFirst p rest := by
  intro c hc
  have hnone := List.all_eq_true.1 hp c (h c hc)
  rwa [Bool.not_eq_true'] at hnone

theorem notFirst_exponent {p : Char → Bool} {exponent rest : List Char} (h : IsExponent exponent)
    (hp : p 'e' = false ∧ p 'E' = false) (hrest : NotFirst p rest) : NotFirst p (exponent ++ rest) := by
  cases h with
  | absent => exact hrest
  | mark he =>
    rcases he with rfl | rfl
    · exact notFirst_cons hp.1 _
    · exact notFirst_cons hp.2 _

theorem notFirst_fraction {p : Char → Bool} {fraction rest : List Char} (h : IsFraction fraction) (hp : p '.' = false)
    (hrest : NotFirst p rest) : NotFirst p (fraction ++ rest) := by
  cases h with
  | absent => exact hrest
  | point => exact notFirst_cons hp _

theorem wholePart?_of_isWhole {whole rest : List Char} (h : IsWhole whole) (hrest : NotFirst Char.isDigit rest) :
    wholePart? (whole ++ rest) = some (whole, rest) := by
  cases h with
  | zero => rfl
  | @digits c cs hzero hdigits =>
    have hrun : digitRun Char.isDigit (c :: cs ++ rest) = (c :: cs, rest) := digitRun_append hdigits.digit hrest
    unfold wholePart?
    split
    · rename_i heq
      exact absurd (List.cons.inj heq).1 hzero
    · rw [hrun]

theorem fractionPart?_of_isFraction {fraction rest : List Char} (h : IsFraction fraction)
    (hdigit : NotFirst Char.isDigit rest) (hpoint : NotFirst (· == '.') rest) : ∃ digits,
      (fractionPart? Char.isDigit (fraction ++ rest)).getD ([], fraction ++ rest) = (digits, rest) ∧
        (digits = [] → fraction = []) := by
  cases h with
  | absent =>
    refine ⟨[], ?_, fun _ => rfl⟩
    rw [List.nil_append]
    unfold fractionPart?
    split
    · exact absurd (hpoint '.' rfl) (by decide)
    · rfl
  | @point digits hdigits =>
    have hrun : digitRun Char.isDigit (digits ++ rest) = (digits, rest) := digitRun_append hdigits.digit hdigit
    refine ⟨digits, ?_, fun h => absurd h hdigits.ne_nil⟩
    rw [List.cons_append, fractionPart?]
    split
    · rename_i hempty
      rw [hrun] at hempty
      exact absurd (Prod.mk.inj hempty).1 hdigits.ne_nil
    · rw [hrun, Option.getD_some]

theorem IsDigits.append_ne_cons {digits : List Char} (h : IsDigits digits) {c : Char} (hc : c.isDigit = false)
    (rest more : List Char) : digits ++ rest ≠ c :: more := by
  intro heq
  cases digits with
  | nil => exact absurd rfl h.ne_nil
  | cons d ds =>
    have hd := h.digit d List.mem_cons_self
    rw [(List.cons.inj heq).1, hc] at hd
    cases hd

theorem signPart_of_isDigits {digits : List Char} (h : IsDigits digits) (rest : List Char) :
    (signPart (digits ++ rest)).2 = digits ++ rest := by
  unfold signPart
  split
  · rename_i heq
    exact absurd heq (h.append_ne_cons rfl rest _)
  · rename_i heq
    exact absurd heq (h.append_ne_cons rfl rest _)
  · rfl

theorem exponentPart?_of_isExponent {exponent rest : List Char} (h : IsExponent exponent) (hrest : IsDelimited rest) :
    (exponent = [] ∧ exponentPart? Char.isDigit (exponent ++ rest) = none) ∨
      ∃ n, exponentPart? Char.isDigit (exponent ++ rest) = some (n, rest) := by
  cases h with
  | absent =>
    refine .inl ⟨rfl, ?_⟩
    cases rest with
    | nil => rfl
    | cons c cs =>
      have hmark : ¬(c = 'e' ∨ c = 'E') := by
        have hnone : ∀ d ∈ delimiters, ¬(d = 'e' ∨ d = 'E') := by simp [delimiters]
        exact hnone c (hrest c rfl)
      rw [List.nil_append, exponentPart?, if_neg hmark]
  | @mark e sign digits he hsign hdigits =>
    have hrun : digitRun Char.isDigit (digits ++ rest) = (digits, rest) :=
      digitRun_append hdigits.digit (hrest.notFirst rfl)
    have hbody : (signPart (sign ++ (digits ++ rest))).2 = digits ++ rest := by
      simp only [List.mem_cons, List.not_mem_nil, or_false] at hsign
      rcases hsign with rfl | rfl | rfl
      · exact signPart_of_isDigits hdigits rest
      · rfl
      · rfl
    right
    rw [List.cons_append, List.append_assoc, exponentPart?, if_pos he]
    dsimp only
    rw [hbody, hrun]
    split
    · rename_i hempty
      exact absurd (Prod.mk.inj hempty).1 hdigits.ne_nil
    · rename_i heq
      obtain ⟨rfl, rfl⟩ := Prod.mk.inj heq
      exact ⟨_, rfl⟩

theorem minusPart_of_isWhole {sign whole rest : List Char} (hsign : sign ∈ [[], ['-']]) (h : IsWhole whole) :
    (minusPart (sign ++ (whole ++ rest))).2 = whole ++ rest := by
  simp only [List.mem_cons, List.not_mem_nil, or_false] at hsign
  rcases hsign with rfl | rfl
  · unfold minusPart
    split
    · rename_i heq
      exact absurd heq (h.isDigits.append_ne_cons rfl rest _)
    · rfl
  · rfl

theorem readNumber_takes {deep : Prop} {sign whole fraction exponent rest : List Char} (hsign : sign ∈ [[], ['-']])
    (hwhole : IsWhole whole) (hfraction : IsFraction fraction) (hexponent : IsExponent exponent) (hrest : IsDelimited rest) :
    Takes deep rest (readNumber (sign ++ (whole ++ (fraction ++ (exponent ++ rest))))) := by
  have hdigit := notFirst_exponent (p := Char.isDigit) hexponent (by decide) (hrest.notFirst rfl)
  have hpoint := notFirst_exponent (p := (· == '.')) hexponent (by decide) (hrest.notFirst rfl)
  obtain ⟨digits, hdigits, hempty⟩ := fractionPart?_of_isFraction hfraction hdigit hpoint
  unfold readNumber
  dsimp only
  rw [minusPart_of_isWhole hsign hwhole, wholePart?_of_isWhole hwhole (notFirst_fraction hfraction (by decide) hdigit)]
  dsimp only
  rw [hdigits]
  dsimp only
  rcases exponentPart?_of_isExponent hexponent hrest with ⟨rfl, hnone⟩ | ⟨n, hsome⟩
  · rw [hnone]
    dsimp only
    split
    · exact .ok
    · rename_i hno
      rw [Bool.not_eq_true, Bool.not_eq_false', List.isEmpty_iff] at hno
      obtain rfl := hempty hno
      split
      · exact .tooManyDigits
      · exact .ok
  · rw [hsome]
    exact .ok

/-! ## Parts of a text -/

/-- A reader that takes the parts of a shape which are short enough, in front of a delimiter. -/
structure Accepts {α : Type} (reader : Reader α) (deep : Prop) (bound : Nat) (shape : List Char → Prop) : Prop where
  first : ∀ {text}, shape text → ∃ c cs, text = c :: cs ∧ c ∉ neverFirst
  takes : ∀ {text rest}, shape text → text.length ≤ bound → IsDelimited rest → Takes deep rest (reader (text ++ rest))

theorem Accepts.skipBlank {α : Type} {reader : Reader α} {deep : Prop} {bound : Nat} {shape : List Char → Prop}
    (h : Accepts reader deep bound shape) {text : List Char} (htext : shape text) (rest : List Char) :
    skipBlank (text ++ rest) = text ++ rest := by
  obtain ⟨c, cs, rfl, hc⟩ := h.first htext
  exact skipBlank_of_first hc (cs ++ rest)

def neverPlain : List Char := neverFirst ++ ['"', '[', '\x7b']

theorem exists_first_of_word {word : List Char}
    (h : word ∈ ["null", "true", "false", "NaN", "Infinity", "-Infinity"].map String.toList) :
    ∃ c cs, word = c :: cs ∧ c ∉ neverPlain := by
  simp only [List.map_cons, List.map_nil, List.mem_cons, List.not_mem_nil, or_false] at h
  rcases h with rfl | rfl | rfl | rfl | rfl | rfl <;> exact ⟨_, _, rfl, by decide⟩

theorem exists_first_of_number {sign whole : List Char} (hsign : sign ∈ [[], ['-']]) (hwhole : IsWhole whole)
    (rest : List Char) : ∃ c cs, sign ++ (whole ++ rest) = c :: cs ∧ c ∉ neverPlain := by
  simp only [List.mem_cons, List.not_mem_nil, or_false] at hsign
  rcases hsign with rfl | rfl
  · cases whole with
    | nil => exact absurd rfl hwhole.isDigits.ne_nil
    | cons c cs =>
      refine ⟨c, cs ++ rest, rfl, fun hmem => ?_⟩
      have hnone : neverPlain.all (fun d => !d.isDigit) = true := rfl
      have hc := List.all_eq_true.1 hnone c hmem
      rw [hwhole.isDigits.digit c List.mem_cons_self] at hc
      cases hc
  · exact ⟨'-', _, rfl, by decide⟩

theorem exists_first_of_isScalar {text : List Char} (h : IsScalar text) : ∃ c cs, text = c :: cs ∧ c ∉ neverFirst := by
  cases h with
  | word hword =>
    obtain ⟨c, cs, hcs, hc⟩ := exists_first_of_word hword
    exact ⟨c, cs, hcs, fun h => hc (List.mem_append_left _ h)⟩
  | number hsign hwhole =>
    obtain ⟨c, cs, hcs, hc⟩ := exists_first_of_number hsign hwhole _
    exact ⟨c, cs, by rw [List.append_assoc, List.append_assoc, hcs], fun h => hc (List.mem_append_left _ h)⟩
  | string => exact ⟨'"', _, rfl, by decide⟩

theorem readWith_plain (fuel : Nat) (inner : Option (Reader Value)) {cs : List Char}
    (h : ∃ c more, cs = c :: more ∧ c ∉ neverPlain) : readWith fuel inner cs = readScalar cs := by
  obtain ⟨c, more, rfl, hc⟩ := h
  exact readWith_scalar fuel inner (fun hmem => hc (List.mem_append_right _ hmem)) more

theorem readScalar_word {word : List Char}
    (h : word ∈ ["null", "true", "false", "NaN", "Infinity", "-Infinity"].map String.toList) (rest : List Char) :
    ∃ v, readScalar (word ++ rest) = .ok (v, rest) := by
  simp only [List.map_cons, List.map_nil, List.mem_cons, List.not_mem_nil, or_false] at h
  rcases h with rfl | rfl | rfl | rfl | rfl | rfl <;> exact ⟨_, rfl⟩

theorem readScalar_of_isWhole {sign whole : List Char} (hsign : sign ∈ [[], ['-']]) (hwhole : IsWhole whole)
    (rest : List Char) : readScalar (sign ++ (whole ++ rest)) = readNumber (sign ++ (whole ++ rest)) := by
  have hword : (words.findSome? fun w => (w.1.isPrefixOf? (sign ++ (whole ++ rest))).map fun rest => (w.2, rest)) =
      none := by
    cases whole with
    | nil => exact absurd rfl hwhole.isDigits.ne_nil
    | cons c cs =>
      have hc := hwhole.isDigits.digit c List.mem_cons_self
      simp only [List.mem_cons, List.not_mem_nil, or_false] at hsign
      rcases hsign with rfl | rfl
      · exact (words_of_isDigit hc _).1
      · exact (words_of_isDigit hc _).2
  rw [readScalar, hword]

theorem readWith_takes_scalar {deep : Prop} {fuel : Nat} (inner : Option (Reader Value)) {text rest : List Char}
    (h : IsScalar text) (hfuel : text.length ≤ fuel) (hrest : IsDelimited rest) :
    Takes deep rest (readWith fuel inner (text ++ rest)) := by
  cases h with
  | word hword =>
    obtain ⟨c, cs, hcs, hc⟩ := exists_first_of_word hword
    obtain ⟨v, hv⟩ := readScalar_word hword rest
    rw [readWith_plain fuel inner ⟨c, cs ++ rest, by rw [hcs]; rfl, hc⟩, hv]
    exact .ok
  | number hsign hwhole hfraction hexponent =>
    simp only [List.append_assoc]
    rw [readWith_plain fuel inner (exists_first_of_number hsign hwhole _), readScalar_of_isWhole hsign hwhole]
    exact readNumber_takes hsign hwhole hfraction hexponent hrest
  | @string body hbody =>
    simp only [List.length_cons, List.length_append] at hfuel
    simp only [List.cons_append, List.append_assoc, List.nil_append]
    obtain ⟨s, hs⟩ := exists_readString ('"' :: (body ++ '"' :: rest)) rest fuel hbody (by omega)
    rw [readWith, hs]
    exact .ok

/-! ## Containers -/

section

variable {deep : Prop} {shape : List Char → Prop} {fuel bound : Nat}

theorem IsRow.skipBlank_ne_cons {α : Type} {reader : Reader α} (h : Accepts reader deep bound shape) {row : List Char}
    (hrow : IsRow shape row) {closing : Char} (hclosing : closing ∈ neverFirst) (rest more : List Char) :
    skipBlank (row ++ rest) ≠ closing :: more := by
  have hfirst : ∀ {before text : List Char}, IsBlank before → shape text → ∀ rest,
      skipBlank (before ++ (text ++ rest)) ≠ closing :: more := by
    intro before text hbefore htext rest heq
    obtain ⟨c, cs, hcs, hc⟩ := h.first htext
    rw [skipBlank_blank_append hbefore, h.skipBlank htext, hcs] at heq
    rw [(List.cons.inj heq).1] at hc
    exact hc hclosing
  cases hrow with
  | last hbefore htext =>
    rw [List.append_assoc, List.append_assoc]
    exact hfirst hbefore htext _
  | more hbefore htext =>
    rw [List.append_assoc, List.append_assoc, List.append_assoc]
    exact hfirst hbefore htext _

theorem readRow_takes {α : Type} {part : Reader α} (h : Accepts part deep bound shape) (closing : Char)
    (hclosing : closing ∈ [']', '\x7d']) (missing : Complaint) (rest : List Char) {row : List Char}
    (hrow : IsRow shape row) : ∀ fuel, row.length < fuel → row.length ≤ bound →
      Takes deep rest (readRow part closing missing fuel (skipBlank (row ++ closing :: rest))) := by
  have hend : closing ∈ delimiters ∧ isJsonBlank closing = false ∧ closing ≠ ',' := by
    simp only [List.mem_cons, List.not_mem_nil, or_false] at hclosing
    rcases hclosing with rfl | rfl <;> decide
  induction hrow with
  | @last before text behind hbefore htext hbehind =>
    intro fuel hfuel hbound
    obtain ⟨fuel, rfl⟩ := Nat.exists_eq_succ_of_ne_zero (Nat.ne_zero_of_lt hfuel)
    have hdelimited := isDelimited_blank_append hbehind (isDelimited_cons hend.1 rest)
    simp only [List.length_append] at hbound
    simp only [List.append_assoc]
    rw [skipBlank_blank_append hbefore, h.skipBlank htext, readRow]
    refine (h.takes htext (by omega) hdelimited).bind fun a => ?_
    simp only [skipBlank_upTo hbehind hend.2.1]
    split
    · rename_i heq
      exact absurd (List.cons.inj heq).1 hend.2.2
    · rename_i heq
      obtain ⟨rfl, rfl⟩ := List.cons.inj heq
      rw [if_pos rfl]
      exact .ok
    · rename_i heq
      cases heq
  | @more before text behind row hbefore htext hbehind hrow ih =>
    intro fuel hfuel hbound
    obtain ⟨fuel, rfl⟩ := Nat.exists_eq_succ_of_ne_zero (Nat.ne_zero_of_lt hfuel)
    have hdelimited := isDelimited_blank_append hbehind (isDelimited_cons (c := ',') (by decide) (row ++ closing :: rest))
    simp only [List.length_append, List.length_cons] at hbound hfuel
    simp only [List.append_assoc, List.cons_append]
    rw [skipBlank_blank_append hbefore, h.skipBlank htext, readRow]
    refine (h.takes htext (by omega) hdelimited).bind fun a => ?_
    simp only [skipBlank_upTo hbehind (c := ',') rfl]
    exact (ih fuel (by omega) (by omega)).bind fun as => .ok

theorem readEntry_accepts {item : Reader Value} (h : Accepts item deep fuel shape) :
    Accepts (readEntry fuel item) deep fuel (IsEntry shape) where
  first hentry := by
    cases hentry with
    | mk => exact ⟨'"', _, rfl, by decide⟩
  takes := by
    intro text rest hentry hfuel hrest
    cases hentry with
    | @mk name before behind text hname hbefore hbehind htext =>
      simp only [List.length_cons, List.length_append] at hfuel
      simp only [List.cons_append, List.append_assoc]
      obtain ⟨s, hs⟩ := exists_readString
        ('"' :: (name ++ '"' :: (before ++ ':' :: (behind ++ (text ++ rest))))) (before ++ ':' :: (behind ++ (text ++ rest)))
        fuel hname (by omega)
      rw [readEntry, hs, ok_bind]
      dsimp only
      rw [skipBlank_upTo hbefore rfl]
      simp only [skipBlank_blank_append hbehind, h.skipBlank htext]
      exact (h.takes htext (by omega) hrest).bind fun v => .ok

theorem readWith_array {item : Reader Value} {cs : List Char} (hfirst : ∀ more, skipBlank cs ≠ ']' :: more) :
    readWith fuel (some item) ('[' :: cs) = (readItems item fuel (skipBlank cs) >>= fun r => .ok (.list r.1, r.2)) := by
  simp only [readWith]
  rfl

theorem readWith_object {item : Reader Value} {cs : List Char} (hfirst : ∀ more, skipBlank cs ≠ '\x7d' :: more) :
    readWith fuel (some item) ('\x7b' :: cs) =
      (readEntries (readEntry fuel item) fuel (skipBlank cs) >>= fun r => .ok (.map (Value.mapOf r.1), r.2)) := by
  simp only [readWith]
  rfl

theorem readWith_takes_container {item : Reader Value} (h : Accepts item deep fuel shape) {text rest : List Char}
    (htext : IsContainer shape text) (hfuel : text.length ≤ fuel) :
    Takes deep rest (readWith fuel (some item) (text ++ rest)) := by
  cases htext with
  | @emptyArray blank hblank =>
    have hskip : skipBlank (blank ++ ']' :: rest) = ']' :: rest := skipBlank_upTo hblank rfl rest
    simp only [List.cons_append, List.append_assoc, List.nil_append, readWith, hskip]
    exact .ok
  | @array row hrow =>
    simp only [List.length_cons, List.length_append] at hfuel
    simp only [List.cons_append, List.append_assoc, List.nil_append]
    rw [readWith_array (hrow.skipBlank_ne_cons h (by decide) _), readItems_eq]
    exact (readRow_takes h ']' (by decide) .valueExpected rest hrow fuel (by omega) (by omega)).bind fun vs => .ok
  | @emptyObject blank hblank =>
    have hskip : skipBlank (blank ++ '\x7d' :: rest) = '\x7d' :: rest := skipBlank_upTo hblank rfl rest
    simp only [List.cons_append, List.append_assoc, List.nil_append, readWith, hskip]
    exact .ok
  | @object row hrow =>
    have hentry := readEntry_accepts h
    simp only [List.length_cons, List.length_append] at hfuel
    simp only [List.cons_append, List.append_assoc, List.nil_append]
    rw [readWith_object (hrow.skipBlank_ne_cons hentry (by decide) _), readEntries_eq]
    exact (readRow_takes hentry '\x7d' (by decide) .nameExpected rest hrow fuel (by omega) (by omega)).bind fun es => .ok

theorem readWith_none_takes {text : List Char} (htext : IsContainer shape text) (hdeep : deep) (rest : List Char) :
    Takes deep rest (readWith fuel none (text ++ rest)) := by
  cases htext <;> exact .tooDeep hdeep

end

/-! ## Values and texts -/

theorem exists_first_of_isValue {depth : Nat} {text : List Char} (h : IsValue depth text) :
    ∃ c cs, text = c :: cs ∧ c ∉ neverFirst := by
  cases depth with
  | zero => exact exists_first_of_isScalar h
  | succ depth =>
    rcases h with h | h
    · exact exists_first_of_isScalar h
    · cases h with
      | emptyArray | array => exact ⟨'[', _, rfl, by decide⟩
      | emptyObject | object => exact ⟨'\x7b', _, rfl, by decide⟩

theorem readValue_accepts (fuel : Nat) :
    ∀ depth depth', Accepts (readValue fuel depth) (depth < depth') fuel (IsValue depth')
  | 0, 0 => ⟨exists_first_of_isValue, readWith_takes_scalar none⟩
  | depth + 1, 0 => ⟨exists_first_of_isValue, readWith_takes_scalar (some (readValue fuel depth))⟩
  | 0, depth' + 1 => by
    refine ⟨exists_first_of_isValue, ?_⟩
    rintro text rest (h | h) hfuel hrest
    · exact readWith_takes_scalar _ h hfuel hrest
    · exact readWith_none_takes h (Nat.succ_pos depth') rest
  | depth + 1, depth' + 1 => by
    have ih := readValue_accepts fuel depth depth'
    rw [← Nat.succ_lt_succ_iff] at ih
    refine ⟨exists_first_of_isValue, ?_⟩
    rintro text rest (h | h) hfuel hrest
    · exact readWith_takes_scalar _ h hfuel hrest
    · exact readWith_takes_container ih h hfuel

theorem IsText.ne_byteOrderMark {depth : Nat} {cs : List Char} (h : IsText depth cs) (more : List Char) :
    cs ≠ '\uFEFF' :: more := by
  cases h with
  | @mk before text behind hbefore htext _ =>
    intro heq
    cases before with
    | nil =>
      obtain ⟨c, _, rfl, hc⟩ := exists_first_of_isValue htext
      rw [(List.cons.inj heq).1] at hc
      exact absurd (by decide) hc
    | cons c _ =>
      have hblank := hbefore c List.mem_cons_self
      rw [(List.cons.inj heq).1] at hblank
      exact absurd hblank (by decide)

/-- **Every JSON text is read**, unless an integer in it has too many digits, or its containers are too deep. -/
theorem readChars_of_isText {depth : Nat} {cs : List Char} (h : IsText depth cs) : (∃ v, readChars cs = .ok v) ∨
    (∃ count, readChars cs = .error (.tooManyDigits count)) ∨ (maxDepth < depth ∧ readChars cs = .error .tooDeep) := by
  have hmark := h.ne_byteOrderMark
  obtain ⟨hbefore, htext, hbehind⟩ := h
  rename_i before text behind
  have haccepts := readValue_accepts (before ++ text ++ behind).length maxDepth depth
  have hskip : skipBlank (before ++ text ++ behind) = text ++ behind := by
    rw [List.append_assoc, skipBlank_blank_append hbefore, haccepts.skipBlank htext]
  have hend : skipBlank behind = [] := by
    have hall := skipBlank_blank_append hbehind []
    rwa [List.append_nil] at hall
  have hdelimited : IsDelimited behind := by
    have hall := @isDelimited_blank_append _ [] hbehind fun _ hc => nomatch hc
    rwa [List.append_nil] at hall
  have htakes := haccepts.takes htext (by simp only [List.length_append]; omega) hdelimited
  unfold readChars
  split
  · rename_i heq
    exact absurd heq (hmark _)
  · rw [hskip]
    -- from here on only what the call takes is of interest
    generalize readValue _ maxDepth (text ++ behind) = x at htakes ⊢
    cases htakes with
    | ok =>
      left
      rw [ok_bind]
      dsimp only
      rw [hend]
      exact ⟨_, rfl⟩
    | tooManyDigits => exact .inr (.inl ⟨_, error_bind _ _⟩)
    | tooDeep hdeep => exact .inr (.inr ⟨hdeep, error_bind _ _⟩)

theorem readChars_of_isWhole {digits : List Char} (h : IsWhole digits) (hlong : maxIntegerDigits < digits.length) :
    readChars digits = .error (.tooManyDigits digits.length) := by
  have hminus := @minusPart_of_isWhole [] _ [] (by simp) h
  have hwhole := @wholePart?_of_isWhole _ [] h fun _ hc => nomatch hc
  have hscalar := @readScalar_of_isWhole [] _ (by simp) h []
  have hplain := @exists_first_of_number [] _ (by simp) h []
  simp only [List.nil_append, List.append_nil] at hminus hwhole hscalar hplain
  have hnumber : readNumber digits = .error (.tooManyDigits digits.length) := by
    unfold readNumber
    dsimp only
    rw [hminus, hwhole]
    exact if_pos hlong
  obtain ⟨inner, hinner⟩ := readValue_eq digits.length maxDepth
  have hvalue := readWith_plain digits.length inner hplain
  rw [← hinner, hscalar, hnumber] at hvalue
  obtain ⟨c, cs, rfl, hc⟩ := hplain
  have hfirst : c ∉ neverFirst := fun hin => hc (List.mem_append_left _ hin)
  refine readChars_of_error (fun hmark => ?_) ?_
  · rw [hmark] at hfirst
    exact absurd (by decide) hfirst
  · rw [skipBlank_of_first hfirst]
    exact hvalue

end ListQuery.Json
