import ListQuery.Proofs.NumberTexts
import ListQuery.Schema.Raw
/-!
# The number that a text begins with

A number is read off the front of a text part by part, and no part is ever given back.  Each part is the longest of its kind
(`Munches`), and what the next part begins with is never a character of the part before it, so the whole is the longest
number that the text begins with.  Main statement: `Raw.decimal_longest`.
-/
namespace ListQuery

namespace Numeral

/-! ## The longest text of a language -/

/-- The longest text of a language among those that `cs` begins with. -/
structure IsLongest (language : List Char → Prop) (cs text : List Char) : Prop where
  mem : language text
  begins : text <+: cs
  longest : ∀ {other}, language other → other <+: cs → other <+: text

/-- What is read at the front of `cs`: nothing if it begins with no text of the language, and otherwise what the longest one
means. -/
inductive Munches {α : Type} (language : List Char → Prop) (means : List Char → α → Prop) (cs : List Char) : Option α → Prop
  | nothing : (∀ text, language text → ¬text <+: cs) → Munches language means cs none
  | taken {text a} : IsLongest language cs text → means text a → Munches language means cs (some a)

variable {cs : List Char}

/-! ## Signs -/

/-- No text of the language is empty or begins with a sign. -/
def Unsigned (language : List Char → Prop) : Prop :=
  ∀ {text}, language text → text ≠ [] ∧ ∀ c ∈ text.head?, c ≠ '+' ∧ c ≠ '-'

theorem exists_signPart (cs : List Char) :
    ∃ sign ∈ signs, cs = sign ++ (signPart cs).2 ∧ (signPart cs).1 = decide (sign = ['-']) := by
  unfold signPart
  split
  · exact ⟨['-'], by decide, rfl, rfl⟩
  · exact ⟨['+'], by decide, rfl, rfl⟩
  · exact ⟨[], by decide, rfl, rfl⟩

theorem Signed.of_begins {language : List Char → Prop} (hlanguage : Unsigned language) {text : List Char}
    (h : Signed language text) (hbegins : text <+: cs) :
    ∃ sign unsigned, text = sign ++ unsigned ∧ cs = sign ++ (signPart cs).2 ∧ language unsigned ∧
      unsigned <+: (signPart cs).2 := by
  cases h with
  | @mk sign unsigned hsign htext =>
    obtain ⟨rest, rfl⟩ := hbegins
    obtain ⟨hne, hhead⟩ := hlanguage htext
    have hpart : signPart (sign ++ (unsigned ++ rest)) = (decide (sign = ['-']), unsigned ++ rest) := by
      refine signPart_append hsign ?_
      cases unsigned with
      | nil => exact absurd rfl hne
      | cons => exact hhead
    rw [List.append_assoc, hpart]
    exact ⟨sign, unsigned, rfl, rfl, htext, List.prefix_append ..⟩

theorem Munches.signed {α β : Type} {language : List Char → Prop} (hlanguage : Unsigned language)
    {means : List Char → α → Prop} {means' : List Char → β → Prop} {out : Option α}
    (h : Munches language means (signPart cs).2 out) (f : α → β)
    (hmeans : ∀ sign ∈ signs, (signPart cs).1 = decide (sign = ['-']) → ∀ text a, language text → means text a →
      means' (sign ++ text) (f a)) :
    Munches (Signed language) means' cs (out.map f) := by
  cases h with
  | nothing hnone =>
    refine .nothing fun text htext hbegins => ?_
    obtain ⟨_, unsigned, -, -, hunsigned, hrest⟩ := htext.of_begins hlanguage hbegins
    exact hnone unsigned hunsigned hrest
  | @taken text a hlongest ha =>
    obtain ⟨sign, hsign, hcs, hnegative⟩ := exists_signPart cs
    refine .taken ⟨⟨hsign, hlongest.mem⟩, ?_, ?_⟩ (hmeans sign hsign hnegative text a hlongest.mem ha)
    · rw [hcs]
      exact (List.prefix_append_right_inj sign).2 hlongest.begins
    · intro other hother hbegins
      obtain ⟨sign', unsigned, rfl, hcs', hunsigned, hrest⟩ := hother.of_begins hlanguage hbegins
      have heq : sign' = sign := List.append_cancel_right (hcs'.symm.trans hcs)
      rw [heq]
      exact (List.prefix_append_right_inj sign).2 (hlongest.longest hunsigned hrest)

/-! ## Digits -/

theorem of_digitRun {digits rest : List Char} (h : digitRun isDecimalDigit cs = (digits, rest)) :
    AreDigits digits ∧ cs = digits ++ rest := by
  cases h
  exact ⟨fun c hc => List.mem_takeWhile_imp hc, List.takeWhile_append_dropWhile.symm⟩

theorem AreDigits.begins_digitRun {other digits rest : List Char} (hother : AreDigits other) (hbegins : other <+: cs)
    (h : digitRun isDecimalDigit cs = (digits, rest)) : other <+: digits := by
  cases h
  obtain ⟨more, rfl⟩ := hbegins
  rw [List.takeWhile_append_of_pos hother]
  exact List.prefix_append ..

theorem isDigitRow_unsigned : Unsigned IsDigitRow := fun h => ⟨h.2, h.head_not_sign⟩

theorem digitRun_munches {digits rest : List Char} (h : digitRun isDecimalDigit cs = (digits, rest)) :
    Munches IsDigitRow Eq cs (if digits = [] then none else some digits) := by
  obtain ⟨hdigits, hcs⟩ := of_digitRun h
  split
  · rename_i hnone
    refine .nothing fun text htext hbegins => htext.2 ?_
    have hpre := htext.1.begins_digitRun hbegins h
    rw [hnone] at hpre
    exact List.prefix_nil.1 hpre
  · rename_i hsome
    refine .taken ⟨⟨hdigits, hsome⟩, ?_, fun hother hbegins => hother.1.begins_digitRun hbegins h⟩ rfl
    rw [hcs]
    exact List.prefix_append ..

/-! ## The mantissa -/

theorem IsMantissa.of_begins {other whole tail : List Char} (h : IsMantissa other) (hbegins : other <+: cs)
    (hrun : digitRun isDecimalDigit cs = (whole, tail)) :
    (other <+: whole ∧ other ≠ []) ∨ ∃ fraction behind, tail = '.' :: behind ∧ fraction <+: behind ∧ AreDigits fraction ∧
      (whole ≠ [] ∨ fraction ≠ []) ∧ other = whole ++ '.' :: fraction := by
  cases h with
  | whole hdigits => exact .inl ⟨hdigits.1.begins_digitRun hbegins hrun, hdigits.2⟩
  | @pointed before fraction hbefore hfraction hne =>
    obtain ⟨more, rfl⟩ := hbegins
    have hpoint : ∀ c ∈ ('.' :: (fraction ++ more)).head?, isDecimalDigit c = false :=
      fun _ hc => Option.some.inj hc ▸ by decide
    rw [List.append_assoc, List.cons_append, digitRun_append hbefore hpoint] at hrun
    obtain ⟨rfl, rfl⟩ := Prod.mk.inj hrun
    exact .inr ⟨fraction, fraction ++ more, rfl, List.prefix_append .., hfraction, hne, rfl⟩

theorem mantissa?_point {whole behind fraction rest : List Char} (hrun : digitRun isDecimalDigit cs = (whole, '.' :: behind))
    (hbehind : digitRun isDecimalDigit behind = (fraction, rest)) :
    mantissa? cs = if whole = [] ∧ fraction = [] then none else some ((whole, fraction), rest) := by
  cases whole with
  | nil =>
    obtain rfl := (of_digitRun hrun).2
    rw [mantissa?, hrun]
    simp only [List.nil_append, fractionPart?, hbehind]
    cases fraction with
    | nil => rfl
    | cons => rfl
  | cons =>
    rw [mantissa?, hrun]
    simp only [hbehind]
    rfl

theorem mantissa?_no_point {whole tail : List Char} (hrun : digitRun isDecimalDigit cs = (whole, tail))
    (htail : ∀ behind, tail ≠ '.' :: behind) : mantissa? cs = if whole = [] then none else some ((whole, []), tail) := by
  rw [mantissa?, hrun]
  cases whole with
  | nil =>
    have hcs : cs = tail := (of_digitRun hrun).2
    have hnone : fractionPart? isDecimalDigit cs = none := by
      unfold fractionPart?
      split
      · exact absurd hcs.symm (htail _)
      · rfl
    simp only [hnone]
    rfl
  | cons =>
    split
    · rename_i heq
      cases heq
    · rename_i heq
      exact absurd (Prod.mk.inj heq).2 (htail _)
    · rename_i heq
      cases heq
      rfl

def MantissaMeans (cs text : List Char) (read : (List Char × List Char) × List Char) : Prop :=
  mantissaParts? text = some read.1 ∧ cs = text ++ read.2

theorem munches_point {whole behind fraction rest : List Char} (hrun : digitRun isDecimalDigit cs = (whole, '.' :: behind))
    (hbehind : digitRun isDecimalDigit behind = (fraction, rest)) : Munches IsMantissa (MantissaMeans cs) cs
      (if whole = [] ∧ fraction = [] then none else some ((whole, fraction), rest)) := by
  obtain ⟨hwhole, hcs⟩ := of_digitRun hrun
  obtain ⟨hfraction, hsplit⟩ := of_digitRun hbehind
  split
  · rename_i hnone
    refine .nothing fun text htext hbegins => ?_
    rcases htext.of_begins hbegins hrun with ⟨hpre, hne⟩ | ⟨more, _, heq, hpre, hmore, hne, -⟩
    · rw [hnone.1] at hpre
      exact hne (List.prefix_nil.1 hpre)
    · rw [← (List.cons.inj heq).2] at hpre
      have hnil := hmore.begins_digitRun hpre hbehind
      rw [hnone.2] at hnil
      exact hne.elim (fun h => h hnone.1) fun h => h (List.prefix_nil.1 hnil)
  · rename_i hsome
    rw [not_and_or] at hsome
    have hfront : cs = (whole ++ '.' :: fraction) ++ rest := by rw [hcs, hsplit, List.append_assoc, List.cons_append]
    refine .taken ⟨.pointed hwhole hfraction hsome, ?_, ?_⟩ ⟨mantissaParts?_pointed hwhole hfraction hsome, hfront⟩
    · rw [hfront]
      exact List.prefix_append ..
    · intro other hother hbegins
      rcases hother.of_begins hbegins hrun with ⟨hpre, -⟩ | ⟨more, _, heq, hpre, hmore, -, rfl⟩
      · exact hpre.trans (List.prefix_append ..)
      · rw [← (List.cons.inj heq).2] at hpre
        exact (List.prefix_append_right_inj whole).2 ((List.prefix_cons_inj '.').2 (hmore.begins_digitRun hpre hbehind))

theorem munches_no_point {whole tail : List Char} (hrun : digitRun isDecimalDigit cs = (whole, tail))
    (htail : ∀ behind, tail ≠ '.' :: behind) :
    Munches IsMantissa (MantissaMeans cs) cs (if whole = [] then none else some ((whole, []), tail)) := by
  obtain ⟨hwhole, hcs⟩ := of_digitRun hrun
  split
  · rename_i hnone
    refine .nothing fun text htext hbegins => ?_
    rcases htext.of_begins hbegins hrun with ⟨hpre, hne⟩ | ⟨_, behind, heq, -⟩
    · rw [hnone] at hpre
      exact hne (List.prefix_nil.1 hpre)
    · exact htail behind heq
  · rename_i hsome
    refine .taken ⟨.whole ⟨hwhole, hsome⟩, ?_, ?_⟩ ⟨mantissaParts?_whole ⟨hwhole, hsome⟩, hcs⟩
    · rw [hcs]
      exact List.prefix_append ..
    · intro other hother hbegins
      rcases hother.of_begins hbegins hrun with ⟨hpre, -⟩ | ⟨_, behind, heq, -⟩
      · exact hpre
      · exact absurd heq (htail behind)

theorem mantissa?_munches (cs : List Char) : Munches IsMantissa (MantissaMeans cs) cs (mantissa? cs) := by
  rcases hrun : digitRun isDecimalDigit cs with ⟨whole, tail⟩
  by_cases hpoint : ∃ behind, tail = '.' :: behind
  · obtain ⟨behind, rfl⟩ := hpoint
    rcases hbehind : digitRun isDecimalDigit behind with ⟨fraction, rest⟩
    rw [mantissa?_point hrun hbehind]
    exact munches_point hrun hbehind
  · rw [not_exists] at hpoint
    rw [mantissa?_no_point hrun hpoint]
    exact munches_no_point hrun hpoint

/-! ## The exponent -/

theorem exponentPart?_of_mark {e : Char} (he : e = 'e' ∨ e = 'E') {digits rest : List Char}
    (h : digitRun isDecimalDigit (signPart cs).2 = (digits, rest)) :
    (exponentPart? isDecimalDigit (e :: cs)).map Prod.fst =
      (if digits = [] then none else some digits).map fun digits => toInt ⟨(signPart cs).1, digits, [], 0⟩ := by
  rw [exponentPart?, if_pos he]
  rcases hsign : signPart cs with ⟨negative, body⟩
  rw [hsign] at h
  dsimp only at h ⊢
  rw [h]
  cases digits with
  | nil => rfl
  | cons => rfl

theorem Munches.marked {e : Char} (he : e = 'e' ∨ e = 'E') {means : List Char → Int → Prop} {out : Option Int}
    (h : Munches (Signed IsDigitRow) means cs out) : Munches IsExponent (fun text n => means text.tail n) (e :: cs) out := by
  cases h with
  | nothing hnone =>
    refine .nothing fun text htext hbegins => ?_
    cases htext with
    | mk _ hbehind => exact hnone _ hbehind (List.cons_prefix_cons.1 hbegins).2
  | taken hlongest hn =>
    refine .taken ⟨.mk he hlongest.mem, (List.prefix_cons_inj e).2 hlongest.begins, ?_⟩ hn
    intro other hother hbegins
    cases hother with
    | mk _ hbehind =>
      obtain ⟨rfl, hrest⟩ := List.cons_prefix_cons.1 hbegins
      exact (List.prefix_cons_inj _).2 (hlongest.longest hbehind hrest)

theorem exponentPart?_munches (cs : List Char) : Munches IsExponent (fun text n => signedDigits? text.tail = some n) cs
    ((exponentPart? isDecimalDigit cs).map Prod.fst) := by
  cases cs with
  | nil =>
    refine .nothing fun text htext hbegins => ?_
    cases htext with
    | mk => cases List.prefix_nil.1 hbegins
  | cons e cs =>
    by_cases he : e = 'e' ∨ e = 'E'
    · rcases hrun : digitRun isDecimalDigit (signPart cs).2 with ⟨digits, rest⟩
      have hsigned : Munches (Signed IsDigitRow) (fun text n => signedDigits? text = some n) cs
          ((if digits = [] then none else some digits).map fun digits => toInt ⟨(signPart cs).1, digits, [], 0⟩) := by
        refine (digitRun_munches hrun).signed isDigitRow_unsigned _ ?_
        rintro sign hsign hnegative text _ hdigits rfl
        rw [hnegative]
        exact signedDigits?_append hsign hdigits
      rw [exponentPart?_of_mark he hrun]
      exact hsigned.marked he
    · rw [exponentPart?, if_neg he]
      refine .nothing fun text htext hbegins => ?_
      cases htext with
      | mk hmark =>
        rw [(List.cons_prefix_cons.1 hbegins).1] at hmark
        exact he hmark

/-! ## The number -/

theorem IsMantissa.not_begins_infinity {mantissa : List Char} (h : IsMantissa mantissa) (hbegins : mantissa <+: cs) :
    ¬"Infinity".toList <+: cs := by
  intro hword
  have hletters : ∀ c ∈ "Infinity".toList, isDecimalDigit c = false ∧ c ≠ '.' := List.all_iff_forall_prop.1 (by decide)
  have hshared : ∃ c ∈ mantissa, c ∈ "Infinity".toList := by
    rcases List.prefix_or_prefix_of_prefix hbegins hword with hpre | hpre
    · obtain ⟨c, hc⟩ := List.exists_mem_of_ne_nil _ h.ne_nil
      exact ⟨c, hc, hpre.subset hc⟩
    · exact ⟨'I', hpre.subset (by decide), by decide⟩
  obtain ⟨c, hc, hletter⟩ := hshared
  exact h.notMem (hletters c hletter).1 (hletters c hletter).2 hc

theorem isMagnitude_unsigned : Unsigned IsMagnitude := by
  intro text h
  cases h with
  | plain h =>
    have hhead := h.head_not_sign []
    rw [List.append_nil] at hhead
    exact ⟨h.ne_nil, hhead⟩
  | scaled h => exact ⟨List.append_ne_nil_of_left_ne_nil h.ne_nil _, h.head_not_sign _⟩
  | infinity => exact ⟨by decide, fun _ hc => Option.some.inj hc ▸ by decide⟩

variable {mantissa rest : List Char}

theorem IsMagnitude.of_begins (hlongest : IsLongest IsMantissa cs mantissa) (hcs : cs = mantissa ++ rest) {other : List Char}
    (h : IsMagnitude other) (hbegins : other <+: cs) :
    other <+: mantissa ∨ ∃ exponent, IsExponent exponent ∧ exponent <+: rest ∧ other = mantissa ++ exponent := by
  cases h with
  | plain hother => exact .inl (hlongest.longest hother hbegins)
  | @scaled front exponent hfront hexponent =>
    obtain ⟨more, rfl⟩ := hlongest.longest hfront ((List.prefix_append _ _).trans hbegins)
    rw [hcs, List.append_assoc] at hbegins
    have hrest := (List.prefix_append_right_inj front).1 hbegins
    cases more with
    | nil =>
      rw [List.append_nil]
      exact .inr ⟨exponent, hexponent, hrest, rfl⟩
    | cons c more =>
      -- the mark of the exponent would stand in the mantissa
      cases hexponent with
      | mk he =>
        obtain ⟨rfl, -⟩ := List.cons_prefix_cons.1 hrest
        have hmark := hlongest.mem.not_mark _ (List.mem_append_right front List.mem_cons_self)
        rcases he with rfl | rfl
        · cases hmark
        · cases hmark
  | infinity => exact absurd hbegins (hlongest.mem.not_begins_infinity hlongest.begins)

theorem IsLongest.plain (hlongest : IsLongest IsMantissa cs mantissa) (hcs : cs = mantissa ++ rest)
    (hnone : ∀ text, IsExponent text → ¬text <+: rest) : IsLongest IsMagnitude cs mantissa := by
  refine ⟨.plain hlongest.mem, hlongest.begins, fun hother hbegins => ?_⟩
  rcases hother.of_begins hlongest hcs hbegins with hpre | ⟨exponent, hexponent, hpre, -⟩
  · exact hpre
  · exact absurd hpre (hnone exponent hexponent)

theorem IsLongest.scaled (hlongest : IsLongest IsMantissa cs mantissa) (hcs : cs = mantissa ++ rest) {exponent : List Char}
    (hexponent : IsLongest IsExponent rest exponent) : IsLongest IsMagnitude cs (mantissa ++ exponent) := by
  refine ⟨.scaled hlongest.mem hexponent.mem, ?_, fun hother hbegins => ?_⟩
  · rw [hcs]
    exact (List.prefix_append_right_inj mantissa).2 hexponent.begins
  · rcases hother.of_begins hlongest hcs hbegins with hpre | ⟨behind, hbehind, hpre, rfl⟩
    · exact hpre.trans (List.prefix_append ..)
    · exact (List.prefix_append_right_inj mantissa).2 (hexponent.longest hbehind hpre)

theorem IsLongest.infinity (hword : "Infinity".toList <+: cs) : IsLongest IsMagnitude cs "Infinity".toList := by
  refine ⟨.infinity, hword, fun {other} hother hbegins => ?_⟩
  cases hother with
  | plain h => exact absurd hword (h.not_begins_infinity hbegins)
  | scaled h => exact absurd hword (h.not_begins_infinity ((List.prefix_append _ _).trans hbegins))
  | infinity => exact List.prefix_refl _

def leadingMagnitude? (negative : Bool) (body : List Char) : Option Binary64 :=
  match mantissa? body with
  | some ((whole, fraction), rest) =>
    some (toBinary64 ⟨negative, whole, fraction, ((exponentPart? isDecimalDigit rest).map Prod.fst).getD 0⟩)
  | none => if "Infinity".toList.isPrefixOf body then some (.infinite negative) else none

theorem leadingNumber?_eq (cs : List Char) : leadingNumber? cs =
    leadingMagnitude? (signPart (cs.dropWhile isBlank)).1 (signPart (cs.dropWhile isBlank)).2 := rfl

theorem leadingMagnitude?_munches (negative : Bool) (body : List Char) :
    Munches IsMagnitude (fun text x => ∀ sign ∈ signs, negative = decide (sign = ['-']) →
      Binary64.ofText? (shortened (sign ++ text)) = some x) body (leadingMagnitude? negative body) := by
  unfold leadingMagnitude?
  have hmantissa := mantissa?_munches body
  generalize mantissa? body = out at hmantissa
  cases hmantissa with
  | @taken mantissa a hlongest hmeans =>
    obtain ⟨⟨whole, fraction⟩, rest⟩ := a
    obtain ⟨hparts, hbody⟩ := hmeans
    have hexponent := exponentPart?_munches rest
    dsimp only
    generalize (exponentPart? isDecimalDigit rest).map Prod.fst = out at hexponent
    cases hexponent with
    | nothing hnone =>
      refine .taken (hlongest.plain hbody hnone) fun sign hsign hnegative => ?_
      rw [hnegative]
      exact ofText?_plain hsign hlongest.mem hparts
    | @taken exponent n hscale hn =>
      refine .taken (hlongest.scaled hbody hscale) fun sign hsign hnegative => ?_
      rw [hnegative]
      exact ofText?_scaled hsign hlongest.mem hparts hscale.mem hn
  | nothing hnone =>
    dsimp only
    split
    · rename_i hword
      refine .taken (.infinity (List.isPrefixOf_iff_prefix.1 hword)) fun sign hsign hnegative => ?_
      rw [hnegative]
      exact ofText?_infinity hsign
    · rename_i hword
      refine .nothing fun text htext hbegins => ?_
      cases htext with
      | plain h => exact hnone _ h hbegins
      | scaled h => exact hnone _ h ((List.prefix_append _ _).trans hbegins)
      | infinity => exact hword (List.isPrefixOf_iff_prefix.2 hbegins)

theorem leadingNumber?_munches (cs : List Char) :
    Munches IsNumber (fun text x => Binary64.ofText? (shortened text) = some x) (cs.dropWhile isBlank)
      (leadingNumber? cs) := by
  have h : Munches IsNumber (fun text x => Binary64.ofText? (shortened text) = some x) (cs.dropWhile isBlank)
      ((leadingNumber? cs).map id) :=
    (leadingMagnitude?_munches _ _).signed isMagnitude_unsigned id
      fun sign hsign hnegative text x _ hx => hx sign hsign hnegative
  rwa [Option.map_id] at h

end Numeral

theorem Binary64.ofDecimal_ne_nan (negative : Bool) (digits : Nat) (exponent : Int) :
    ofDecimal negative digits exponent ≠ nan := by
  rw [ofDecimal_eq, nearestDecimal, ofRatio, ofRank]
  intro h
  split at h
  · cases h
  · cases h

open Numeral

theorem leadingNumber?_ne_nan (cs : List Char) : leadingNumber? cs ≠ some .nan := by
  rw [leadingNumber?_eq, leadingMagnitude?]
  intro h
  split at h
  · exact Binary64.ofDecimal_ne_nan _ _ _ (Option.some.inj h)
  · split at h
    · cases h
    · cases h

/-- **A decimal is read by maximal munch.**  Behind blanks, the text that is converted is the longest number that stands
there, with `Infinity` cut short to `inf`; the value is `nan` exactly if no number stands there; and every number of the
grammar is one that the reader of whole texts takes. -/
theorem Raw.decimal_longest (raw : String) :
    (∀ text, IsLongest IsNumber (raw.toList.dropWhile isBlank) text →
      ∃ x, Binary64.ofText? (shortened text) = some x ∧ decimal raw = .float x) ∧
    ((∃ text, IsNumber text ∧ text <+: raw.toList.dropWhile isBlank) →
      ∃ text, IsLongest IsNumber (raw.toList.dropWhile isBlank) text) ∧
    (decimal raw = .float .nan ↔ ¬∃ text, IsNumber text ∧ text <+: raw.toList.dropWhile isBlank) ∧
    ∀ text, IsNumber text → ∃ x, Binary64.ofText? (shortened text) = some x := by
  have hmunches := leadingNumber?_munches raw.toList
  have hnan := leadingNumber?_ne_nan raw.toList
  unfold decimal
  generalize leadingNumber? raw.toList = out at hmunches hnan
  cases hmunches with
  | nothing hnone =>
    have habsent : ¬∃ text, IsNumber text ∧ text <+: raw.toList.dropWhile isBlank :=
      fun ⟨text, htext, hbegins⟩ => hnone text htext hbegins
    exact ⟨fun text h => absurd h.begins (hnone text h.mem), fun h => absurd h habsent, iff_of_true rfl habsent,
      fun _ h => h.exists_ofText?⟩
  | @taken longest x hlongest hx =>
    refine ⟨fun text h => ?_, fun _ => ⟨longest, hlongest⟩, iff_of_false ?_ ?_, fun _ h => h.exists_ofText?⟩
    · have heq : text = longest :=
        (hlongest.longest h.mem h.begins).eq_of_length_le (h.longest hlongest.mem hlongest.begins).length_le
      exact ⟨x, heq ▸ hx, rfl⟩
    · exact fun h => hnan (congrArg some (Value.float.inj h))
    · exact fun h => h ⟨longest, hlongest.mem, hlongest.begins⟩

/-- A mark without digits behind it is left, and so is a letter behind the word for an infinity. -/
example : leadingNumber? "\u3000+.5e-x".toList = leadingNumber? "0.50".toList ∧
    leadingNumber? "-Infinityx".toList = some (.infinite true) := by decide +kernel

end ListQuery
