import ListQuery.Proofs.JsonGrammar
import ListQuery.Schema.Document
/-!
# Line ends in JSON texts

Line ends stand in a JSON text between its parts only, where any blanks may stand.  So it does not matter in which form a
file writes them: main statement `isText_unixLines_iff`.  `Respaced` puts any blanks for the line ends of a text, each on
its own, so that it can be followed part by part through the grammar.
-/
namespace ListQuery.Json

def lineEnds : List Char := ['\r', '\n']

/-- Puts any blanks for each of the characters that end lines. -/
inductive Respaced : List Char → List Char → Prop
  | nil : Respaced [] []
  | keep {c cs ds} : Respaced cs ds → Respaced (c :: cs) (c :: ds)
  | lineEnd {c blank cs ds} : c ∈ lineEnds → IsBlank blank → Respaced cs ds → Respaced (c :: cs) (blank ++ ds)

namespace Respaced

theorem unixLines (cs : List Char) : Respaced cs (Registry.unixLines cs) ∧ Respaced (Registry.unixLines cs) cs := by
  fun_induction Registry.unixLines cs with
  | case1 rest ih =>
    -- of two characters that end one line the second is replaced by no blank at all
    have hend : Respaced ('\n' :: rest) (Registry.unixLines rest) := .lineEnd (by decide) isBlank_nil ih.1
    have hboth : IsBlank ['\r', '\n'] := by simp [IsBlank]
    exact ⟨@lineEnd _ ['\n'] _ _ (by decide) (by simp [IsBlank]) hend, .lineEnd (by decide) hboth ih.2⟩
  | case2 rest _ ih =>
    have hfeed : Respaced ('\r' :: rest) ('\n' :: Registry.unixLines rest) :=
      @lineEnd _ ['\n'] _ _ (by decide) (by simp [IsBlank]) ih.1
    have hreturn : Respaced ('\n' :: Registry.unixLines rest) ('\r' :: rest) :=
      @lineEnd _ ['\r'] _ _ (by decide) (by simp [IsBlank]) ih.2
    exact ⟨hfeed, hreturn⟩
  | case3 c rest _ _ ih => exact ⟨.keep ih.1, .keep ih.2⟩
  | case4 => exact ⟨.nil, .nil⟩

theorem split : ∀ {as bs ds : List Char}, Respaced (as ++ bs) ds →
    ∃ as' bs', ds = as' ++ bs' ∧ Respaced as as' ∧ Respaced bs bs'
  | [], _, ds, h => ⟨[], ds, rfl, .nil, h⟩
  | _ :: _, _, _, .keep h => by
    obtain ⟨as', bs', rfl, has, hbs⟩ := split h
    exact ⟨_, bs', rfl, .keep has, hbs⟩
  | _ :: _, _, _, .lineEnd hc hblank h => by
    obtain ⟨as', bs', rfl, has, hbs⟩ := split h
    exact ⟨_, bs', (List.append_assoc _ _ _).symm, .lineEnd hc hblank has, hbs⟩

theorem eq_cons {c : Char} {cs ds : List Char} (h : Respaced (c :: cs) ds) (hc : c ∉ lineEnds) :
    ∃ ds', ds = c :: ds' ∧ Respaced cs ds' := by
  cases h with
  | keep h => exact ⟨_, rfl, h⟩
  | lineEnd hend => exact absurd hend hc

theorem eq_of_no_lineEnd : ∀ {cs ds : List Char}, Respaced cs ds → (∀ c ∈ cs, c ∉ lineEnds) → ds = cs
  | _, _, .nil, _ => rfl
  | _, _, .keep h, hcs => by
    rw [List.forall_mem_cons] at hcs
    rw [h.eq_of_no_lineEnd hcs.2]
  | _, _, .lineEnd hc _ _, hcs => absurd hc (hcs _ List.mem_cons_self)

theorem isBlank : ∀ {cs ds : List Char}, Respaced cs ds → IsBlank cs → IsBlank ds
  | _, _, .nil, _ => isBlank_nil
  | _, _, .keep h, hcs => by
    rw [IsBlank, List.forall_mem_cons] at hcs ⊢
    exact ⟨hcs.1, h.isBlank hcs.2⟩
  | _, _, .lineEnd _ hblank h, hcs => by
    rw [IsBlank, List.forall_mem_cons] at hcs
    exact isBlank_append hblank (h.isBlank hcs.2)

end Respaced

/-! ## Scalars hold no line ends -/

theorem isDigit_not_lineEnd {c : Char} (h : c.isDigit = true) : c ∉ lineEnds := by
  intro hc
  have hnone : ∀ d ∈ lineEnds, d.isDigit = false := by simp [lineEnds]
  rw [hnone c hc] at h
  cases h

theorem isHex_not_lineEnd {c : Char} (h : IsHex c) : c ∉ lineEnds := by
  intro hc
  have hnone : ∀ d ∈ lineEnds, ¬IsHex d := by simp [lineEnds, IsHex]
  exact hnone c hc h

theorem IsStringBody.not_lineEnd {body : List Char} (h : IsStringBody body) : ∀ c ∈ body, c ∉ lineEnds := by
  induction h with
  | nil => exact List.forall_mem_nil _
  | verbatim _ _ hcontrol _ ih =>
    rw [List.forall_mem_cons]
    refine ⟨fun hc => ?_, ih⟩
    have hnone : ∀ d ∈ lineEnds, ¬0x20 ≤ d.toNat := by simp [lineEnds]
    exact hnone _ hc hcontrol
  | escape hc _ ih =>
    have hnone : ∀ d ∈ ['"', '\\', '/', 'b', 'f', 'n', 'r', 't'], d ∉ lineEnds := by simp [lineEnds]
    rw [List.forall_mem_cons, List.forall_mem_cons]
    exact ⟨by decide, hnone _ hc, ih⟩
  | codePoint _ hhex _ ih =>
    rw [List.forall_mem_cons, List.forall_mem_cons, List.forall_mem_append]
    exact ⟨by decide, by decide, fun c hc => isHex_not_lineEnd (hhex c hc), ih⟩

theorem IsDigits.not_lineEnd {digits : List Char} (h : IsDigits digits) : ∀ c ∈ digits, c ∉ lineEnds :=
  fun c hc => isDigit_not_lineEnd (h.digit c hc)

theorem IsFraction.not_lineEnd {fraction : List Char} (h : IsFraction fraction) : ∀ c ∈ fraction, c ∉ lineEnds := by
  cases h with
  | absent => exact List.forall_mem_nil _
  | point hdigits =>
    rw [List.forall_mem_cons]
    exact ⟨by decide, hdigits.not_lineEnd⟩

theorem IsExponent.not_lineEnd {exponent : List Char} (h : IsExponent exponent) : ∀ c ∈ exponent, c ∉ lineEnds := by
  cases h with
  | absent => exact List.forall_mem_nil _
  | mark he hsign hdigits =>
    have hsigns : ∀ sign ∈ [[], ['+'], ['-']], ∀ c ∈ sign, c ∉ lineEnds := by simp [lineEnds]
    rw [List.forall_mem_cons, List.forall_mem_append]
    refine ⟨?_, hsigns _ hsign, hdigits.not_lineEnd⟩
    rcases he with rfl | rfl <;> decide

theorem IsScalar.not_lineEnd {text : List Char} (h : IsScalar text) : ∀ c ∈ text, c ∉ lineEnds := by
  cases h with
  | word hword =>
    have hnone : ∀ word ∈ ["null", "true", "false", "NaN", "Infinity", "-Infinity"].map String.toList,
        ∀ c ∈ word, c ∉ lineEnds := by simp [lineEnds]
    exact hnone _ hword
  | number hsign hwhole hfraction hexponent =>
    have hminus : ∀ sign ∈ [[], ['-']], ∀ c ∈ sign, c ∉ lineEnds := by simp [lineEnds]
    simp only [List.forall_mem_append]
    exact ⟨⟨⟨hminus _ hsign, hwhole.isDigits.not_lineEnd⟩, hfraction.not_lineEnd⟩, hexponent.not_lineEnd⟩
  | string hbody =>
    rw [List.forall_mem_cons, List.forall_mem_append]
    exact ⟨by decide, hbody.not_lineEnd, List.forall_mem_singleton.2 (by decide)⟩

/-! ## The grammar -/

/-- That a shape does not depend on the blanks at line ends. -/
def IsFree (shape : List Char → Prop) : Prop := ∀ text ds, shape text → Respaced text ds → shape ds

theorem isFree_isScalar : IsFree IsScalar := by
  intro text ds h hds
  rw [hds.eq_of_no_lineEnd h.not_lineEnd]
  exact h

variable {shape : List Char → Prop}

theorem isFree_isRow (hfree : IsFree shape) : IsFree (IsRow shape) := by
  intro row ds h
  induction h generalizing ds with
  | last hbefore htext hbehind =>
    intro hds
    obtain ⟨_, _, rfl, hfront, hbehind'⟩ := hds.split
    obtain ⟨_, _, rfl, hbefore', htext'⟩ := hfront.split
    exact .last (hbefore'.isBlank hbefore) (hfree _ _ htext htext') (hbehind'.isBlank hbehind)
  | more hbefore htext hbehind _ ih =>
    intro hds
    obtain ⟨_, _, rfl, hfront, hrest⟩ := hds.split
    obtain ⟨_, _, rfl, hfront, hbehind'⟩ := hfront.split
    obtain ⟨_, _, rfl, hbefore', htext'⟩ := hfront.split
    obtain ⟨_, rfl, hrest'⟩ := hrest.eq_cons (by decide)
    exact .more (hbefore'.isBlank hbefore) (hfree _ _ htext htext') (hbehind'.isBlank hbehind) (ih _ hrest')

theorem isFree_isEntry (hfree : IsFree shape) : IsFree (IsEntry shape) := by
  intro entry ds h hds
  cases h with
  | mk hname hbefore hbehind htext =>
    obtain ⟨_, rfl, hopened⟩ := hds.eq_cons (by decide)
    obtain ⟨_, _, rfl, hname', hquote⟩ := hopened.split
    obtain ⟨_, rfl, hclosed⟩ := hquote.eq_cons (by decide)
    obtain ⟨_, _, rfl, hbefore', hcolon⟩ := hclosed.split
    obtain ⟨_, rfl, hvalue⟩ := hcolon.eq_cons (by decide)
    obtain ⟨_, _, rfl, hbehind', htext'⟩ := hvalue.split
    rw [hname'.eq_of_no_lineEnd hname.not_lineEnd]
    exact .mk hname (hbefore'.isBlank hbefore) (hbehind'.isBlank hbehind) (hfree _ _ htext htext')

theorem Respaced.enclosed {opening closing : Char} {text ds : List Char} (h : Respaced (opening :: (text ++ [closing])) ds)
    (hopening : opening ∉ lineEnds) (hclosing : closing ∉ lineEnds) :
    ∃ text', ds = opening :: (text' ++ [closing]) ∧ Respaced text text' := by
  obtain ⟨_, rfl, hopened⟩ := h.eq_cons hopening
  obtain ⟨text', _, rfl, htext, hlast⟩ := hopened.split
  obtain ⟨_, rfl, hend⟩ := hlast.eq_cons hclosing
  cases hend
  exact ⟨text', rfl, htext⟩

theorem isFree_isContainer (hfree : IsFree shape) : IsFree (IsContainer shape) := by
  intro text ds h hds
  cases h with
  | emptyArray hblank =>
    obtain ⟨_, rfl, hblank'⟩ := hds.enclosed (by decide) (by decide)
    exact .emptyArray (hblank'.isBlank hblank)
  | array hitems =>
    obtain ⟨_, rfl, hitems'⟩ := hds.enclosed (by decide) (by decide)
    exact .array (isFree_isRow hfree _ _ hitems hitems')
  | emptyObject hblank =>
    obtain ⟨_, rfl, hblank'⟩ := hds.enclosed (by decide) (by decide)
    exact .emptyObject (hblank'.isBlank hblank)
  | object hentries =>
    obtain ⟨_, rfl, hentries'⟩ := hds.enclosed (by decide) (by decide)
    exact .object (isFree_isRow (isFree_isEntry hfree) _ _ hentries hentries')

theorem isFree_isValue : ∀ depth, IsFree (IsValue depth)
  | 0 => isFree_isScalar
  | depth + 1 => by
    intro text ds h hds
    rcases h with h | h
    · exact .inl (isFree_isScalar _ _ h hds)
    · exact .inr (isFree_isContainer (isFree_isValue depth) _ _ h hds)

theorem isFree_isText (depth : Nat) : IsFree (IsText depth) := by
  intro text ds h hds
  cases h with
  | mk hbefore htext hbehind =>
    obtain ⟨_, _, rfl, hfront, hbehind'⟩ := hds.split
    obtain ⟨_, _, rfl, hbefore', htext'⟩ := hfront.split
    exact .mk (hbefore'.isBlank hbefore) (isFree_isValue depth _ _ htext htext') (hbehind'.isBlank hbehind)

/-! ## Texts with line feeds -/

/-- **A text is JSON whatever its line ends are.** -/
theorem isText_unixLines_iff {depth : Nat} {cs : List Char} :
    IsText depth (Registry.unixLines cs) ↔ IsText depth cs := by
  obtain ⟨hlines, hcs⟩ := Respaced.unixLines cs
  constructor
  · exact fun h => isFree_isText depth _ _ h hcs
  · exact fun h => isFree_isText depth _ _ h hlines

theorem openings_unixLines (cs : List Char) : openings (Registry.unixLines cs) = openings cs := by
  fun_induction Registry.unixLines cs with
  | case1 rest ih | case2 rest _ ih => simpa [openings, isOpening] using ih
  | case3 c rest _ _ ih =>
    rw [openings, openings, List.countP_cons, List.countP_cons]
    exact congrArg (· + _) ih
  | case4 => rfl

theorem IsLongRun.of_unixLines {cs digits : List Char} (h : IsLongRun (Registry.unixLines cs) digits) :
    IsLongRun cs digits := by
  obtain ⟨⟨before, behind, hin⟩, hdigit, hlong⟩ := h
  have hcs := (Respaced.unixLines cs).2
  rw [← hin] at hcs
  obtain ⟨_, _, rfl, hfront, -⟩ := hcs.split
  obtain ⟨_, _, rfl, -, hdigits⟩ := hfront.split
  rw [hdigits.eq_of_no_lineEnd fun c hc => isDigit_not_lineEnd (hdigit c hc)]
  exact ⟨⟨_, _, rfl⟩, hdigit, hlong⟩

end ListQuery.Json
