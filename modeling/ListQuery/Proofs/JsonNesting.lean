import ListQuery.Proofs.JsonGrammar
/-!
# How deep the containers of a text stand in each other

Whatever a text is, its brackets tell how many containers are open at each place of it, those in strings set apart.  The
reader goes no deeper than that.  Main statements: `nesting_le_of_isText` (in a JSON text this is the depth of its containers
by the grammar) and `lt_nesting_of_tooDeep` (only a text that is nested deeper than containers are read is too deep).
-/
namespace ListQuery.Json

/-! ## Open containers -/

inductive Mode where
  | plain
  | quoted
  | escaped

/-- A place in a text: in a string, there behind a backslash, or neither, and how many containers are open. -/
structure Scan where
  mode : Mode
  level : Nat

def isClosing (c : Char) : Bool := c == ']' || c == '\x7d'

def Scan.step : Scan → Char → Scan
  | ⟨.plain, level⟩, c =>
    if c = '"' then ⟨.quoted, level⟩
    else if isOpening c then ⟨.plain, level + 1⟩
    else if isClosing c then ⟨.plain, level - 1⟩
    else ⟨.plain, level⟩
  | ⟨.quoted, level⟩, c => ⟨if c = '"' then .plain else if c = '\\' then .escaped else .quoted, level⟩
  | ⟨.escaped, level⟩, _ => ⟨.quoted, level⟩

def highest (s : Scan) : List Char → Nat
  | [] => s.level
  | c :: cs => max s.level (highest (s.step c) cs)

/-- How deep the containers of a text stand in each other. -/
def nesting (cs : List Char) : Nat := highest ⟨.plain, 0⟩ cs

theorem level_le_highest (s : Scan) : ∀ cs, s.level ≤ highest s cs
  | [] => Nat.le_refl _
  | _ :: _ => Nat.le_max_left _ _

theorem highest_append (ds : List Char) : ∀ (s : Scan) (cs : List Char),
    highest s (cs ++ ds) = max (highest s cs) (highest (cs.foldl Scan.step s) ds)
  | s, [] => (Nat.max_eq_right (level_le_highest s ds)).symm
  | s, c :: cs => by
    rw [List.cons_append, highest, highest, highest_append ds (s.step c) cs, List.foldl_cons, Nat.max_assoc]

/-! ## Texts that close what they open -/

/-- A text that leaves a place as it is, strings and containers included, and opens at most so many containers inside each
other. -/
structure Within (mode : Mode) (depth : Nat) (text : List Char) : Prop where
  foldl_step : ∀ level, text.foldl Scan.step ⟨mode, level⟩ = ⟨mode, level⟩
  highest_le : ∀ level, highest ⟨mode, level⟩ text ≤ level + depth

namespace Within

variable {mode : Mode} {depth : Nat} {text text' : List Char}

theorem nil : Within mode depth [] := ⟨fun _ => rfl, fun _ => Nat.le_add_right _ _⟩

theorem append (h : Within mode depth text) (h' : Within mode depth text') : Within mode depth (text ++ text') where
  foldl_step level := by rw [List.foldl_append, h.foldl_step, h'.foldl_step]
  highest_le level := by
    rw [highest_append, h.foldl_step]
    exact Nat.max_le.2 ⟨h.highest_le level, h'.highest_le level⟩

theorem mono (h : Within mode 0 text) (depth : Nat) : Within mode depth text where
  foldl_step := h.foldl_step
  highest_le level := Nat.le_trans (h.highest_le level) (by omega)

theorem singleton {c : Char} (h : ∀ level, Scan.step ⟨mode, level⟩ c = ⟨mode, level⟩) : Within mode depth [c] where
  foldl_step := h
  highest_le level := by simp [highest, h]

theorem of_chars : ∀ {text : List Char}, (∀ c ∈ text, ∀ level, Scan.step ⟨mode, level⟩ c = ⟨mode, level⟩) →
    Within mode depth text
  | [], _ => nil
  | c :: cs, h => by
    rw [List.forall_mem_cons] at h
    exact append (singleton h.1) (of_chars h.2)

theorem surrounded {inner : Mode} {opened : Nat} {opening closing : Char}
    (hin : ∀ level, Scan.step ⟨mode, level⟩ opening = ⟨inner, level + opened⟩)
    (hout : ∀ level, Scan.step ⟨inner, level + opened⟩ closing = ⟨mode, level⟩) (h : Within inner depth text) :
    Within mode (depth + opened) (opening :: (text ++ [closing])) := by
  constructor
  case foldl_step =>
    intro level
    rw [List.foldl_cons, hin, List.foldl_append, h.foldl_step, List.foldl_cons, hout, List.foldl_nil]
  case highest_le =>
    intro level
    have hle := h.highest_le (level + opened)
    rw [highest, hin, highest_append, h.foldl_step]
    simp only [highest, hout]
    omega

theorem quoted (h : Within .quoted 0 text) : Within .plain 0 ('"' :: (text ++ ['"'])) := by
  have hin : ∀ level, Scan.step ⟨.plain, level⟩ '"' = ⟨.quoted, level + 0⟩ := fun _ => rfl
  exact h.surrounded hin fun _ => rfl

end Within

/-! ## Parts of a JSON text -/

variable {depth : Nat}

theorem step_quoted {c : Char} (hquote : c ≠ '"') (hbackslash : c ≠ '\\') (level : Nat) :
    Scan.step ⟨.quoted, level⟩ c = ⟨.quoted, level⟩ := by
  simp [Scan.step, hquote, hbackslash]

theorem step_plain {c : Char} (h : c ∉ ['"', '[', ']', '\x7b', '\x7d']) (level : Nat) :
    Scan.step ⟨.plain, level⟩ c = ⟨.plain, level⟩ := by
  simp only [List.mem_cons, List.not_mem_nil, or_false, not_or] at h
  simp [Scan.step, isOpening, isClosing, h]

theorem IsHex.ne {c d : Char} (h : IsHex c) (hd : ¬IsHex d) : c ≠ d := fun heq => hd (heq ▸ h)

theorem IsStringBody.within {body : List Char} (h : IsStringBody body) : Within .quoted 0 body := by
  induction h with
  | nil => exact .nil
  | verbatim hquote hbackslash _ _ ih => exact .append (.singleton (step_quoted hquote hbackslash)) ih
  | @escape c rest _ _ ih =>
    have hpair : Within .quoted 0 ['\\', c] := ⟨fun _ => rfl, fun _ => by simp [highest, Scan.step]⟩
    exact hpair.append ih
  | @codePoint quad rest _ hhex _ ih =>
    have hpair : Within .quoted 0 ['\\', 'u'] := ⟨fun _ => rfl, fun _ => by simp [highest, Scan.step]⟩
    have hquad : Within .quoted 0 quad := .of_chars fun c hc =>
      step_quoted ((hhex c hc).ne (by unfold IsHex; decide)) ((hhex c hc).ne (by unfold IsHex; decide))
    exact hpair.append (hquad.append ih)

theorem within_of_notMem {text : List Char} (h : ∀ c ∈ text, c ∉ ['"', '[', ']', '\x7b', '\x7d']) :
    Within .plain depth text :=
  .of_chars fun c hc => step_plain (h c hc)

theorem within_blank {blank : List Char} (h : IsBlank blank) : Within .plain depth blank :=
  within_of_notMem fun c hc =>
    (by simp : ∀ d ∈ [' ', '\t', '\n', '\r'], d ∉ ['"', '[', ']', '\x7b', '\x7d']) c (h c hc)

theorem IsDigits.within {digits : List Char} (h : IsDigits digits) : Within .plain depth digits := by
  refine within_of_notMem fun c hc hmem => ?_
  have hnone : ∀ d ∈ ['"', '[', ']', '\x7b', '\x7d'], d.isDigit = false := by simp
  exact Bool.noConfusion ((h.digit c hc).symm.trans (hnone c hmem))

theorem within_sign {sign : List Char} (h : sign ∈ [[], ['+'], ['-']]) : Within .plain depth sign :=
  within_of_notMem ((by simp : ∀ s ∈ [[], ['+'], ['-']], ∀ c ∈ s, c ∉ ['"', '[', ']', '\x7b', '\x7d']) sign h)

theorem IsScalar.within {text : List Char} (h : IsScalar text) : Within .plain 0 text := by
  cases h with
  | word hword =>
    have hplain : ∀ w ∈ ["null", "true", "false", "NaN", "Infinity", "-Infinity"].map String.toList,
        ∀ c ∈ w, c ∉ ['"', '[', ']', '\x7b', '\x7d'] := by simp
    exact within_of_notMem (hplain _ hword)
  | @number sign whole fraction exponent hsign hwhole hfraction hexponent =>
    have hsign : Within .plain 0 sign := by
      rcases List.mem_pair.1 hsign with rfl | rfl <;> exact within_sign (by simp)
    have hfraction : Within .plain 0 fraction := by
      cases hfraction with
      | absent => exact .nil
      | point hdigits => exact .append (.singleton (step_plain (by decide))) hdigits.within
    have hexponent : Within .plain 0 exponent := by
      cases hexponent with
      | absent => exact .nil
      | mark he hsign hdigits =>
        refine .append (.singleton (step_plain ?_)) ((within_sign hsign).append hdigits.within)
        rcases he with rfl | rfl <;> decide
    exact ((hsign.append hwhole.isDigits.within).append hfraction).append hexponent
  | string hbody => exact hbody.within.quoted

section

variable {member value : List Char → Prop}

theorem IsRow.within (hmember : ∀ text, member text → Within .plain depth text) {row : List Char} (h : IsRow member row) :
    Within .plain depth row := by
  induction h with
  | last hbefore htext hbehind => exact ((within_blank hbefore).append (hmember _ htext)).append (within_blank hbehind)
  | more hbefore htext hbehind _ ih =>
    have hcomma : Within .plain depth [','] := .singleton (step_plain (by decide))
    exact (((within_blank hbefore).append (hmember _ htext)).append (within_blank hbehind)).append (hcomma.append ih)

theorem IsEntry.within (hvalue : ∀ text, value text → Within .plain depth text) {entry : List Char}
    (h : IsEntry value entry) : Within .plain depth entry := by
  cases h with
  | @mk name before behind text hname hbefore hbehind htext =>
    have hcolon : Within .plain depth [':'] := .singleton (step_plain (by decide))
    have hentry := (hname.within.quoted.mono depth).append
      ((within_blank hbefore).append (hcolon.append ((within_blank hbehind).append (hvalue _ htext))))
    simpa using hentry

theorem IsContainer.within (hvalue : ∀ text, value text → Within .plain depth text) {text : List Char}
    (h : IsContainer value text) : Within .plain (depth + 1) text := by
  cases h with
  | emptyArray hblank => exact .surrounded (fun _ => rfl) (fun _ => rfl) (within_blank hblank)
  | array hitems => exact .surrounded (fun _ => rfl) (fun _ => rfl) (hitems.within hvalue)
  | emptyObject hblank => exact .surrounded (fun _ => rfl) (fun _ => rfl) (within_blank hblank)
  | object hentries => exact .surrounded (fun _ => rfl) (fun _ => rfl) (hentries.within fun _ => IsEntry.within hvalue)

end

theorem within_of_isValue : ∀ {depth : Nat} {text : List Char}, IsValue depth text → Within .plain depth text
  | 0, _, h => IsScalar.within h
  | depth + 1, _, h => by
    rcases h with hscalar | hcontainer
    · exact hscalar.within.mono _
    · exact hcontainer.within fun _ => within_of_isValue

/-- **The nesting of a JSON text is the depth of its containers** by the grammar, or less. -/
theorem nesting_le_of_isText {cs : List Char} (h : IsText depth cs) : nesting cs ≤ depth := by
  cases h with
  | mk hbefore hvalue hbehind =>
    have hwithin := ((within_blank hbefore).append (within_of_isValue hvalue)).append (within_blank hbehind)
    have hle := hwithin.highest_le 0
    rwa [Nat.zero_add] at hle

/-! ## Texts that are too deep -/

/-- A call on a text finds containers too deep only where more of them are open at one place, from any level on. -/
def Deepens {α : Type} (depth : Nat) (cs : List Char) (x : Except Stop (α × List Char)) : Prop :=
  x = .error .tooDeep → ∀ level, level + depth < highest ⟨.plain, level⟩ cs

namespace Deepens

variable {α β : Type} {shape : List Char → Prop} {cs rest body : List Char} {x : Except Stop (α × List Char)}

theorem ok {r : α × List Char} : Deepens depth cs (.ok r) := nofun

theorem complaint {why : Complaint} : Deepens depth cs (.error (.complaint why rest) : Except Stop (α × List Char)) := nofun

theorem of_reads {good : α → Prop} (h : ∀ depth, Reads good depth cs x) : Deepens depth cs x :=
  fun hx => absurd ((h (openings cs)).lt_of_tooDeep hx) (Nat.lt_irrefl _)

theorem behind {within : Nat} {before : List Char} (hbefore : Within .plain within before) (hcs : cs = before ++ rest)
    (h : Deepens depth rest x) : Deepens depth cs x := by
  intro hx level
  rw [hcs, highest_append, hbefore.foldl_step]
  exact Nat.lt_of_lt_of_le (h hx level) (Nat.le_max_right _ _)

theorem bind {within : Nat} {f : α × List Char → Except Stop (β × List Char)} (h : Deepens depth cs x)
    (hgets : Gets shape cs x) (hshape : ∀ text, shape text → Within .plain within text)
    (hf : ∀ a rest, Deepens depth rest (f (a, rest))) : Deepens depth cs (x >>= f) := by
  cases x with
  | error stop =>
    intro hx
    obtain rfl := Except.error.inj hx
    exact h rfl
  | ok result =>
    cases hgets with
    | ok text hcs htext => exact behind (hshape text htext) hcs (hf _ _)

theorem map (h : Deepens depth cs x) (g : α × List Char → β × List Char) : Deepens depth cs (x >>= fun r => .ok (g r)) := by
  cases x with
  | error stop =>
    intro hx
    obtain rfl := Except.error.inj hx
    exact h rfl
  | ok => exact ok

theorem past {c : Char} (hc : c ∉ ['"', '[', ']', '\x7b', '\x7d']) (hskip : skipBlank rest = c :: body)
    (h : Deepens depth (skipBlank body) x) : Deepens depth rest x := by
  obtain ⟨blank, blank', hblank, hblank', hbody, hrest⟩ := exists_blanks hskip
  have hbefore : Within .plain 0 (blank ++ ([c] ++ blank')) :=
    (within_blank hblank).append ((Within.singleton (step_plain hc)).append (within_blank hblank'))
  refine behind hbefore ?_ h
  rw [hrest]
  conv_lhs => rw [hbody]
  simp

theorem opened {c : Char} (hc : ∀ level, Scan.step ⟨.plain, level⟩ c = ⟨.plain, level + 1⟩)
    (h : Deepens depth (skipBlank body) x) : Deepens (depth + 1) (c :: body) x := by
  intro hx level
  obtain ⟨blank, hblank, hbody⟩ := exists_blank body
  have hbefore : Within .plain 0 blank := within_blank hblank
  have hbelow := behind hbefore hbody h hx (level + 1)
  rw [highest, hc]
  omega

theorem tooDeep {c : Char} (hc : ∀ level, Scan.step ⟨.plain, level⟩ c = ⟨.plain, level + 1⟩) :
    Deepens 0 (c :: body) (.error .tooDeep : Except Stop (α × List Char)) := by
  intro _ level
  have hlevel : level + 1 ≤ highest ⟨.plain, level + 1⟩ body := level_le_highest ⟨.plain, level + 1⟩ body
  rw [highest, hc]
  omega

end Deepens

section

variable {shape : List Char → Prop} {within : Nat}

theorem readRow_deepens {α : Type} {part : Reader α} (hpart : ∀ cs, Deepens depth cs (part cs))
    (hgets : ∀ cs, Gets shape cs (part cs)) (hshape : ∀ text, shape text → Within .plain within text) (closing : Char)
    (missing : Complaint) : ∀ (fuel : Nat) (cs : List Char), Deepens depth cs (readRow part closing missing fuel cs)
  | 0, _ => .complaint
  | fuel + 1, cs => by
    rw [readRow]
    refine (hpart cs).bind (hgets cs) hshape fun a rest => ?_
    dsimp only
    split
    · rename_i behind hskip
      have hmore := readRow_deepens hpart hgets hshape closing missing fuel (skipBlank behind)
      exact (hmore.past (by decide) hskip).map fun r => (a :: r.1, r.2)
    · split
      · exact .ok
      · exact .complaint
    · exact .complaint

theorem readEntry_deepens {item : Reader Value} (hitem : ∀ cs, Deepens depth cs (item cs)) (fuel : Nat) (cs : List Char) :
    Deepens depth cs (readEntry fuel item cs) := by
  unfold readEntry
  split
  · rename_i body
    have hquoted : ∀ text, IsQuoted text → Within .plain 0 text := by
      rintro _ ⟨name, hname, rfl⟩
      exact hname.within.quoted
    have hname : Deepens depth ('"' :: body) (readString ('"' :: body) fuel body) :=
      .of_reads fun _ => (readString_reads _ fuel body).mono (List.suffix_cons _ _)
    refine hname.bind (readString_gets_quoted fuel body) hquoted fun name rest => ?_
    dsimp only
    split
    · rename_i behind hskip
      exact ((hitem (skipBlank behind)).past (by decide) hskip).map fun r => ((String.ofList name, r.1), r.2)
    · exact .complaint
  · exact .complaint

theorem readWith_string_deepens (fuel : Nat) (rest : List Char) : Deepens depth ('"' :: rest)
    (readString ('"' :: rest) fuel rest >>= fun s => .ok (Value.str (String.ofList s.1), s.2)) := by
  have hstring : Deepens depth ('"' :: rest) (readString ('"' :: rest) fuel rest) :=
    .of_reads fun _ => (readString_reads _ fuel rest).mono (List.suffix_cons _ _)
  exact hstring.map fun s => (Value.str (String.ofList s.1), s.2)

theorem readWith_none_deepens (fuel : Nat) (cs : List Char) : Deepens 0 cs (readWith fuel none cs) := by
  unfold readWith
  split
  · exact readWith_string_deepens fuel _
  · exact .tooDeep fun _ => rfl
  · exact .tooDeep fun _ => rfl
  · exact .of_reads fun _ => readScalar_reads _

theorem readWith_some_deepens {item : Reader Value} (hitem : ∀ cs, Deepens depth cs (item cs))
    (hgets : ∀ cs, Gets shape cs (item cs)) (hshape : ∀ text, shape text → Within .plain within text) (fuel : Nat)
    (cs : List Char) : Deepens (depth + 1) cs (readWith fuel (some item) cs) := by
  unfold readWith
  split
  · exact readWith_string_deepens fuel _
  · split
    · rename_i h; cases h
    · exact .ok
    · rename_i inner hinner _
      cases hinner
      rw [readItems_eq]
      have hrow := readRow_deepens hitem hgets hshape ']' .valueExpected fuel
      exact (Deepens.opened (fun _ => rfl) (hrow _)).map fun r => (Value.list r.1, r.2)
  · split
    · rename_i h; cases h
    · exact .ok
    · rename_i inner hinner _
      cases hinner
      rw [readEntries_eq]
      have hrow := readRow_deepens (readEntry_deepens hitem fuel) (readEntry_gets hgets fuel)
        (fun _ => IsEntry.within hshape) '\x7d' .nameExpected fuel
      exact (Deepens.opened (fun _ => rfl) (hrow _)).map fun r => (Value.map (Value.mapOf r.1), r.2)
  · exact .of_reads fun _ => readScalar_reads _

end

theorem readValue_deepens (fuel : Nat) : ∀ (depth : Nat) (cs : List Char), Deepens depth cs (readValue fuel depth cs)
  | 0, cs => readWith_none_deepens fuel cs
  | depth + 1, cs =>
    readWith_some_deepens (readValue_deepens fuel depth) (readValue_gets fuel depth) (fun _ => within_of_isValue) fuel cs

/-- **Only a text that is nested deeper than containers are read is too deep.** -/
theorem lt_nesting_of_tooDeep {text : String} (h : read text = .error .tooDeep) : maxDepth < nesting text.toList := by
  rw [read_eq_tooDeep_iff] at h
  unfold readChars at h
  split at h
  · cases h
  · obtain ⟨blank, hblank, htext⟩ := exists_blank text.toList
    have hvalue := readValue_deepens text.toList.length maxDepth (skipBlank text.toList)
    cases hread : readValue text.toList.length maxDepth (skipBlank text.toList) with
    | error stop =>
      rw [hread] at h hvalue
      obtain rfl := Except.error.inj h
      have hbefore : Within .plain 0 blank := within_blank hblank
      have hdeep := Deepens.behind hbefore htext hvalue rfl 0
      rwa [Nat.zero_add] at hdeep
    | ok result =>
      rw [hread, ok_bind] at h
      dsimp only at h
      split at h <;> cases h

end ListQuery.Json
