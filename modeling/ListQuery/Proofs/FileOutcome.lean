import ListQuery.Proofs.DocumentFaults
import ListQuery.Proofs.JsonAcceptance
import ListQuery.Proofs.LineEnds
/-!
# What becomes of a schema file

Every file, byte by byte: whether it holds a text, whether the text is JSON, and whether the reader goes through with it.
A text that is not JSON is refused with an error that names the file and the place in the text, as long as no limit of the
reader is met first; bytes that are no text and texts beyond the limits end in other faults.  Main statement:
`ofFile_outcome`.
-/
namespace ListQuery.Registry

open Json

/-! ## Bytes and texts -/

theorem fromUTF8?_eq_some_iff {bytes : ByteArray} {text : String} :
    String.fromUTF8? bytes = some text ↔ bytes = text.toUTF8 := by
  rw [String.fromUTF8?, Option.dite_none_right_eq_some]
  constructor
  · rintro ⟨h, htext⟩
    rw [← Option.some.inj htext]
    rfl
  · rintro rfl
    exact ⟨text.isValidUTF8, rfl⟩

def ofLines (file : String) (lines : List Char) : Except Fault Registry :=
  match Json.read (String.ofList lines) with
  | .ok document => ofDocument document
  | .error (.malformed complaint place) => definitionError (.unreadable file (Json.Fault.malformed complaint place).message)
  | .error fault => .error (.json fault)

theorem ofFile_toUTF8 (file text : String) : ofFile file (some text.toUTF8) = ofLines file (unixLines text.toList) := by
  rw [ofFile, fromUTF8?_eq_some_iff.2 rfl]
  rfl

theorem ofFile_of_no_text {file : String} {bytes : ByteArray} (h : ∀ text : String, bytes ≠ text.toUTF8) :
    ofFile file (some bytes) = .error .notUtf8 := by
  have hnone : String.fromUTF8? bytes = none :=
    Option.eq_none_iff_forall_ne_some.2 fun text htext => h text (fromUTF8?_eq_some_iff.1 htext)
  rw [ofFile, hnone]

/-! ## Texts -/

section

variable {file : String} {lines : List Char}

theorem ofLines_of_ok {document : Value} (h : readChars lines = .ok document) :
    ofLines file lines = ofDocument document := by
  rw [ofLines, read_eq_ok_iff.2 (by rw [String.toList_ofList, h])]

theorem ofLines_of_complaint {why : Complaint} {rest : List Char} (h : readChars lines = .error (.complaint why rest)) :
    ofLines file lines = .error (.query (.definition (.unreadable file
      (Json.Fault.malformed why (.behind lines (lines.length - rest.length))).message))) := by
  rw [ofLines, Json.read, String.toList_ofList, h]
  rfl

theorem ofLines_of_tooDeep (h : readChars lines = .error .tooDeep) : ofLines file lines = .error (.json .tooDeep) := by
  rw [ofLines, Json.read, String.toList_ofList, h]
  rfl

theorem ofLines_of_tooManyDigits {count : Nat} (h : readChars lines = .error (.tooManyDigits count)) :
    ofLines file lines = .error (.json (.tooManyDigits count)) := by
  rw [ofLines, Json.read, String.toList_ofList, h]
  rfl

end

/-- That a call finds an integer too long, whose digits are in the text. -/
def FindsTooLong (text : List Char) (x : Except Fault Registry) : Prop :=
  ∃ digits, IsLongRun text digits ∧ x = .error (.json (.tooManyDigits digits.length))

structure TextOutcome (file : String) (text : List Char) (x : Except Fault Registry) : Prop where
  document : IsText maxDepth text → FindsTooLong text x ∨ ∃ document, document.isJson = true ∧
    Json.read (String.ofList (unixLines text)) = .ok document ∧ x = ofDocument document
  tooDeep : ∀ depth, IsText depth text → ¬IsText maxDepth text → FindsTooLong text x ∨ x = .error (.json .tooDeep)
  malformed : (∀ depth, ¬IsText depth text) → FindsTooLong text x ∨
    (maxDepth < openings text ∧ x = .error (.json .tooDeep)) ∨
    ∃ why, ∃ offset ≤ (unixLines text).length, x = .error (.query (.definition (.unreadable file
      (Json.Fault.malformed why (.behind (unixLines text) offset)).message)))

theorem ofLines_outcome (file : String) (text : List Char) : TextOutcome file text (ofLines file (unixLines text)) := by
  have hread {v : Value} (h : readChars (unixLines text) = .ok v) : Json.read (String.ofList (unixLines text)) = .ok v :=
    read_eq_ok_iff.2 (by rw [String.toList_ofList, h])
  cases hcall : readChars (unixLines text) with
  | ok document =>
    have htext := isText_unixLines_iff.1 (isText_of_readChars hcall)
    constructor
    case document => exact fun _ => .inr ⟨document, isJson_of_read (hread hcall), hread hcall, ofLines_of_ok hcall⟩
    case tooDeep => exact fun _ _ hno => absurd htext hno
    case malformed => exact fun hno => absurd htext (hno maxDepth)
  | error stop =>
    cases stop with
    | complaint why rest =>
      have hno : ∀ depth, ¬IsText depth text := by
        intro depth htext
        rcases readChars_of_isText (isText_unixLines_iff.2 htext) with ⟨_, h⟩ | ⟨_, h⟩ | ⟨-, h⟩ <;> cases hcall.symm.trans h
      constructor
      case document => exact fun htext => absurd htext (hno _)
      case tooDeep => exact fun depth htext _ => absurd htext (hno depth)
      case malformed => exact fun _ => .inr (.inr ⟨why, _, Nat.sub_le _ _, ofLines_of_complaint hcall⟩)
    | tooDeep =>
      have hfault := @ofLines_of_tooDeep file _ hcall
      have hno : ¬IsText maxDepth text := by
        intro htext
        rcases readChars_of_isText (isText_unixLines_iff.2 htext) with ⟨_, h⟩ | ⟨_, h⟩ | ⟨hlt, -⟩
        · cases hcall.symm.trans h
        · cases hcall.symm.trans h
        · exact absurd hlt (Nat.lt_irrefl _)
      have hlt : maxDepth < openings text := by
        have hdeep : Json.read (String.ofList (unixLines text)) = .error .tooDeep :=
          read_eq_tooDeep_iff.2 (by rw [String.toList_ofList, hcall])
        rw [← openings_unixLines]
        simpa using lt_openings_of_tooDeep hdeep
      constructor
      case document => exact fun htext => absurd htext hno
      case tooDeep => exact fun _ _ _ => .inr hfault
      case malformed => exact fun _ => .inr (.inl ⟨hlt, hfault⟩)
    | tooManyDigits count =>
      obtain ⟨digits, hrun, rfl⟩ := digits_of_tooManyDigits hcall
      have hlong : FindsTooLong text (ofLines file (unixLines text)) :=
        ⟨digits, hrun.of_unixLines, ofLines_of_tooManyDigits hcall⟩
      exact ⟨fun _ => .inl hlong, fun _ _ _ => .inl hlong, fun _ => .inl hlong⟩

/-! ## Files -/

structure FileOutcome (file : String) (bytes : ByteArray) (x : Except Fault Registry) : Prop where
  undecodable : (∀ text : String, bytes ≠ text.toUTF8) → x = .error .notUtf8
  text : ∀ text : String, bytes = text.toUTF8 → TextOutcome file text.toList x

/-- **What becomes of a schema file**, whatever its bytes are.  The document of a text that escapes a surrogate without its
partner is left out; that such a text is JSON, and whether it is too deep, is told like that of any other. -/
theorem ofFile_outcome (file : String) (bytes : ByteArray) : FileOutcome file bytes (ofFile file (some bytes)) where
  undecodable h := ofFile_of_no_text h
  text text htext := by
    rw [htext, ofFile_toUTF8]
    exact ofLines_outcome file _

/-! ## Files that end in other faults -/

theorem unixLines_append {cs : List Char} (h : '\r' ∉ cs) (rest : List Char) :
    unixLines (cs ++ rest) = cs ++ unixLines rest := by
  induction cs with
  | nil => rfl
  | cons c cs ih =>
    rw [List.mem_cons, not_or] at h
    rw [List.cons_append, unixLines, ih h.2]
    · rfl
    · exact fun _ hc _ => h.1 hc.symm
    · exact fun hc => h.1 hc.symm

theorem ofFile_nested (file : String) {arrays : Nat} (h : maxDepth ≤ arrays) (rest : List Char) :
    ofFile file (some (String.ofList (nested arrays ++ rest)).toUTF8) = .error (.json .tooDeep) := by
  have hreturn : '\r' ∉ nested arrays := by simp [nested, List.mem_replicate]
  have hdeep := read_eq_tooDeep_iff.1 (read_nested h (unixLines rest))
  rw [String.toList_ofList] at hdeep
  rw [ofFile_toUTF8, String.toList_ofList, unixLines_append hreturn]
  exact ofLines_of_tooDeep hdeep

theorem ofFile_digits (file : String) {digits : List Char} (h : IsWhole digits) (hlong : maxIntegerDigits < digits.length) :
    ofFile file (some (String.ofList digits).toUTF8) = .error (.json (.tooManyDigits digits.length)) := by
  have hreturn : '\r' ∉ digits := fun hin => absurd (h.isDigits.digit _ hin) (by decide)
  have hlines : unixLines digits = digits := by simpa [unixLines] using unixLines_append hreturn []
  rw [ofFile_toUTF8, String.toList_ofList, hlines]
  exact ofLines_of_tooManyDigits (readChars_of_isWhole h hlong)

theorem isWhole_nines (more : Nat) : IsWhole (List.replicate (more + 1) '9') := by
  rw [List.replicate_succ]
  refine .digits (by decide) ⟨by simp, ?_⟩
  rw [← List.replicate_succ]
  intro c hc
  rw [(List.mem_replicate.1 hc).2]
  rfl

/-- **Not every file that cannot be loaded is refused with an error of its own**: a byte that no text has, a text that is
JSON but too deep, and an integer with too many digits end in other faults. -/
theorem ofFile_escapes :
    (ofFile "schema.json" (some ⟨#[0xff]⟩) = .error .notUtf8 ∧
      ofFile "schema.json" (some (String.ofList (nested maxDepth ++ (List.replicate maxDepth ']' ++ ['\x7d']))).toUTF8) =
        .error (.json .tooDeep) ∧
      ofFile "schema.json" (some (String.ofList (List.replicate 4301 '9')).toUTF8) = .error (.json (.tooManyDigits 4301))) ∧
      ¬∀ (file : String) (bytes : ByteArray),
        (∀ text : String, bytes = text.toUTF8 → (∀ depth, ¬IsText depth text.toList) ∨
          ∃ fault, Json.read (String.ofList (unixLines text.toList)) = .error fault) →
        ∃ why, ofFile file (some bytes) = .error (.query (.definition why)) := by
  have hnone : String.fromUTF8? ⟨#[0xff]⟩ = none := by decide
  have hbyte : ∀ text : String, ⟨#[0xff]⟩ ≠ text.toUTF8 := by
    intro text h
    rw [fromUTF8?_eq_some_iff.2 h] at hnone
    cases hnone
  have hfault := @ofFile_of_no_text "schema.json" _ hbyte
  have hdigits := ofFile_digits "schema.json" (isWhole_nines 4300) (by rw [List.length_replicate]; decide)
  rw [List.length_replicate] at hdigits
  refine ⟨⟨hfault, ofFile_nested _ (Nat.le_refl _) _, hdigits⟩, fun h => ?_⟩
  obtain ⟨why, hwhy⟩ := h "schema.json" ⟨#[0xff]⟩ fun text htext => absurd htext (hbyte text)
  cases hfault.symm.trans hwhy

end ListQuery.Registry
