import ListQuery.Proofs.JsonNesting
import ListQuery.Proofs.RequestOutcome
import ListQuery.Proofs.SettledParameters
/-!
# Problems with parameters, one by one

All parameters of a request are checked before any of them is refused, so each problem is reported whatever else is wrong.
What is wrong with a parameter is a matter of its name and its value: the same is found where it is given alone.  How the
parameters go together is looked at only where there is nothing wrong with any of them.  Main statements: `check_cases` (a
check comes to the row of the problems, or to the combination), `mem_problemsOf_iff` (what the row holds), and from these
`ofRequest_independent`.
-/
namespace ListQuery

namespace Checked

variable {α β : Type}

def problems : Checked α → List Problem
  | valid _ => []
  | invalid problems => problems

theorem problems_seq (f : Checked (α → β)) (x : Checked α) : (f <*> x).problems = f.problems ++ x.problems := by
  show (f.seq x).problems = _
  cases f <;> cases x <;> simp [seq, problems]

theorem problems_map (g : α → β) (x : Checked α) : (g <$> x).problems = x.problems := by
  show ((valid g).seq x).problems = _
  cases x <;> rfl

theorem Explained.invalid {x : Checked α} (h : x.Explained) (hinvalid : ∀ a, x ≠ valid a) :
    x.problems ≠ [] ∧ x = .invalid x.problems := by
  cases x with
  | valid a => exact absurd rfl (hinvalid a)
  | invalid problems => exact ⟨fun hnil => h (congrArg Checked.invalid hnil), rfl⟩

theorem problems_ofExcept (name : String) (x : Except Rejection α) :
    (ofExcept name x).problems = ((faultOf? x).map (Problem.mk name)).toList := by
  cases x <;> rfl

end Checked

namespace Parameters

variable {α : Type} {maxLimit : Value} {settings : Settings} {given : List (String × Value)} {name : String} {r : Rejection}

/-! ## The problem of one parameter -/

/-- What each parameter is refused for, in the order in which they are checked.  A path to group by has two names. -/
def refusals (maxLimit : Value) : List (String × (Value → Option Rejection)) :=
  [("page", fun v => faultOf? (checkPositive v)),
    ("limit", fun v => (checkLimit maxLimit v).toOption.bind faultOf?),
    ("order", fun v => faultOf? (checkDirection v)),
    ("fields", fun v => faultOf? (checkOptionalText v)),
    ("sort", fun v => (checkSort v).toOption.bind faultOf?),
    ("query", fun v => faultOf? (checkText v)),
    ("document", fun v => faultOf? (checkFlag v)),
    ("pagination", fun v => faultOf? (checkFlag v)),
    ("count", fun v => faultOf? (checkFlag v)),
    ("filter", fun v => faultOf? (checkOptionalText v)),
    ("groupBy", fun v => faultOf? (checkGroupBy v)),
    ("group_by", fun v => faultOf? (checkGroupBy v))]

/-- A value is not accepted under a name. -/
def Rejects (maxLimit : Value) (name : String) (v : Value) (r : Rejection) : Prop :=
  ∃ refusal, (name, refusal) ∈ refusals maxLimit ∧ refusal v = some r

def problem? (given : List (String × Value)) (refusal : String × (Value → Option Rejection)) : Option Problem :=
  ((Value.lookup? refusal.1 given).bind refusal.2).map (Problem.mk refusal.1)

def problemsOf (maxLimit : Value) (given : List (String × Value)) : List Problem :=
  (refusals maxLimit).filterMap (problem? given)

theorem mem_problemsOf_iff : ⟨name, r⟩ ∈ problemsOf maxLimit given ↔
    ∃ v, Value.lookup? name given = some v ∧ Rejects maxLimit name v r := by
  simp only [problemsOf, problem?, List.mem_filterMap, Option.map_eq_some_iff, Option.bind_eq_some_iff]
  constructor
  · rintro ⟨⟨_, refusal⟩, hmem, _, ⟨v, hv, hr⟩, heq⟩
    obtain ⟨rfl, rfl⟩ := Problem.mk.inj heq
    exact ⟨v, hv, refusal, hmem, hr⟩
  · rintro ⟨v, hv, refusal, hmem, hr⟩
    exact ⟨⟨name, refusal⟩, hmem, r, ⟨v, hv, hr⟩, rfl⟩

theorem nodup_problemsOf (maxLimit : Value) (given : List (String × Value)) :
    ((problemsOf maxLimit given).map Problem.parameter).Nodup := by
  have hnames : (problemsOf maxLimit given).map Problem.parameter =
      ((refusals maxLimit).filter fun refusal => (problem? given refusal).isSome).map Prod.fst := by
    rw [problemsOf, List.map_filterMap, ← List.filterMap_eq_filter, List.map_filterMap]
    congr 1
    funext refusal
    cases h : (Value.lookup? refusal.1 given).bind refusal.2 <;> simp [problem?, h, Option.guard]
  have hkeys : Entries.keys (refusals maxLimit) = ["page", "limit", "order", "fields", "sort", "query", "document",
    "pagination", "count", "filter", "groupBy", "group_by"] := rfl
  have hnodup : (Entries.keys (refusals maxLimit)).Nodup := by
    rw [hkeys]
    decide
  rw [hnames]
  exact hnodup.sublist (List.filter_sublist.map _)

theorem Rejects.ne_wholeInput {v : Value} (h : Rejects maxLimit name v r) : name ≠ "" ∧ name ≠ wholeInput := by
  obtain ⟨refusal, hmem, -⟩ := h
  simp only [refusals, List.mem_cons, Prod.mk.injEq, List.not_mem_nil, or_false] at hmem
  rcases hmem with ⟨rfl, -⟩ | ⟨rfl, -⟩ | ⟨rfl, -⟩ | ⟨rfl, -⟩ | ⟨rfl, -⟩ | ⟨rfl, -⟩ | ⟨rfl, -⟩ | ⟨rfl, -⟩ |
    ⟨rfl, -⟩ | ⟨rfl, -⟩ | ⟨rfl, -⟩ | ⟨rfl, -⟩ <;> decide

/-! ## The problems of a check -/

theorem problems_checked (given : List (String × Value)) (name : String) (absent : α) (check : Value → Except Rejection α) :
    (checked given name absent check).problems = (problem? given (name, fun v => faultOf? (check v))).toList := by
  unfold checked problem?
  cases Value.lookup? name given with
  | none => rfl
  | some v => exact Checked.problems_ofExcept name (check v)

theorem problems_of_checkedM {absent : α} {check : Value → Except Fault (Except Rejection α)} {x : Checked α}
    (h : checkedM given name absent check = .ok x) :
    x.problems = (problem? given (name, fun v => (check v).toOption.bind faultOf?)).toList := by
  unfold checkedM at h
  unfold problem?
  cases hv : Value.lookup? name given with
  | none =>
    rw [hv] at h
    cases h
    rfl
  | some v =>
    rw [hv] at h
    dsimp only at h
    cases hc : check v with
    | error => rw [hc] at h; cases h
    | ok result =>
      rw [hc] at h
      cases h
      simp [Checked.problems_ofExcept, hc, Except.toOption]

/-- The path to group by is given under one of its names. -/
def OneSpelling (given : List (String × Value)) : Prop :=
  Value.lookup? "groupBy" given = none ∨ Value.lookup? "group_by" given = none

theorem problem?_of_none {refusal : String × (Value → Option Rejection)} (h : Value.lookup? refusal.1 given = none) :
    problem? given refusal = none := by
  rw [problem?, h]
  rfl

theorem problems_groupBy (h : OneSpelling given) : (checked given (groupByName given) none checkGroupBy).problems =
    (problem? given ("groupBy", fun v => faultOf? (checkGroupBy v))).toList ++
      (problem? given ("group_by", fun v => faultOf? (checkGroupBy v))).toList := by
  rw [problems_checked]
  by_cases hshort : Value.lookup? "groupBy" given = none
  · have hname : groupByName given = "group_by" := by simp [groupByName, hshort]
    have hnone : problem? given ("groupBy", fun v => faultOf? (checkGroupBy v)) = none := problem?_of_none hshort
    rw [hname, hnone, Option.toList_none, List.nil_append]
  · have hname : groupByName given = "groupBy" := by simp [groupByName, Option.isSome_iff_ne_none, hshort]
    have hnone : problem? given ("group_by", fun v => faultOf? (checkGroupBy v)) = none :=
      problem?_of_none (h.resolve_left hshort)
    rw [hname, hnone, Option.toList_none, List.append_nil]

/-- **What a check comes to**: the problems of all parameters if there are any, and else what the combination says. -/
theorem check_cases (hspelling : OneSpelling given) {x : Checked Parameters} (h : check maxLimit given = .ok x) :
    problemsOf maxLimit given ≠ [] ∧ x = .invalid (problemsOf maxLimit given) ∨
      problemsOf maxLimit given = [] ∧ ∃ p, checked given "document" false checkFlag = .valid p.document ∧
        (combination? p = none ∧ x = .valid p ∨
          ∃ reason, combination? p = some reason ∧ x = .invalid [⟨"", .refused reason⟩]) := by
  have hexplained := explained_of_check h
  simp only [check, bind_eq_ok_iff] at h
  obtain ⟨limit, hlimit, sort, hsort, h⟩ := h
  have hproblems : (Parameters.mk <$> checked given "page" 1 checkPositive <*> limit <*>
      checked given "order" .desc checkDirection <*> checked given "fields" none checkOptionalText <*> sort <*>
      checked given "query" "" checkText <*> checked given "document" false checkFlag <*>
      checked given "pagination" false checkFlag <*> checked given "count" false checkFlag <*>
      checked given "filter" none checkOptionalText <*>
      checked given (groupByName given) none checkGroupBy).problems = problemsOf maxLimit given := by
    simp only [Checked.problems_seq, Checked.problems_map, problems_groupBy hspelling, problems_checked,
      problems_of_checkedM hlimit, problems_of_checkedM hsort, problemsOf, refusals, List.filterMap_eq_flatMap_toList,
      List.flatMap_cons, List.flatMap_nil, List.append_nil, List.append_assoc]
  split at h
  · rename_i p hp
    rw [hp] at hproblems
    refine .inr ⟨hproblems.symm, p, (mk_eq_valid_iff.1 hp).2.2.2.2.2.2.1, ?_⟩
    split at h
    · rename_i hnone
      exact .inl ⟨hnone, (Except.ok.inj h).symm⟩
    · rename_i reason hreason
      exact .inr ⟨reason, hreason, (Except.ok.inj h).symm⟩
  · rename_i hinvalid
    obtain rfl := Except.ok.inj h
    exact .inl (hproblems ▸ hexplained.invalid hinvalid)

/-! ## The problems of a request -/

/-- The defaults of the settings pass under them. -/
structure DefaultsPass (settings : Settings) : Prop where
  limit : ∃ n, checkLimit settings.maxLimit settings.defaultLimit = .ok (.ok n)
  order : ∃ d, checkDirection settings.defaultOrder = .ok d

/-- A request gives each name once, the path to group by under one of its names, and no sort that is nested deeper than
containers are read. -/
structure Orderly (given : List (String × Value)) : Prop where
  nodup : (Entries.keys given).Nodup
  spelling : ∀ v w, ("groupBy", v) ∈ given → ("group_by", w) ∈ given → v = .null ∨ w = .null
  shallow : ∀ v text, ("sort", v) ∈ given → checkText v = .ok text → Json.nesting text.toList ≤ Json.maxDepth

theorem lookup?_withDefaults_eq_some_iff (hnodup : (Entries.keys given).Nodup) {v : Value} :
    Value.lookup? name (withDefaults settings given) = some v ↔
      (name, v) ∈ given ∧ isGiven (name, v) = true ∨ name ∉ Entries.keys (given.filter isGiven) ∧
        Value.lookup? name [("limit", settings.defaultLimit), ("order", settings.defaultOrder)] = some v := by
  by_cases hgiven : name ∈ Entries.keys (given.filter isGiven)
  · obtain ⟨⟨_, w⟩, hkept, rfl⟩ := List.mem_map.1 hgiven
    obtain ⟨hmem, hw⟩ := List.mem_filter.1 hkept
    rw [lookup?_withDefaults_of_mem hnodup hmem hw]
    constructor
    · rintro ⟨⟩
      exact .inl ⟨hmem, hw⟩
    · rintro (⟨hv, -⟩ | ⟨hnot, -⟩)
      · cases Value.eq_of_mem_of_keys hnodup hmem hv rfl
        rfl
      · exact absurd hgiven hnot
  · rw [withDefaults_eq, Value.lookup?_foldl_insert_of_notMem _ hgiven]
    constructor
    · exact fun h => .inr ⟨hgiven, h⟩
    · rintro (⟨hmem, hv⟩ | ⟨-, h⟩)
      · exact absurd (List.mem_map_of_mem (List.mem_filter.2 ⟨hmem, hv⟩)) hgiven
      · exact h

theorem lookup?_withDefaults_iff_of_ne (hnodup : (Entries.keys given).Nodup) (hlimit : name ≠ "limit")
    (horder : name ≠ "order") {v : Value} :
    Value.lookup? name (withDefaults settings given) = some v ↔ (name, v) ∈ given ∧ isGiven (name, v) = true := by
  rw [lookup?_withDefaults_eq_some_iff hnodup]
  simp [Value.lookup?, Entries.find?, hlimit.symm, horder.symm]

theorem Orderly.oneSpelling (h : Orderly given) : OneSpelling (withDefaults settings given) := by
  by_contra hboth
  obtain ⟨hshort, hlong⟩ := not_or.1 hboth
  obtain ⟨v, hv⟩ := Option.ne_none_iff_exists'.1 hshort
  obtain ⟨w, hw⟩ := Option.ne_none_iff_exists'.1 hlong
  rw [lookup?_withDefaults_iff_of_ne h.nodup (by decide) (by decide)] at hv hw
  obtain rfl | rfl := h.spelling v w hv.1 hw.1
  · cases hv.2
  · cases hw.2

theorem DefaultsPass.not_boundUnfit (h : DefaultsPass settings) : ¬BoundUnfit settings given := by
  rintro ⟨hbound, -⟩
  obtain ⟨n, hn⟩ := h.limit
  cases hdefault : checkPositive settings.defaultLimit with
  | error r => simp [checkLimit, hdefault] at hn
  | ok m =>
    cases hn.symm.trans (checkLimit_eq_error_iff.2 ⟨rfl, hbound, m, hdefault⟩)

theorem Orderly.not_sortTooDeep (h : Orderly given) : ¬SortTooDeep settings given := by
  rintro ⟨v, text, hv, htext, -, hdeep⟩
  rw [lookup?_withDefaults_iff_of_ne h.nodup (by decide) (by decide)] at hv
  exact Nat.not_lt.2 (h.shallow v text hv.1 htext) (Json.lt_nesting_of_tooDeep hdeep)

theorem DefaultsPass.not_rejects (h : DefaultsPass settings) {v : Value}
    (hv : Value.lookup? name [("limit", settings.defaultLimit), ("order", settings.defaultOrder)] = some v) :
    ¬Rejects settings.maxLimit name v r := by
  rintro ⟨refusal, hmem, hr⟩
  simp only [Value.lookup?, Entries.find?, beq_iff_eq] at hv
  split at hv
  · rename_i hname
    obtain ⟨n, hn⟩ := h.limit
    cases hv
    simp [refusals, ← hname] at hmem
    simp [hmem, hn, Except.toOption, faultOf?] at hr
  · split at hv
    · rename_i hname
      obtain ⟨d, hd⟩ := h.order
      cases hv
      simp [refusals, ← hname] at hmem
      simp [hmem, hd, faultOf?] at hr
    · cases hv

def requestProblems (settings : Settings) (given : List (String × Value)) : List Problem :=
  problemsOf settings.maxLimit (withDefaults settings given)

/-- **A request is refused for what it gives**: defaults that pass have no part in the problems. -/
theorem mem_requestProblems_iff (hdefaults : DefaultsPass settings) (hnodup : (Entries.keys given).Nodup) :
    ⟨name, r⟩ ∈ requestProblems settings given ↔
      ∃ v, (name, v) ∈ given ∧ isGiven (name, v) = true ∧ Rejects settings.maxLimit name v r := by
  simp only [requestProblems, mem_problemsOf_iff, lookup?_withDefaults_eq_some_iff hnodup]
  constructor
  · rintro ⟨v, ⟨hmem, hv⟩ | ⟨-, hdefault⟩, hr⟩
    · exact ⟨v, hmem, hv, hr⟩
    · exact absurd hr (hdefaults.not_rejects hdefault)
  · rintro ⟨v, hmem, hv, hr⟩
    exact ⟨v, .inl ⟨hmem, hv⟩, hr⟩

theorem messagesOf_requestProblems (settings : Settings) (given : List (String × Value)) :
    messagesOf (requestProblems settings given) =
      (requestProblems settings given).map fun p => (p.parameter, [p.rejection.message]) := by
  refine List.map_congr_left fun p hp => ?_
  obtain ⟨v, -, hr⟩ := mem_problemsOf_iff.1 hp
  rw [if_neg hr.ne_wholeInput.1]

theorem ofRequest_cases (hdefaults : DefaultsPass settings) (horderly : Orderly given) :
    requestProblems settings given ≠ [] ∧ ofRequest settings given =
        .error (.query (.parameters ((requestProblems settings given).map fun p => (p.parameter, [p.rejection.message])))) ∨
      requestProblems settings given = [] ∧
        ∃ p, checked (withDefaults settings given) "document" false checkFlag = .valid p.document ∧
          (ofRequest settings given = .ok p ∨ ∃ reason, combination? p = some reason ∧
            ofRequest settings given =
              .error (.query (.parameters [(wholeInput, [(Rejection.refused reason).message])]))) := by
  obtain ⟨x, hx⟩ := exists_check_eq_ok hdefaults.not_boundUnfit horderly.not_sortTooDeep
  have houtcome : ofRequest settings given = x.toExcept fun problems => .query (.parameters (messagesOf problems)) := by
    rw [ofRequest, hx, ok_bind]
  rw [houtcome, ← messagesOf_requestProblems]
  obtain ⟨hne, rfl⟩ | ⟨hnil, p, hdocument, ⟨-, rfl⟩ | ⟨reason, hreason, rfl⟩⟩ := check_cases horderly.oneSpelling hx
  · exact .inl ⟨hne, rfl⟩
  · exact .inr ⟨hnil, p, hdocument, .inl rfl⟩
  · exact .inr ⟨hnil, p, hdocument, .inr ⟨reason, hreason, rfl⟩⟩

/-! ## Parameters alone -/

/-- A parameter alone, in a request for the document; the document itself is given alone. -/
def alone (name : String) (v : Value) : List (String × Value) :=
  if name = "document" then [(name, v)] else [("document", .bool true), (name, v)]

/-- A request is refused with these texts under a name. -/
def Names (settings : Settings) (given : List (String × Value)) (name : String) (texts : List String) : Prop :=
  ∃ messages, ofRequest settings given = .error (.query (.parameters messages)) ∧ (name, texts) ∈ messages

theorem mem_alone_iff {other : String} {v w : Value} : (other, w) ∈ alone name v ↔
    other = name ∧ w = v ∨ name ≠ "document" ∧ other = "document" ∧ w = .bool true := by
  unfold alone
  split
  · rename_i hname
    simp [hname]
  · rename_i hname
    simp [hname, or_comm]

theorem mem_alone_self_iff {v w : Value} : (name, w) ∈ alone name v ↔ w = v := by
  rw [mem_alone_iff]
  constructor
  · rintro (⟨-, rfl⟩ | ⟨hname, hdocument, -⟩)
    · rfl
    · exact absurd hdocument hname
  · rintro rfl
    exact .inl ⟨rfl, rfl⟩

theorem Orderly.alone (h : Orderly given) {v : Value} (hmem : (name, v) ∈ given) : Orderly (alone name v) := by
  constructor
  case nodup =>
    unfold Parameters.alone
    split
    · simp [Entries.keys]
    · rename_i hname
      simp [Entries.keys, Ne.symm hname]
  case spelling =>
    intro _ _ hshort hlong
    rw [mem_alone_iff] at hshort hlong
    simp only [String.reduceEq, false_and, and_false, or_false] at hshort hlong
    exact absurd (hshort.1.trans hlong.1.symm) (by decide)
  case shallow =>
    intro w text hsort
    rw [mem_alone_iff] at hsort
    simp only [String.reduceEq, false_and, and_false, or_false] at hsort
    obtain ⟨rfl, rfl⟩ := hsort
    exact h.shallow w text hmem

theorem not_rejects_document : ¬Rejects maxLimit "document" (.bool true) r := by
  rintro ⟨refusal, hmem, hr⟩
  simp [refusals] at hmem
  simp [hmem, checkFlag, faultOf?] at hr

theorem combination?_of_document {p : Parameters} (h : p.document = true) : combination? p = none := by
  simp [combination?, h]

/-- **What becomes of a parameter alone**: it is accepted, or refused with one message under its own name.  Only the flag of
the document can be refused for the combination. -/
theorem ofRequest_alone (hdefaults : DefaultsPass settings) (horderly : Orderly given) {v : Value}
    (hmem : (name, v) ∈ given) : (∃ p, ofRequest settings (alone name v) = .ok p) ∨
      (∃ r, Rejects settings.maxLimit name v r ∧
        ofRequest settings (alone name v) = .error (.query (.parameters [(name, [r.message])]))) ∨
      name = "document" ∧ ∃ reason, ofRequest settings (alone name v) =
        .error (.query (.parameters [(wholeInput, [(Rejection.refused reason).message])])) := by
  have halone := horderly.alone hmem
  obtain ⟨hne, hrequest⟩ | ⟨-, p, hdocument, haccepted | ⟨reason, hreason, hrequest⟩⟩ := ofRequest_cases hdefaults halone
  · refine .inr (.inl ?_)
    have hown : ∀ p ∈ requestProblems settings (alone name v),
        p.parameter = name ∧ Rejects settings.maxLimit name v p.rejection := by
      rintro ⟨other, r⟩ hp
      obtain ⟨w, hw, -, hr⟩ := (mem_requestProblems_iff hdefaults halone.nodup).1 hp
      obtain ⟨rfl, rfl⟩ | ⟨-, rfl, rfl⟩ := mem_alone_iff.1 hw
      · exact ⟨rfl, hr⟩
      · exact absurd hr not_rejects_document
    -- all problems are about one name, and no name has two of them
    have hnames : (requestProblems settings (alone name v)).map Problem.parameter =
        List.replicate (requestProblems settings (alone name v)).length name := by
      rw [List.eq_replicate_iff, List.length_map]
      refine ⟨rfl, fun other hother => ?_⟩
      obtain ⟨p, hp, rfl⟩ := List.mem_map.1 hother
      exact (hown p hp).1
    have hnodup := nodup_problemsOf settings.maxLimit (withDefaults settings (alone name v))
    rw [← requestProblems, hnames, List.nodup_replicate] at hnodup
    obtain ⟨problem, hproblem⟩ := List.length_eq_one_iff.1 (Nat.le_antisymm hnodup (List.length_pos_iff.2 hne))
    obtain ⟨rfl, hr⟩ := hown problem (hproblem ▸ List.mem_singleton_self problem)
    exact ⟨problem.rejection, hr, by rw [hrequest, hproblem]; rfl⟩
  · exact .inl ⟨p, haccepted⟩
  · refine .inr (.inr ⟨?_, reason, hrequest⟩)
    by_contra hname
    have hgiven : Value.lookup? "document" (withDefaults settings (alone name v)) = some (.bool true) :=
      lookup?_withDefaults_of_mem halone.nodup (mem_alone_iff.2 (.inr ⟨hname, rfl, rfl⟩)) rfl
    have htrue : checked (withDefaults settings (alone name v)) "document" false checkFlag = .valid true :=
      checked_of_lookup? hgiven rfl
    rw [htrue, Checked.valid.injEq] at hdocument
    cases (combination?_of_document hdocument.symm).symm.trans hreason

theorem names_iff (hdefaults : DefaultsPass settings) (horderly : Orderly given) (hname : name ≠ wholeInput)
    {texts : List String} :
    Names settings given name texts ↔ ∃ r, ⟨name, r⟩ ∈ requestProblems settings given ∧ texts = [r.message] := by
  obtain ⟨-, hrequest⟩ | ⟨hnil, p, -, hrequest | ⟨reason, -, hrequest⟩⟩ := ofRequest_cases hdefaults horderly
  · simp only [Names, hrequest, Except.error.injEq, Fault.query.injEq, QueryError.parameters.injEq, exists_eq_left',
      List.mem_map, Prod.mk.injEq]
    constructor
    · rintro ⟨⟨_, r⟩, hp, rfl, rfl⟩
      exact ⟨r, hp, rfl⟩
    · rintro ⟨r, hp, rfl⟩
      exact ⟨⟨name, r⟩, hp, rfl, rfl⟩
  · simp [Names, hrequest, hnil]
  · simp [Names, hrequest, hnil, hname]

theorem names_alone_iff (hdefaults : DefaultsPass settings) (horderly : Orderly given) {v : Value} (hmem : (name, v) ∈ given)
    {texts : List String} : Names settings (alone name v) name texts ↔
      ∃ r, (isGiven (name, v) = true ∧ Rejects settings.maxLimit name v r) ∧ texts = [r.message] := by
  by_cases hname : name = wholeInput
  · -- there is no check under the name of the whole request, and next to a document nothing else is amiss
    subst hname
    constructor
    · rintro ⟨messages, hmessages, -⟩
      obtain ⟨p, haccepted⟩ | ⟨r, hr, -⟩ | ⟨hdocument, -⟩ := ofRequest_alone hdefaults horderly hmem
      · cases hmessages.symm.trans haccepted
      · exact absurd rfl hr.ne_wholeInput.2
      · exact absurd hdocument (by decide)
    · rintro ⟨r, ⟨-, hr⟩, -⟩
      exact absurd rfl hr.ne_wholeInput.2
  · have halone := horderly.alone hmem
    simp only [names_iff hdefaults halone hname, mem_requestProblems_iff hdefaults halone.nodup, mem_alone_self_iff,
      exists_eq_left]

/-- **Parameters are refused one by one**, whatever else the request gives.  A parameter fails if the messages name it.
A flag of the document that is false does not fail: alone it is refused for the combination, which names no
parameter. -/
structure Independent (settings : Settings) (given : List (String × Value)) : Prop where
  reported : (∃ p, ofRequest settings given = .ok p) ∨ ∃ messages, messages ≠ [] ∧ (messages.map Prod.fst).Nodup ∧
    ofRequest settings given = .error (.query (.parameters messages))
  named_iff : ∀ name texts, name ≠ wholeInput →
    (Names settings given name texts ↔ ∃ v, (name, v) ∈ given ∧ Names settings (alone name v) name texts)
  alone_reported : ∀ name v, (name, v) ∈ given → (∃ p, ofRequest settings (alone name v) = .ok p) ∨
    ∃ text, ofRequest settings (alone name v) = .error (.query (.parameters [(name, [text])])) ∨
      name = "document" ∧ ofRequest settings (alone name v) = .error (.query (.parameters [(wholeInput, [text])]))
  whole : ∀ texts, Names settings given wholeInput texts →
    ofRequest settings given = .error (.query (.parameters [(wholeInput, texts)])) ∧
      ∀ name v others, (name, v) ∈ given → ¬Names settings (alone name v) name others

/-- **Which parameters a request is refused for** is seen from each of them alone, with the same messages. -/
theorem ofRequest_independent (hdefaults : DefaultsPass settings) (horderly : Orderly given) :
    Independent settings given := by
  have hcases := ofRequest_cases hdefaults horderly
  constructor
  case reported =>
    obtain ⟨hne, hrequest⟩ | ⟨-, p, -, haccepted | ⟨reason, -, hrequest⟩⟩ := hcases
    · refine .inr ⟨_, fun hnil => hne (List.map_eq_nil_iff.1 hnil), ?_, hrequest⟩
      rw [List.map_map]
      exact nodup_problemsOf settings.maxLimit (withDefaults settings given)
    · exact .inl ⟨p, haccepted⟩
    · refine .inr ⟨_, List.cons_ne_nil _ _, ?_, hrequest⟩
      exact List.nodup_singleton wholeInput
  case named_iff =>
    intro name texts hname
    rw [names_iff hdefaults horderly hname]
    simp only [mem_requestProblems_iff hdefaults horderly.nodup]
    constructor
    · rintro ⟨r, ⟨v, hmem, hv⟩, htexts⟩
      exact ⟨v, hmem, (names_alone_iff hdefaults horderly hmem).2 ⟨r, hv, htexts⟩⟩
    · rintro ⟨v, hmem, hnames⟩
      obtain ⟨r, hv, htexts⟩ := (names_alone_iff hdefaults horderly hmem).1 hnames
      exact ⟨r, ⟨v, hmem, hv⟩, htexts⟩
  case alone_reported =>
    intro name v hmem
    obtain haccepted | ⟨r, -, hrequest⟩ | ⟨hname, reason, hrequest⟩ := ofRequest_alone hdefaults horderly hmem
    · exact .inl haccepted
    · exact .inr ⟨_, .inl hrequest⟩
    · exact .inr ⟨_, .inr ⟨hname, hrequest⟩⟩
  case whole =>
    rintro texts ⟨messages, hmessages, hwhole⟩
    obtain ⟨-, hrequest⟩ | ⟨hnil, p, -, haccepted | ⟨reason, -, hrequest⟩⟩ := hcases
    · -- problems are about parameters, and no parameter has the name of the whole request
      cases hmessages.symm.trans hrequest
      obtain ⟨⟨_, r⟩, hp, heq⟩ := List.mem_map.1 hwhole
      cases heq
      obtain ⟨v, -, hr⟩ := mem_problemsOf_iff.1 hp
      exact absurd rfl hr.ne_wholeInput.2
    · cases hmessages.symm.trans haccepted
    · cases hmessages.symm.trans hrequest
      cases List.mem_singleton.1 hwhole
      refine ⟨hrequest, fun name v others hmem hnames => ?_⟩
      obtain ⟨r, hv, -⟩ := (names_alone_iff hdefaults horderly hmem).1 hnames
      have hproblem : ⟨name, r⟩ ∈ requestProblems settings given :=
        (mem_requestProblems_iff hdefaults horderly.nodup).2 ⟨v, hmem, hv⟩
      rw [hnil] at hproblem
      cases hproblem

/-- Three of these values are no values of their parameters. -/
def muddledRequest : List (String × Value) :=
  [("page", .str "0"), ("limit", .int 51), ("document", .str "yes"), ("pagination", .bool true), ("group_by", .str "vendor")]

/-- What is wrong with the combination goes unsaid next to a limit above the bound and a flag that is no flag. -/
theorem ofRequest_independent_muddled :
    DefaultsPass Endpoint.shelfSettings ∧ Orderly muddledRequest ∧
      Names Endpoint.shelfSettings muddledRequest "page" ["Input should be greater than or equal to 1"] ∧
      Names Endpoint.shelfSettings muddledRequest "limit" ["Value error, must not exceed 50"] ∧
      Names Endpoint.shelfSettings muddledRequest "document" ["Value error, must be 'true' or 'false'"] ∧
      (∀ texts, ¬Names Endpoint.shelfSettings muddledRequest "group_by" texts) ∧
      ∀ texts, ¬Names Endpoint.shelfSettings muddledRequest wholeInput texts := by
  have hdefaults : DefaultsPass Endpoint.shelfSettings := ⟨⟨20, rfl⟩, ⟨.desc, rfl⟩⟩
  have horderly : Orderly muddledRequest :=
    ⟨by decide, by simp [muddledRequest], by simp [muddledRequest]⟩
  have h := ofRequest_independent hdefaults horderly
  have hlimit : Names Endpoint.shelfSettings (alone "limit" (.int 51)) "limit" ["Value error, must not exceed 50"] :=
    ⟨_, rfl, List.mem_singleton_self _⟩
  refine ⟨hdefaults, horderly, ?_, ?_, ?_, ?_, ?_⟩
  · exact (h.named_iff _ _ (by decide)).2 ⟨.str "0", by simp [muddledRequest], _, rfl, List.mem_singleton_self _⟩
  · exact (h.named_iff _ _ (by decide)).2 ⟨.int 51, by simp [muddledRequest], hlimit⟩
  · exact (h.named_iff _ _ (by decide)).2 ⟨.str "yes", by simp [muddledRequest], _, rfl, List.mem_singleton_self _⟩
  · rintro texts hnames
    obtain ⟨v, hmem, messages, hmessages, -⟩ := (h.named_iff _ _ (by decide)).1 hnames
    obtain rfl : v = .str "vendor" := by simpa [muddledRequest] using hmem
    cases hmessages
  · exact fun texts hwhole => (h.whole texts hwhole).2 "limit" (.int 51) _ (by simp [muddledRequest]) hlimit

end Parameters
end ListQuery
