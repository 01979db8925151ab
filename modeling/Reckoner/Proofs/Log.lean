import Reckoner.Proofs.SessionMoves
import Reckoner.Proofs.Unquoting

/-!
# The log

The log keeps the level, the source and the wording of every event. An evaluation takes one of four
courses, and the log tells which: its terms are refused, they cannot be put into postfix order, they are
put into that order and worked off, or the leftover values are multiplied too. A warning is logged exactly
if the terms are refused, so the warnings of a session count its plainly invalid texts; a remembered value
is served with a single record, which is no warning.
-/

namespace Reckoner

/-- An event as the log keeps it. -/
structure Record where
  level : Level
  source : Source
  message : String
deriving DecidableEq

/-- The record of an event. -/
def Event.record (event : Event) : Record :=
  ⟨event.level, event.source, event.message⟩

/-- The log of events. -/
def log (events : List Event) : List Record :=
  events.map Event.record

/-- A record of a detail, from a part of the program and with the start of its message. -/
structure Record.IsDetail (r : Record) (source : Source) (start : String) : Prop where
  level_eq : r.level = .debug
  source_eq : r.source = source
  starts : start.toList <+: r.message.toList

/-- A warning of the evaluation. -/
structure Record.IsWarning (r : Record) : Prop where
  level_eq : r.level = .warning
  source_eq : r.source = .evaluation

/-- A detail is no warning. -/
theorem Record.IsDetail.not_isWarning {r : Record} {source : Source} {start : String}
    (h : r.IsDetail source start) : ¬ r.IsWarning := fun hwarning =>
  absurd (h.level_eq.symm.trans hwarning.level_eq) (by decide)

/-- A debug event is recorded as a detail, with any start of its message. -/
theorem isDetail_record {event : Event} {source : Source} {start : String} (rest : String)
    (hlevel : event.level = .debug) (hsource : event.source = source)
    (hmessage : event.message = start ++ rest) : event.record.IsDetail source start where
  level_eq := hlevel
  source_eq := hsource
  starts := ⟨rest.toList, by rw [Event.record, hmessage, String.toList_append]⟩

/-- The record of the terms in infix order. -/
theorem isDetail_infixOrder (terms : List Term) :
    (Event.infixOrder terms).record.IsDetail .evaluation "Infix: " :=
  isDetail_record (Term.displayAll terms) rfl rfl rfl

/-- The record of the terms in postfix order. -/
theorem isDetail_postfixOrder (terms : List Term) :
    (Event.postfixOrder terms).record.IsDetail .evaluation "Postfix: " :=
  isDetail_record (Term.displayAll terms) rfl rfl rfl

/-- The record of a product states the number of its factors. -/
theorem isDetail_leftoverProduct (count : Nat) (terms : List Term) :
    (Event.leftoverProduct count terms).record.IsDetail .reduction
      ("Partial expression with " ++ toString count ++ " stack elements") := by
  refine isDetail_record (", multiplying them: " ++ Term.displayAll terms) rfl rfl ?_
  have hsplit : " stack elements, multiplying them: " =
      " stack elements" ++ ", multiplying them: " := rfl
  change "Partial expression with " ++ toString count ++ " stack elements, multiplying them: " ++
    Term.displayAll terms = _
  rw [hsplit]
  simp only [String.append_assoc]

/-- A message states a single number. -/
theorem count_unique {message : List Char} {m n : Nat}
    (hm : ("Partial expression with " ++ toString m ++ " stack elements").toList <+: message)
    (hn : ("Partial expression with " ++ toString n ++ " stack elements").toList <+: message) :
    m = n := by
  have hstated {n : Nat}
      (h : ("Partial expression with " ++ toString n ++ " stack elements").toList <+: message) :
      (message.drop 24).takeWhile Char.isDigit = Nat.toDigits 10 n := by
    obtain ⟨rest, rfl⟩ := h
    rw [String.toList_append, String.toList_append, Nat.toString_eq_repr, Nat.toList_repr,
      List.append_assoc, List.append_assoc]
    have hblank : " stack elements".toList = ' ' :: "stack elements".toList := rfl
    have hdrop (digits : List Char) :
        ("Partial expression with ".toList ++ digits).drop 24 = digits := by
      rw [List.drop_left']
      rfl
    rw [hdrop, hblank]
    exact takeWhile_append_cons isDigit_of_mem_toDigits rfl _
  calc m = Nat.ofDigitChars 10 (Nat.toDigits 10 m) 0 := Nat.ofDigitChars_ten_toDigits.symm
    _ = Nat.ofDigitChars 10 (Nat.toDigits 10 n) 0 := by rw [← hstated hm, hstated hn]
    _ = n := Nat.ofDigitChars_ten_toDigits

/-- A sequence in postfix order is not refused for a closing parenthesis. -/
theorem message_ne_of_reduce_error {allowPartial : Bool} {terms : List Term} {fault : Fault}
    (h : reduce allowPartial terms = .error fault) :
    fault.message ≠ "Unmatched closing parenthesis" := by
  rcases bind_eq_error_iff.mp h with hleft | ⟨values, _, hsettle⟩
  · rcases bind_eq_error_iff.mp hleft with hrun | ⟨stack, _, hvalues⟩
    · obtain ⟨first, t, rest, stack, rfl, _, hstep⟩ := exists_step_of_foldlM_error hrun
      rcases reduceStep_eq_error hstep with ⟨_, _, rfl⟩ | ⟨_, _, rfl⟩ | ⟨_, _, rfl⟩ | ⟨_, _, _, rfl⟩
      · exact append_ne_of_not_start (by decide)
      · change "Unexpected term " ++ Text.quote t.text ++ " in postfix sequence" ≠ _
        rw [String.append_assoc]
        exact append_ne_of_not_start (by decide)
      · exact append_ne_of_not_start (by decide)
      · exact append_ne_of_not_start (by decide)
    · cases hvalues
  · match values with
    | [] =>
      cases hsettle
      decide
    | [_] => cases hsettle
    | first :: second :: rest =>
      cases allowPartial with
      | true => cases hsettle
      | false =>
        cases hsettle
        exact message_leftover_ne (by decide)

/-- Whether a reply refuses a plainly invalid text. -/
def Reply.isInvalid (reply : Reply) : Bool :=
  match reply.result with
  | some (.error r) => r.kind = .invalid
  | _ => false

/-- The courses that an evaluation can take. A refusal may be explained or not, and the leftover values
that are multiplied are counted. -/
inductive Course where
  | refused (explained : Bool)
  | unordered
  | workedOff
  | multiplied (count : Nat)

namespace Course

/-- Whether the terms are refused. -/
def isRefusal : Course → Bool
  | .refused _ => true
  | _ => false

/-- The logs of a course. -/
inductive Logs : Course → List Record → Prop
  | refused {warning : Record} (hwarning : warning.IsWarning) : Logs (.refused false) [warning]
  | explained {reason warning : Record} (hreason : reason.IsDetail .terms "")
      (hwarning : warning.IsWarning) : Logs (.refused true) [reason, warning]
  | unordered {terms : Record} (hterms : terms.IsDetail .evaluation "Infix: ") :
      Logs .unordered [terms]
  | workedOff {terms ordered : Record} (hterms : terms.IsDetail .evaluation "Infix: ")
      (hordered : ordered.IsDetail .evaluation "Postfix: ") : Logs .workedOff [terms, ordered]
  | multiplied {terms ordered product : Record} {count : Nat} (hcount : 2 ≤ count)
      (hterms : terms.IsDetail .evaluation "Infix: ")
      (hordered : ordered.IsDetail .evaluation "Postfix: ")
      (hproduct : product.IsDetail .reduction
        ("Partial expression with " ++ toString count ++ " stack elements")) :
      Logs (.multiplied count) [terms, ordered, product]

/-- How the evaluation of a text ends after a course. -/
def Ends (options : Options) (text : String) : Course → Prop
  | .refused explained =>
    (evaluate options text).result = .error ⟨.invalid, "Invalid Expression", some text⟩ ∧
      (explained = false ↔ (∀ t ∈ scan text, t.Admissible) ∧
        openingCount (scan text) ≠ closingCount (scan text) ∧
        (options.strictNesting = true → ¬ ClosesUnopened 0 (scan text)))
  | .unordered =>
    (evaluate options text).result =
      .error ⟨.malformed, "Unmatched closing parenthesis", some text⟩
  | .workedOff => ∃ ordered, toPostfix (scan text) = .ok ordered ∧
      ((∃ value, leftovers ordered = .ok [value] ∧ (evaluate options text).result = .ok value) ∨
        ∃ fault, reduce options.allowPartial ordered = .error fault ∧
          (evaluate options text).result = .error ⟨.malformed, fault.message, some text⟩)
  | .multiplied count => 2 ≤ count ∧ ∃ ordered values, toPostfix (scan text) = .ok ordered ∧
      leftovers ordered = .ok values ∧ values.length = count ∧
        (evaluate options text).result = .ok (Binary64.product values)

/-- A log is of one course. -/
theorem Logs.unique {c c' : Course} {records : List Record} (h : c.Logs records)
    (h' : c'.Logs records) : c = c' := by
  cases h with
  | refused hwarning =>
    cases h' with
    | refused _ => rfl
    | unordered hterms => exact absurd hwarning hterms.not_isWarning
  | explained hreason hwarning =>
    cases h' with
    | explained _ _ => rfl
    | workedOff _ hordered => exact absurd hwarning hordered.not_isWarning
  | unordered hterms =>
    cases h' with
    | refused hwarning => exact absurd hwarning hterms.not_isWarning
    | unordered _ => rfl
  | workedOff _ hordered =>
    cases h' with
    | explained _ hwarning => exact absurd hwarning hordered.not_isWarning
    | workedOff _ _ => rfl
  | multiplied _ _ _ hproduct =>
    cases h' with
    | multiplied _ _ _ hproduct' =>
      rw [count_unique hproduct.starts hproduct'.starts]

/-- The course that a result tells, together with the leftover values. -/
def ofResult (options : Options) (text : String) : Course :=
  match (evaluate options text).result with
  | .error r =>
    if r.kind = .invalid then
      .refused (objection? options.strictNesting (scan text) ≠ some .unequalCounts)
    else if r.message = "Unmatched closing parenthesis" then .unordered
    else .workedOff
  | .ok _ =>
    match toPostfix (scan text) >>= leftovers with
    | .ok (first :: second :: rest) => .multiplied (first :: second :: rest).length
    | _ => .workedOff

/-- How an evaluation ends tells its course. -/
theorem Ends.eq_ofResult {options : Options} {text : String} {c : Course}
    (h : c.Ends options text) : c = ofResult options text := by
  cases c with
  | refused explained =>
    obtain ⟨hresult, hexplained⟩ := h
    rw [ofResult, hresult]
    rw [← objection?_eq_unequalCounts_iff] at hexplained
    cases explained <;> simp_all
  | unordered =>
    rw [ofResult, show (evaluate options text).result = _ from h]
    rfl
  | workedOff =>
    obtain ⟨ordered, hordered, ⟨value, hvalues, hresult⟩ | ⟨fault, hfault, hresult⟩⟩ := h
    · rw [ofResult, hresult, bind_eq_ok_iff.mpr ⟨ordered, hordered, hvalues⟩]
    · rw [ofResult, hresult]
      simp [message_ne_of_reduce_error hfault]
  | multiplied count =>
    obtain ⟨hcount, ordered, values, hordered, hvalues, hlength, hresult⟩ := h
    rw [ofResult, hresult, bind_eq_ok_iff.mpr ⟨ordered, hordered, hvalues⟩]
    match values, hlength with
    | [], hlength => exact absurd hlength (by simp; omega)
    | [_], hlength => exact absurd hlength (by simp; omega)
    | first :: second :: rest, hlength => rw [← hlength]

section Stages

variable {options : Options} {text : String}

/-- A text that raises an objection takes the course of a refusal. -/
theorem course_of_objection {objection : Objection}
    (h : objection? options.strictNesting (scan text) = some objection) :
    ∃ c : Course, c.Logs (log (evaluate options text).events) ∧ c.Ends options text := by
  have hevents : (evaluate options text).events =
      objection.events ++ [.invalidExpression text] := by
    unfold evaluate
    simp only [h]
  have hresult := evaluate_of_objection (by rw [h]; exact Option.some_ne_none objection)
  have hwarning : (Event.invalidExpression text).record.IsWarning := ⟨rfl, rfl⟩
  have hsilent : objection = .unequalCounts ↔ (∀ t ∈ scan text, t.Admissible) ∧
      openingCount (scan text) ≠ closingCount (scan text) ∧
      (options.strictNesting = true → ¬ ClosesUnopened 0 (scan text)) := by
    rw [← objection?_eq_unequalCounts_iff, h, Option.some.injEq]
  rw [hevents]
  cases objection with
  | strayClosing | invalidTerm =>
    exact ⟨.refused true, .explained (isDetail_record _ rfl rfl (String.empty_append).symm) hwarning,
      hresult, iff_of_false (by decide) (fun hcounts => nomatch hsilent.mpr hcounts)⟩
  | unequalCounts =>
    exact ⟨.refused false, .refused hwarning, hresult, iff_of_true rfl (hsilent.mp rfl)⟩

/-- A valid text that cannot be put into postfix order is refused for a closing parenthesis. -/
theorem course_of_toPostfix_error {fault : Fault}
    (hvalid : objection? options.strictNesting (scan text) = none)
    (h : toPostfix (scan text) = .error fault) :
    ∃ c : Course, c.Logs (log (evaluate options text).events) ∧ c.Ends options text := by
  have hevents : (evaluate options text).events = [.infixOrder (scan text)] := by
    unfold evaluate
    simp only [hvalid, h]
  have hresult := evaluate_of_valid hvalid
  obtain ⟨hterms, hcount, -⟩ := objection?_eq_none_iff.mp hvalid
  rcases toPostfix_eq_error hterms h with ⟨rfl, -⟩ | ⟨-, -, hlt⟩
  · rw [h] at hresult
    rw [hevents]
    exact ⟨.unordered, .unordered (isDetail_infixOrder _), hresult⟩
  · omega

variable {ordered : List Term} (hvalid : objection? options.strictNesting (scan text) = none)
  (hordered : toPostfix (scan text) = .ok ordered)

include hvalid hordered

/-- A postfix order that cannot be worked off is logged all the same. -/
theorem course_of_reduce_error {fault : Fault} (h : reduce options.allowPartial ordered = .error fault) :
    ∃ c : Course, c.Logs (log (evaluate options text).events) ∧ c.Ends options text := by
  have hevents : (evaluate options text).events =
      [.infixOrder (scan text), .postfixOrder ordered] := by
    unfold evaluate
    simp only [hvalid, hordered, h]
  have hfault : (toPostfix (scan text) >>= reduce options.allowPartial) = .error fault :=
    bind_eq_error_iff.mpr (.inr ⟨ordered, hordered, h⟩)
  have hresult := evaluate_of_valid hvalid
  rw [hfault] at hresult
  dsimp only at hresult
  rw [about_rejection_of_malformed (occurs_of_error hvalid hfault).kind_eq] at hresult
  rw [hevents]
  exact ⟨.workedOff, .workedOff (isDetail_infixOrder _) (isDetail_postfixOrder _),
    ordered, hordered, .inr ⟨fault, h, hresult⟩⟩

/-- After the postfix order a single value adds no record, and a product adds one. -/
theorem course_of_answer {answer : Answer} (h : reduce options.allowPartial ordered = .ok answer) :
    ∃ c : Course, c.Logs (log (evaluate options text).events) ∧ c.Ends options text := by
  have hevents : (evaluate options text).events =
      [.infixOrder (scan text), .postfixOrder ordered] ++ answer.events ordered := by
    unfold evaluate
    simp only [hvalid, hordered, h]
  have hresult := evaluate_of_valid hvalid
  rw [bind_eq_ok_iff.mpr ⟨ordered, hordered, h⟩] at hresult
  obtain ⟨values, hvalues, hsettle⟩ := bind_eq_ok_iff.mp h
  rw [hevents]
  match values with
  | [] => cases hsettle
  | [value] =>
    cases hsettle
    exact ⟨.workedOff, .workedOff (isDetail_infixOrder _) (isDetail_postfixOrder _),
      ordered, hordered, .inl ⟨value, hvalues, hresult⟩⟩
  | first :: second :: rest =>
    cases hpartial : options.allowPartial with
    | false =>
      rw [hpartial] at hsettle
      cases hsettle
    | true =>
      rw [hpartial] at hsettle
      cases hsettle
      have hcount : 2 ≤ (first :: second :: rest).length := by simp
      exact ⟨.multiplied _, .multiplied hcount (isDetail_infixOrder _) (isDetail_postfixOrder _)
        (isDetail_leftoverProduct _ _), hcount, ordered, _, hordered, hvalues, rfl, hresult⟩

end Stages

/-- An evaluation takes a course, which its log and its end tell. -/
theorem exists_course (options : Options) (text : String) :
    ∃ c : Course, c.Logs (log (evaluate options text).events) ∧ c.Ends options text := by
  cases hvalid : objection? options.strictNesting (scan text) with
  | some objection => exact course_of_objection hvalid
  | none =>
    cases hordered : toPostfix (scan text) with
    | error fault => exact course_of_toPostfix_error hvalid hordered
    | ok ordered =>
      cases hanswer : reduce options.allowPartial ordered with
      | error fault => exact course_of_reduce_error hvalid hordered hanswer
      | ok answer => exact course_of_answer hvalid hordered hanswer

/-- The log is of a course exactly if the evaluation ends after that course. -/
theorem logs_iff_ends {options : Options} {text : String} {c : Course} :
    c.Logs (log (evaluate options text).events) ↔ c.Ends options text := by
  obtain ⟨course, hlogs, hends⟩ := exists_course options text
  constructor
  · intro h
    rw [h.unique hlogs]
    exact hends
  · intro h
    rw [h.eq_ofResult, ← hends.eq_ofResult]
    exact hlogs

/-- Under strict nesting no valid text closes a group that is not open. -/
theorem Ends.strictNesting_eq_false {options : Options} {text : String}
    (h : Ends options text .unordered) : options.strictNesting = false := by
  have hresult : (evaluate options text).result =
      .error ⟨.malformed, "Unmatched closing parenthesis", some text⟩ := h
  by_cases hvalid : objection? options.strictNesting (scan text) = none
  · obtain ⟨fault, hoccurs, heq⟩ := exists_occurs_of_evaluate_error hvalid hresult
    have hmessage : fault.message = "Unmatched closing parenthesis" :=
      (congrArg Rejection.message heq).symm
    cases hoccurs with
    | unmatchedClosing hstrict => exact hstrict
    | missingOperands op => cases op <;> exact absurd hmessage (by decide)
    | emptyStack => exact absurd hmessage (by decide)
    | leftover _ _ => exact absurd hmessage (message_leftover_ne (by decide))
  · rw [evaluate_of_objection hvalid] at hresult
    cases hresult

/-- A log warns once if its course is a refusal, and else not at all. -/
theorem Logs.countP_warning {c : Course} {records : List Record} (h : c.Logs records) :
    records.countP (·.level = .warning) = c.isRefusal.toNat := by
  cases h with
  | refused hwarning => simp [hwarning.level_eq, isRefusal]
  | explained hreason hwarning => simp [hreason.level_eq, hwarning.level_eq, isRefusal]
  | unordered hterms => simp [hterms.level_eq, isRefusal]
  | workedOff hterms hordered => simp [hterms.level_eq, hordered.level_eq, isRefusal]
  | multiplied _ hterms hordered hproduct =>
    simp [hterms.level_eq, hordered.level_eq, hproduct.level_eq, isRefusal]

/-- A plainly invalid text is one whose course is a refusal. -/
theorem Ends.isInvalid {options : Options} {text : String} {c : Course}
    (h : c.Ends options text) (events : List Event) :
    (Reply.mk (some (evaluate options text).result) events).isInvalid = c.isRefusal := by
  cases c with
  | refused explained =>
    rw [Reply.isInvalid, h.1]
    rfl
  | unordered =>
    rw [Reply.isInvalid, show (evaluate options text).result = _ from h]
    rfl
  | workedOff =>
    obtain ⟨_, _, ⟨_, _, hresult⟩ | ⟨_, _, hresult⟩⟩ := h <;> rw [Reply.isInvalid, hresult] <;> rfl
  | multiplied count =>
    obtain ⟨_, _, _, _, _, _, hresult⟩ := h
    rw [Reply.isInvalid, hresult]
    rfl

end Course

/-- An evaluation warns once if it refuses a plainly invalid text, and else not at all. -/
theorem countP_warning_evaluate (options : Options) (text : String) :
    (log (evaluate options text).events).countP (·.level = .warning) =
      (Reply.mk (some (evaluate options text).result)
        (evaluate options text).events).isInvalid.toNat := by
  obtain ⟨course, hlogs, hends⟩ := Course.exists_course options text
  rw [hlogs.countP_warning, hends.isInvalid]

/-- A request warns once if it is refused as plainly invalid, and else not at all. -/
theorem Session.Move.countP_warning {settings : Settings} {session next : Session} {step : Step}
    {reply : Reply} (h : Move settings session step next reply) :
    (log reply.events).countP (·.level = .warning) = reply.isInvalid.toNat := by
  cases h with
  | disabled _ => exact countP_warning_evaluate _ _
  | failure _ _ hresult =>
    rw [← hresult]
    exact countP_warning_evaluate _ _
  | success _ _ hresult =>
    rw [← hresult]
    exact countP_warning_evaluate _ _
  | hit _ _ => rfl
  | clear => rfl
  | info => rfl
  | setCapacity _ => rfl
  | setAllowPartial _ => rfl
  | setStrictNesting _ => rfl

/-- The log of a run. -/
def Session.runLog (settings : Settings) (session : Session) (steps : List Step) : List Record :=
  (session.run settings steps).flatMap fun entry => log entry.2.events

/-- A run warns as often as it refuses a plainly invalid text. -/
theorem Session.countP_warning_runLog (settings : Settings) (session : Session)
    (steps : List Step) :
    (session.runLog settings steps).countP (·.level = .warning) =
      (session.run settings steps).countP fun entry => entry.2.isInvalid := by
  induction steps generalizing session with
  | nil => rfl
  | cons step rest ih =>
    have hmove := (move_perform settings session step).countP_warning
    have hrest := ih (session.perform settings step).1
    rw [runLog] at hrest ⊢
    rw [run, List.flatMap_cons, List.countP_append, List.countP_cons, hrest, hmove, Nat.add_comm]
    cases (session.perform settings step).2.isInvalid <;> rfl

/-- A remembered value is served with a single record. Otherwise the log is that of an evaluation. -/
theorem Session.log_perform_evaluate (settings : Settings) (session : Session) (text : String) :
    log (session.perform settings (.evaluate text)).2.events =
      if 0 < session.capacity ∧ text ∈ session.cache.keys then
        [⟨.debug, .evaluation, "Cache hit for expression: " ++ Event.excerpt text ++ "..."⟩]
      else log (Reckoner.evaluate (session.options settings) text).events := by
  have hmove := move_perform settings session (.evaluate text)
  generalize session.perform settings (.evaluate text) = after at hmove ⊢
  obtain ⟨next, reply⟩ := after
  dsimp only at hmove ⊢
  cases hmove with
  | disabled hcapacity => rw [if_neg fun h => absurd h.1 (Int.not_lt.mpr hcapacity)]
  | hit hcapacity hfound =>
    rw [if_pos ⟨hcapacity, Cache.mem_keys_of_find? hfound⟩]
    rfl
  | failure _ hfound _ =>
    rw [if_neg fun h => absurd h.2 ((Cache.find?_eq_none_iff _ _).mp hfound)]
  | success _ hfound _ =>
    rw [if_neg fun h => absurd h.2 ((Cache.find?_eq_none_iff _ _).mp hfound)]

/-- The log of an evaluation is of exactly one course, and it is of a course exactly if the evaluation
ends after that course; terms that cannot be put into postfix order occur without strict nesting only. In
a session a remembered value adds its one record, and any other evaluation its log. So a run warns as
often as it refuses a plainly invalid text. -/
theorem log_tells_outcome :
    (∀ options text, (∃! c : Course, c.Logs (log (evaluate options text).events)) ∧
      (∀ c : Course, c.Logs (log (evaluate options text).events) ↔ c.Ends options text) ∧
      (Course.unordered.Logs (log (evaluate options text).events) →
        options.strictNesting = false)) ∧
    (∀ settings (session : Session) text,
      log (session.perform settings (.evaluate text)).2.events =
        if 0 < session.capacity ∧ text ∈ session.cache.keys then
          [⟨.debug, .evaluation, "Cache hit for expression: " ++ Event.excerpt text ++ "..."⟩]
        else log (evaluate (session.options settings) text).events) ∧
    ∀ settings (session : Session) steps,
      (session.runLog settings steps).countP (·.level = .warning) =
        (session.run settings steps).countP fun entry => entry.2.isInvalid := by
  refine ⟨fun options text => ⟨?_, ?_, ?_⟩, Session.log_perform_evaluate,
    Session.countP_warning_runLog⟩
  · obtain ⟨course, hlogs, -⟩ := Course.exists_course options text
    exact ⟨course, hlogs, fun _ h => h.unique hlogs⟩
  · exact fun _ => Course.logs_iff_ends
  · exact fun h => (Course.logs_iff_ends.mp h).strictNesting_eq_false

/-- Without strict nesting `)1+2(` is not put into postfix order, and the two values of `(2)(3)` are
multiplied; of four requests two are for the plainly invalid `2(3`. -/
theorem log_tells_outcome_courses :
    Course.unordered.Logs (log (evaluate ⟨true, false⟩ ")1+2(").events) ∧
      (Course.multiplied 2).Logs (log (evaluate ⟨true, false⟩ "(2)(3)").events) ∧
      ((Session.new {} none none none).runLog {}
        [.evaluate "2(3", .evaluate "1", .evaluate "1", .evaluate "2(3"]).countP
          (·.level = .warning) = 2 := by
  obtain ⟨hcourses, -, hwarnings⟩ := log_tells_outcome
  refine ⟨((hcourses _ _).2.1 _).mpr ?_, ((hcourses _ _).2.1 _).mpr ?_, ?_⟩
  · change (evaluate ⟨true, false⟩ ")1+2(").result = _
    decide +kernel
  · exact ⟨by decide, [.number "2", .number "3"], [.ofDecimal false 2 0, .ofDecimal false 3 0],
      by decide +kernel, by decide +kernel, rfl, by decide +kernel⟩
  · rw [hwarnings]
    decide +kernel

end Reckoner
