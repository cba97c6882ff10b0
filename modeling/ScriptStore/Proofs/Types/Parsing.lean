import ScriptStore.Types.Parsing

/-!
# What parsing puts into the log

A text is parsed in scans. A scan asks parsers in turn until one gives a value of the kind that is
looked for (`chosen?`); the first scan is for the wanted kind itself and every further one for the
source of a converter (`routes`). Each scan has a log of its own, which is printed into the log of the
whole attempt, and that one is printed into the log that was given.

Warnings are cleared before every call, so those that come out are of the call that gave the value. Of
the errors each log keeps the first of the best, and printing a log into another keeps the first of the
best of both (`IsFirstBest.printError`). So it makes no difference that there are three logs: in the
end there is the first of the best of all errors, in the order of trial (`parse_explained`). A scan that
finds a value prints no error, also if the value cannot be converted afterwards.
-/

namespace ScriptStore.Types

/-! ## Reports -/

def Report.warning? : Report → Option String
  | .warning message => some message
  | .error _ _ => none

def Report.error? : Report → Option LoggedError
  | .warning _ => none
  | .error message quality => some ⟨message, quality⟩

def warningsOf (reports : List Report) : List String := reports.filterMap Report.warning?

def errorsOf (reports : List Report) : List LoggedError := reports.filterMap Report.error?

theorem errorsOf_cons (report : Report) (rest : List Report) :
    errorsOf (report :: rest) = report.error?.toList ++ errorsOf rest := by
  cases report <;> rfl

theorem warnings_recordAll (log : ParseLog) (reports : List Report) :
    (log.recordAll reports).warnings = log.warnings ++ warningsOf reports := by
  induction reports generalizing log with
  | nil => exact (List.append_nil _).symm
  | cons report rest ih =>
    refine (ih (log.record report)).trans ?_
    cases report with
    | warning message => exact List.append_assoc ..
    | error message quality =>
      have hkept : (log.error message quality).warnings = log.warnings := by
        unfold ParseLog.error
        split
        · split <;> rfl
        · rfl
      exact congrArg (· ++ warningsOf rest) hkept

theorem warnings_printError (log parent : ParseLog) :
    (log.printError parent none).warnings = parent.warnings := by
  unfold ParseLog.printError ParseLog.error
  split
  · split
    · split <;> rfl
    · rfl
  · contradiction
  · rfl

/-- Whether this is the first of the best errors, or none if there are no errors. -/
def IsFirstBest (errors : List LoggedError) : Option LoggedError → Prop
  | none => errors = []
  | some e => ∃ before behind, errors = before ++ e :: behind ∧
      (∀ other ∈ before, other.quality.rank < e.quality.rank) ∧
      ∀ other ∈ behind, other.quality.rank ≤ e.quality.rank

namespace IsFirstBest

variable {errors more : List LoggedError} {best : Option LoggedError} {e : LoggedError}
  {log parent : ParseLog}

theorem toList (best : Option LoggedError) : IsFirstBest best.toList best := by
  cases best with
  | none => rfl
  | some e => exact ⟨[], [], rfl, by simp, by simp⟩

/-- All errors are at most as good. -/
theorem rank_le (h : IsFirstBest errors (some e)) {other : LoggedError} (hother : other ∈ errors) :
    other.quality.rank ≤ e.quality.rank := by
  obtain ⟨before, behind, rfl, hbefore, hbehind⟩ := h
  rcases List.mem_append.1 hother with hother | hother
  · exact Nat.le_of_lt (hbefore other hother)
  · rcases List.mem_cons.1 hother with rfl | hother
    · exact Nat.le_refl _
    · exact hbehind other hother

/-- The errors of another list come behind. The best of them counts if it is strictly better. -/
theorem error_of (h : IsFirstBest errors log.best) (hmore : IsFirstBest more (some e)) :
    IsFirstBest (errors ++ more) (log.error e.message e.quality).best := by
  unfold ParseLog.error
  cases hbest : log.best with
  | none =>
    rw [hbest] at h
    obtain rfl : errors = [] := h
    exact hmore
  | some best =>
    rw [hbest] at h
    dsimp only
    split
    · next hlt =>
        obtain ⟨before, behind, rfl, hbefore, hbehind⟩ := hmore
        refine ⟨errors ++ before, behind, (List.append_assoc ..).symm, fun other hother => ?_, hbehind⟩
        rcases List.mem_append.1 hother with hother | hother
        · exact Nat.lt_of_le_of_lt (h.rank_le hother) hlt
        · exact hbefore other hother
    · next hnot =>
        rw [hbest]
        have hrank := fun other (hother : other ∈ more) =>
          Nat.le_trans (hmore.rank_le hother) (Nat.not_lt.1 hnot)
        obtain ⟨before, behind, rfl, hbefore, hbehind⟩ := h
        refine ⟨before, behind ++ more, by simp, hbefore, fun other hother => ?_⟩
        exact (List.mem_append.1 hother).elim (hbehind other) (hrank other)

/-- A log that is printed into another. -/
theorem printError (hparent : IsFirstBest errors parent.best) (h : IsFirstBest more log.best) :
    IsFirstBest (errors ++ more) (log.printError parent none).best := by
  unfold ParseLog.printError
  cases hbest : log.best with
  | none =>
    rw [hbest] at h
    obtain rfl : more = [] := h
    rwa [List.append_nil]
  | some e =>
    rw [hbest] at h
    exact hparent.error_of h

theorem record (h : IsFirstBest errors log.best) (report : Report) :
    IsFirstBest (errors ++ report.error?.toList) (log.record report).best := by
  cases report with
  | warning message =>
    rw [Report.error?, Option.toList_none, List.append_nil]
    exact h
  | error message quality => exact h.error_of (toList (some ⟨message, quality⟩))

theorem recordAll (h : IsFirstBest errors log.best) (reports : List Report) :
    IsFirstBest (errors ++ errorsOf reports) (log.recordAll reports).best := by
  induction reports generalizing errors log with
  | nil => rwa [errorsOf, List.filterMap_nil, List.append_nil]
  | cons report rest ih =>
    have hrest := ih (h.record report)
    rw [List.append_assoc] at hrest
    rwa [errorsOf_cons]

end IsFirstBest

/-! ## Scans -/

namespace Registry

variable (r : Registry) (input : String) (context : Context)

/-- The parsers of some infos that may be asked for a value of kind `k`. -/
def askedOf (k : Kind) (infos : List ClassInfo) : List Parser :=
  infos.filterMap fun info => info.parser.filter (r.asks k context info)

/-- Whether a parser gives a value of kind `k`. -/
def suits (k : Kind) (p : Parser) : Bool :=
  (p.parse input context).1.any (r.hierarchy.isInstance k)

/-- The parser whose value a scan takes: the first that gives one of kind `k`. -/
def chosen? (k : Kind) : Option Parser :=
  (r.askedOf context k r.infos).find? (r.suits input context k)

/-- The errors of the parsers that a scan asks, if it finds no value. -/
def scanErrors (k : Kind) : List LoggedError :=
  if (r.chosen? input context k).isSome then []
  else (r.askedOf context k r.infos).flatMap fun p => errorsOf (p.parse input context).2

variable {r input context} {k : Kind} {p : Parser} {log attempt : ParseLog}

section

variable {info : ClassInfo} {rest : List ClassInfo}

theorem askedOf_cons (info : ClassInfo) (rest : List ClassInfo) :
    r.askedOf context k (info :: rest) =
      (info.parser.filter (r.asks k context info)).toList ++ r.askedOf context k rest := by
  rw [askedOf, List.filterMap_cons]
  cases info.parser.filter (r.asks k context info) <;> rfl

/-- An info without a parser that may be asked is passed over. -/
theorem tryInfos_cons_of_skipped (h : info.parser.filter (r.asks k context info) = none) :
    r.tryInfos input k context (info :: rest) attempt = r.tryInfos input k context rest attempt := by
  rw [tryInfos]
  cases hp : info.parser with
  | none => rfl
  | some p =>
    have hasks : r.asks k context info p = false := by simpa [hp] using h
    dsimp only
    rw [hasks, if_neg Bool.false_ne_true]

/-- A parser that is asked reports to a log without warnings. Its value is taken if it suits. -/
theorem tryInfos_cons_of_asked (h : info.parser.filter (r.asks k context info) = some p) :
    r.tryInfos input k context (info :: rest) attempt =
      if r.suits input context k p then
        ((p.parse input context).1, attempt.clear.recordAll (p.parse input context).2)
      else r.tryInfos input k context rest
        (attempt.clear.recordAll (p.parse input context).2) := by
  obtain ⟨hp, hasks⟩ := Option.filter_eq_some_iff.1 h
  rw [tryInfos, hp, suits]
  dsimp only
  rw [if_pos hasks]
  cases (p.parse input context).1 with
  | none => rfl
  | some v => rfl

end

/-- Where a parser suits, its value is taken, and what it warned about is what the log has. -/
theorem tryInfos_of_some {infos : List ClassInfo} (attempt : ParseLog)
    (h : (r.askedOf context k infos).find? (r.suits input context k) = some p) :
    ∃ log', r.tryInfos input k context infos attempt = ((p.parse input context).1, log') ∧
      log'.warnings = warningsOf (p.parse input context).2 := by
  induction infos generalizing attempt with
  | nil => cases h
  | cons info rest ih =>
    rw [askedOf_cons] at h
    cases hasked : info.parser.filter (r.asks k context info) with
    | none =>
      rw [hasked] at h
      rw [tryInfos_cons_of_skipped hasked]
      exact ih attempt h
    | some q =>
      rw [hasked, Option.toList_some, List.singleton_append, List.find?_cons] at h
      rw [tryInfos_cons_of_asked hasked]
      cases hsuits : r.suits input context k q with
      | false =>
        rw [hsuits] at h
        exact ih _ h
      | true =>
        rw [hsuits] at h
        cases h
        exact ⟨_, if_pos rfl, warnings_recordAll _ _⟩

/-- Where no parser suits, the errors of all that were asked have been recorded. -/
theorem tryInfos_of_none {infos : List ClassInfo} (attempt : ParseLog)
    (h : (r.askedOf context k infos).find? (r.suits input context k) = none)
    {errors : List LoggedError} (herrors : IsFirstBest errors attempt.best) :
    ∃ log', r.tryInfos input k context infos attempt = (none, log') ∧
      IsFirstBest (errors ++ (r.askedOf context k infos).flatMap fun p =>
        errorsOf (p.parse input context).2) log'.best := by
  induction infos generalizing attempt errors with
  | nil => exact ⟨attempt, rfl, by rwa [askedOf, List.filterMap_nil, List.flatMap_nil, List.append_nil]⟩
  | cons info rest ih =>
    rw [askedOf_cons] at h ⊢
    cases hasked : info.parser.filter (r.asks k context info) with
    | none =>
      rw [hasked] at h
      rw [tryInfos_cons_of_skipped hasked]
      exact ih attempt h herrors
    | some q =>
      rw [hasked, Option.toList_some, List.singleton_append, List.find?_cons] at h
      rw [tryInfos_cons_of_asked hasked]
      cases hsuits : r.suits input context k q with
      | true =>
        rw [hsuits] at h
        cases h
      | false =>
        rw [hsuits] at h
        rw [if_neg Bool.false_ne_true, Option.toList_some, List.singleton_append,
          List.flatMap_cons, ← List.append_assoc]
        -- clearing a log leaves its error
        have hkept : IsFirstBest errors attempt.clear.best := herrors
        exact ih _ h (hkept.recordAll (q.parse input context).2)

/-- A parser that was chosen gives a value. -/
theorem exists_value_of_chosen (h : r.chosen? input context k = some p) :
    ∃ v, (p.parse input context).1 = some v := by
  have hsuits : r.suits input context k p = true := List.find?_some h
  obtain ⟨v, hv, -⟩ := (Option.any_eq_true _ _).1 hsuits
  exact ⟨v, hv⟩

/-- A scan that finds a value prints the warnings of the parser that gave it, and no error. -/
theorem parseSimple_of_some (h : r.chosen? input context k = some p) :
    r.parseSimple input k context log = ((p.parse input context).1,
      { log with warnings := log.warnings ++ warningsOf (p.parse input context).2 }) := by
  obtain ⟨attempt, hscan, hwarnings⟩ := tryInfos_of_some {} h
  obtain ⟨v, hv⟩ := exists_value_of_chosen h
  rw [parseSimple, hscan, hv, ← hwarnings]
  rfl

/-- A scan that finds no value prints no warning, and the best of its errors. -/
theorem parseSimple_of_none (log : ParseLog) (h : r.chosen? input context k = none) :
    ∃ log', r.parseSimple input k context log = (none, log') ∧ log'.warnings = log.warnings ∧
      ∀ errors, IsFirstBest errors log.best →
        IsFirstBest (errors ++ r.scanErrors input context k) log'.best := by
  obtain ⟨attempt, hscan, hattempt⟩ := tryInfos_of_none {} h (IsFirstBest.toList none)
  refine ⟨attempt.printError log none, by rw [parseSimple, hscan]; rfl, warnings_printError _ _,
    fun errors herrors => ?_⟩
  rw [scanErrors, h]
  exact herrors.printError hattempt

/-! ## Routes -/

/-- A way to a value: a scan for values of the source, and what is done with the value found. -/
structure Route where
  source : Kind
  finish : Value → Option Value

/-- Whether a converter may be used for a value of kind `target`. -/
def leads (r : Registry) (context : Context) (target : Kind) (e : Converter) : Bool :=
  !(context == .command && e.restrictions.noCommands) && r.hierarchy.assignable target e.target

/-- The ways by some converters. -/
def routesBy (r : Registry) (context : Context) (target : Kind) (edges : List Converter) : List Route :=
  (edges.filter (r.leads context target)).map fun e => ⟨e.source, e.convert⟩

/-- The ways to a value of kind `target` in the order of trial, the direct one first. -/
def routes (r : Registry) (context : Context) (target : Kind) : List Route :=
  ⟨target, some⟩ :: r.routesBy context target r.graph.edges

/-- The value to which a route leads. -/
def Route.value? (route : Route) (r : Registry) (input : String) (context : Context) : Option Value :=
  (r.chosen? input context route.source).bind fun p => (p.parse input context).1.bind route.finish

variable {target : Kind} {e : Converter} {rest : List Converter} {route : Route}

theorem routesBy_cons_of_leads (h : r.leads context target e = true) :
    r.routesBy context target (e :: rest) =
      ⟨e.source, e.convert⟩ :: r.routesBy context target rest := by
  rw [routesBy, List.filter_cons_of_pos h]
  rfl

theorem routesBy_cons_of_not_leads (h : r.leads context target e = false) :
    r.routesBy context target (e :: rest) = r.routesBy context target rest := by
  rw [routesBy, List.filter_cons_of_neg (Bool.eq_false_iff.1 h)]
  rfl

theorem tryConverters_cons_of_not_leads (h : r.leads context target e = false) :
    r.tryConverters input target context (e :: rest) attempt =
      r.tryConverters input target context rest attempt := by
  rw [leads, ← Bool.not_eq_true', Bool.not_and, Bool.not_not] at h
  rw [tryConverters, if_pos h]

/-- The value of a scan is that of the parser which it chooses. -/
theorem parseSimple_fst (log : ParseLog) :
    (r.parseSimple input k context log).1 =
      (r.chosen? input context k).bind fun p => (p.parse input context).1 := by
  cases hchosen : r.chosen? input context k with
  | none =>
    obtain ⟨log', hscan, -⟩ := parseSimple_of_none log hchosen
    rw [hscan]
    rfl
  | some p =>
    rw [parseSimple_of_some hchosen]
    rfl

theorem tryConverters_cons_of_leads (h : r.leads context target e = true) :
    r.tryConverters input target context (e :: rest) attempt =
      if (Route.value? ⟨e.source, e.convert⟩ r input context).isSome then
        (Route.value? ⟨e.source, e.convert⟩ r input context,
          (r.parseSimple input e.source context attempt.clear).2)
      else r.tryConverters input target context rest
        (r.parseSimple input e.source context attempt.clear).2 := by
  have hvalue : (r.parseSimple input e.source context attempt.clear).1.bind e.convert =
      Route.value? ⟨e.source, e.convert⟩ r input context := by
    rw [parseSimple_fst, Option.bind_assoc]
    rfl
  rw [leads, Bool.and_eq_true, Bool.not_eq_true'] at h
  rw [tryConverters, if_neg (by simp [h])]
  dsimp only
  rw [hvalue]
  cases Route.value? ⟨e.source, e.convert⟩ r input context <;> rfl

/-- What is found by a converter comes with the warnings of the parser whose value was converted. -/
theorem tryConverters_of_some {edges : List Converter} (attempt : ParseLog)
    (h : (r.routesBy context target edges).find?
      (fun route => (route.value? r input context).isSome) = some route) :
    ∃ p log', r.chosen? input context route.source = some p ∧
      r.tryConverters input target context edges attempt = (route.value? r input context, log') ∧
      log'.warnings = warningsOf (p.parse input context).2 := by
  induction edges generalizing attempt with
  | nil => cases h
  | cons e rest ih =>
    cases hleads : r.leads context target e with
    | false =>
      rw [routesBy_cons_of_not_leads hleads] at h
      rw [tryConverters_cons_of_not_leads hleads]
      exact ih attempt h
    | true =>
      rw [routesBy_cons_of_leads hleads, List.find?_cons] at h
      rw [tryConverters_cons_of_leads hleads]
      cases hvalue : (Route.value? ⟨e.source, e.convert⟩ r input context).isSome with
      | false =>
        rw [hvalue] at h
        exact ih _ h
      | true =>
        rw [hvalue] at h
        cases h
        obtain ⟨v, hv⟩ := Option.isSome_iff_exists.1 hvalue
        obtain ⟨p, hp, -⟩ := Option.bind_eq_some_iff.1 hv
        refine ⟨p, _, hp, if_pos rfl, ?_⟩
        rw [parseSimple_of_some hp]
        rfl

/-- Where no converter helps, the errors of all scans without a value have been recorded. -/
theorem tryConverters_of_none {edges : List Converter} (attempt : ParseLog)
    (h : ∀ route ∈ r.routesBy context target edges, route.value? r input context = none)
    {errors : List LoggedError} (herrors : IsFirstBest errors attempt.best) :
    ∃ log', r.tryConverters input target context edges attempt = (none, log') ∧
      IsFirstBest (errors ++ (r.routesBy context target edges).flatMap fun route =>
        r.scanErrors input context route.source) log'.best := by
  induction edges generalizing attempt errors with
  | nil => exact ⟨attempt, rfl, by rwa [routesBy, List.filter_nil, List.map_nil, List.flatMap_nil,
      List.append_nil]⟩
  | cons e rest ih =>
    cases hleads : r.leads context target e with
    | false =>
      rw [routesBy_cons_of_not_leads hleads] at h ⊢
      rw [tryConverters_cons_of_not_leads hleads]
      exact ih attempt h herrors
    | true =>
      rw [routesBy_cons_of_leads hleads] at h ⊢
      obtain ⟨hnone, hrest⟩ := List.forall_mem_cons.1 h
      rw [tryConverters_cons_of_leads hleads, hnone, Option.isSome_none, if_neg Bool.false_ne_true,
        List.flatMap_cons, ← List.append_assoc]
      have hkept : IsFirstBest errors attempt.clear.best := herrors
      refine ih _ hrest ?_
      cases hchosen : r.chosen? input context e.source with
      | none =>
        obtain ⟨log', hscan, -, hlog'⟩ := parseSimple_of_none attempt.clear hchosen
        rw [hscan]
        exact hlog' errors hkept
      | some p =>
        -- the value was found but not converted: the errors before it are dropped
        rw [parseSimple_of_some hchosen, scanErrors, hchosen, Option.isSome_some, if_pos rfl,
          List.append_nil]
        exact hkept

/-! ## The log in the end -/

/-- The direct route leads to what the scan for its kind finds. -/
theorem value?_direct :
    Route.value? ⟨target, some⟩ r input context =
      (r.chosen? input context target).bind fun p => (p.parse input context).1 := by
  rw [Route.value?]
  exact Option.bind_congr fun p _ => Option.bind_fun_some _

/-- Where the first scan finds nothing, its best error stands in the log of the attempt. -/
theorem parse_of_none (log : ParseLog) (h : r.chosen? input context target = none) :
    ∃ attempt, r.parse input target context log =
        conclude (r.tryConverters input target context r.graph.edges attempt) log ∧
      IsFirstBest (r.scanErrors input context target) attempt.best := by
  obtain ⟨attempt, hscan, -, hattempt⟩ := parseSimple_of_none {} h
  exact ⟨attempt, by rw [parse, hscan], hattempt [] (IsFirstBest.toList none)⟩

/-- The value of the first route that leads to one, with the warnings of the parser that it is from. -/
theorem parse_of_route (log : ParseLog)
    (h : (r.routes context target).find? (fun route => (route.value? r input context).isSome) =
      some route) :
    ∃ p, r.chosen? input context route.source = some p ∧
      r.parse input target context log = ((p.parse input context).1.bind route.finish,
        { log with warnings := log.warnings ++ warningsOf (p.parse input context).2 }) := by
  have hvalue := List.find?_some h
  rw [routes, List.find?_cons] at h
  cases hchosen : r.chosen? input context target with
  | some p =>
    obtain ⟨v, hv⟩ := exists_value_of_chosen hchosen
    rw [value?_direct, hchosen, Option.bind_some, hv] at h
    cases h
    refine ⟨p, hchosen, ?_⟩
    rw [parse, parseSimple_of_some hchosen, hv]
    rfl
  | none =>
    rw [value?_direct, hchosen] at h
    obtain ⟨attempt, hparse, -⟩ := parse_of_none log hchosen
    obtain ⟨p, attempt', hp, htry, hwarnings⟩ := tryConverters_of_some attempt h
    obtain ⟨v, hv⟩ := Option.isSome_iff_exists.1 hvalue
    have hp' : (p.parse input context).1.bind route.finish = some v := by
      rwa [Route.value?, hp] at hv
    refine ⟨p, hp, ?_⟩
    rw [hparse, htry, hv, hp', ← hwarnings]
    rfl

/-- Without such a route, the log keeps its warnings and the first of the best of all errors. -/
theorem parse_of_no_route (log : ParseLog)
    (h : ∀ route ∈ r.routes context target, route.value? r input context = none) :
    ∃ log', r.parse input target context log = (none, log') ∧ log'.warnings = log.warnings ∧
      IsFirstBest (log.best.toList ++ (r.routes context target).flatMap fun route =>
        r.scanErrors input context route.source) log'.best := by
  obtain ⟨hdirect, hrest⟩ := List.forall_mem_cons.1 h
  have hchosen : r.chosen? input context target = none := by
    cases hchosen : r.chosen? input context target with
    | none => rfl
    | some p =>
      obtain ⟨v, hv⟩ := exists_value_of_chosen hchosen
      rw [value?_direct, hchosen, Option.bind_some, hv] at hdirect
      cases hdirect
  obtain ⟨attempt, hparse, hattempt⟩ := parse_of_none log hchosen
  obtain ⟨attempt', htry, hattempt'⟩ := tryConverters_of_none attempt hrest hattempt
  refine ⟨attempt'.printError log none, by rw [hparse, htry]; rfl, warnings_printError _ _, ?_⟩
  exact (IsFirstBest.toList log.best).printError hattempt'

/-- **What parsing puts into the log.** If there is a value, it was found on the first route that leads
to one; the log gets the warnings of the one parser whose value was taken there, and keeps its error. If
there is no value, no route leads to one; the log gets no warning, and its error is the first of the
best among the one that it had and those of the scans that found no value, in the order of trial. -/
theorem parse_explained (r : Registry) (input : String) (target : Kind) (context : Context)
    (log : ParseLog) :
    (∀ v log', r.parse input target context log = (some v, log') →
      ∃ route p, (r.routes context target).find? (fun route => (route.value? r input context).isSome) =
          some route ∧
        r.chosen? input context route.source = some p ∧
        (p.parse input context).1.bind route.finish = some v ∧
        log'.warnings = log.warnings ++ warningsOf (p.parse input context).2 ∧
        log'.best = log.best) ∧
    ∀ log', r.parse input target context log = (none, log') →
      (∀ route ∈ r.routes context target, route.value? r input context = none) ∧
      log'.warnings = log.warnings ∧
      IsFirstBest (log.best.toList ++ (r.routes context target).flatMap fun route =>
        r.scanErrors input context route.source) log'.best := by
  cases hroute : (r.routes context target).find?
      (fun route => (route.value? r input context).isSome) with
  | some route =>
      have hvalue := List.find?_some hroute
      obtain ⟨p, hp, hparse⟩ := parse_of_route log hroute
      rw [Route.value?, hp, Option.bind_some] at hvalue
      refine ⟨fun v log' h => ?_, fun log' h => ?_⟩
      · obtain ⟨hv, rfl⟩ := Prod.mk.inj (hparse.symm.trans h)
        exact ⟨route, p, rfl, hp, hv, rfl, rfl⟩
      · rw [(Prod.mk.inj (hparse.symm.trans h)).1] at hvalue
        cases hvalue
  | none =>
      have hnone : ∀ route ∈ r.routes context target, route.value? r input context = none := by
        intro route hmem
        exact Option.not_isSome_iff_eq_none.1 (List.find?_eq_none.1 hroute route hmem)
      obtain ⟨final, hparse, hwarnings, hbest⟩ := parse_of_no_route log hnone
      refine ⟨fun v log' h => ?_, fun log' h => ?_⟩
      · cases (Prod.mk.inj (hparse.symm.trans h)).1
      · obtain ⟨-, rfl⟩ := Prod.mk.inj (hparse.symm.trans h)
        exact ⟨hnone, hwarnings, hbest⟩

namespace Talkative

/-- A parser that has one answer to everything. -/
def always (answer : Option Value) (reports : List Report) : Parser where
  parse _ _ := (answer, reports)
  canParse _ := true
  render v _ := v.describe
  variableName := Value.describe
  debug := Value.describe

/-- The parser for texts understands nothing and the one for integers everything. What that one gives
may be converted to a text. -/
def registry (convert : Value → Option Value) : Registry where
  settings := {}
  hierarchy := {}
  infos :=
    [{ kind := .string, code := "text", name := "text",
       parser := some (always none [.warning "no quotes", .error "no text" .notAnExpression]) },
     { kind := .integer, code := "integer", name := "integer",
       parser := some (always (some (.integer 7)) [.error "too many digits" .generic, .warning "odd"]) }]
  graph := ⟨{}, [.single .integer .string {} convert]⟩

/-- With a converter the text is understood, and the only warning is that of the parser for integers.
Without its help the log keeps the error that it had, which is as good as the one for texts and stands
before it; the better one for integers does not count, since there an integer was found. -/
theorem parse_explained_seven :
    let log : ParseLog := ⟨["old"], some ⟨"nothing", .notAnExpression⟩⟩
    (∃ log', (registry fun _ => some (.string "seven")).parse "7" .string .default log =
        (some (.string "seven"), log') ∧
      ∃ route p, (registry fun _ => some (.string "seven")).chosen? "7" .default route = some p ∧
        log'.warnings = ["old"] ++ warningsOf (p.parse "7" .default).2 ∧
        log'.warnings = ["old", "odd"] ∧ log'.best = log.best) ∧
    ∃ log', (registry fun _ => none).parse "7" .string .default log = (none, log') ∧
      log'.warnings = ["old"] ∧
      IsFirstBest [⟨"nothing", .notAnExpression⟩, ⟨"no text", .notAnExpression⟩] log'.best := by
  intro log
  have hseven : (registry fun _ => some (.string "seven")).parse "7" .string .default log =
      (some (.string "seven"), ⟨["old", "odd"], log.best⟩) := rfl
  have hnone : (registry fun _ => none).parse "7" .string .default log = (none, log) := rfl
  obtain ⟨hsome, -⟩ :=
    parse_explained (registry fun _ => some (.string "seven")) "7" .string .default log
  obtain ⟨-, hfail⟩ := parse_explained (registry fun _ => none) "7" .string .default log
  obtain ⟨route, p, -, hp, -, hwarnings, hbest⟩ := hsome _ _ hseven
  obtain ⟨-, hkept, hfirst⟩ := hfail _ hnone
  exact ⟨⟨_, hseven, route.source, p, hp, hwarnings, rfl, hbest⟩, _, hnone, hkept, hfirst⟩

end Talkative

end Registry

end ScriptStore.Types
