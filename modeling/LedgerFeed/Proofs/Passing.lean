import LedgerFeed.Proofs.Offering
import LedgerFeed.Proofs.Placed

/-! The points that a run passes, one after the other. From each of them it goes on in one way only,
so whatever is known of a point that was passed decides what becomes of the run. -/

namespace LedgerFeed

namespace Assignment

/-- How a run goes on from a point: with what it has in hand there, until it asks again or ends. -/
def goOn (a : Assignment) (signals : Signals) (sink : Sink) : Point → Progress
  | .choosing start => a.choose sink start
  | .backfilling next target => a.backfill signals sink next target
  | .backfilled target => a.endBackfill sink target
  | .taking b ledgers => a.offerBatch signals sink b ledgers
  | .taken b => a.endBatch signals sink b
  | .following ledger latest => a.follow signals sink ledger latest
  | .requesting poll => requestPage signals sink poll
  | .offering (.page poll page rest) => a.offerPage signals sink poll page rest
  | .offering (.batch b rest ledgers) => a.offerLedger signals sink b rest ledgers
  | .paged poll page => a.endPage signals sink poll page
  | .polled poll reported => a.endPoll signals sink poll reported
  | .resting milliseconds wait => a.wait signals sink milliseconds wait
  | .asking pending => .waiting sink pending
  | .ended result => .ended sink result

/-- With a history, a run passes a point: by its beginning, by an answer, or by a move. -/
inductive Passes (a : Assignment) : List (Moment a) → Sink → Point → Prop
  | begin : Passes a [] a.begin.sink a.begin.point
  | hear {history : List (Moment a)} {sink sink' : Sink} {pending : Pending} {point : Point}
      (h : Passes a history sink (.asking pending)) (signals : Signals)
      {reply : (pending.question a).Reply} (hh : a.Hears signals sink pending reply sink' point) :
      Passes a (⟨pending, signals, reply⟩ :: history) sink' point
  | move {history : List (Moment a)} {m : Moment a} {sink sink' : Sink} {point point' : Point}
      (h : Passes a (m :: history) sink point) (hm : a.Moves m.signals sink point sink' point') :
      Passes a (m :: history) sink' point'

variable {a : Assignment} {signals : Signals} {sink sink' : Sink} {point point' : Point}
  {pending : Pending} {history : List (Moment a)}

theorem goOn_point (p : Progress) : a.goOn signals p.sink p.point = p := by
  cases p <;> rfl

theorem goOn_wait (wait : Wait) : a.goOn signals sink wait.point = a.proceed signals sink wait := by
  cases wait <;> rfl

theorem goOn_stop {ledger : LedgerNumber} (hs : signals.stop = true)
    (h : a.checkpoint? point = some ledger) :
    a.goOn signals sink point = stopped sink ledger := by
  have hoffer {origin : Origin} {raw : RawEvent} {rest : List RawEvent} {go : Sink → Progress}
      (hrest : origin.rest = raw :: rest) :
      a.offerThen signals sink origin.filters origin.ledger origin.withRest origin.rest go =
        stopped sink origin.ledger := by
    simp [offerThen, Sink.offerAll, hrest, hs]
  cases checkpoint_cases h with
  | backfilling hle => simp [goOn, backfill, UInt32.not_lt.mpr hle, hs]
  | following hin => simp [goOn, follow, hin, hs]
  | requesting poll => simp [goOn, requestPage, hs]
  | @offering origin _ _ hrest => cases origin <;> exact hoffer hrest
  | resting => simp [goOn, Assignment.wait, hs]

theorem goOn_offering {origin : Origin} {raw : RawEvent} {rest : List RawEvent}
    (hs : signals.stop = false) (h : origin.rest = raw :: rest) :
    a.goOn signals sink (.offering origin) =
      match sink.judge a.decoder origin.filters raw with
      | .duplicate =>
        a.goOn signals (sink.note raw .duplicate).skipDuplicate (.offering (origin.withRest rest))
      | .filtered =>
        a.goOn signals ((sink.note raw .filtered).skipFiltered raw)
          (.offering (origin.withRest rest))
      | .undecodable cause =>
        failed (sink.note raw (.undecodable cause)) (.decode raw.ledger cause)
      | .wanted event =>
        .waiting (sink.note raw (.wanted event)) (.verdict raw event (origin.withRest rest)) := by
  cases origin with
  | page poll page events =>
    obtain rfl : events = raw :: rest := h
    exact offerThen_cons hs ..
  | batch b events ledgers =>
    obtain rfl : events = raw :: rest := h
    exact offerThen_cons hs ..

/-- A move does not change how a run goes on. -/
theorem Moves.goOn_eq (h : a.Moves signals sink point sink' point') (hp : a.Placed point) :
    a.goOn signals sink point = a.goOn signals sink' point' := by
  cases h with
  | stop hs h => exact goOn_stop hs h
  | choosePast h => exact if_pos h
  | @askHealth start h =>
    cases start with
    | none => rfl
    | some ledger => exact if_neg (by simp [h ledger rfl])
  | reachTarget h => exact if_pos h
  | askBatch hs h => simp [goOn, backfill, hs, UInt32.not_lt.mpr h]
  | endArchive h =>
    cases hrequest : a.request <;> simp_all [goOn, endBackfill, RunRequest.kind, completed]
  | chooseAgain h =>
    cases hrequest : a.request <;> simp_all [goOn, endBackfill, RunRequest.kind]
  | skipLedger h => exact if_pos h
  | @endLedgers b ledgers h =>
    cases ledgers with
    | nil => rfl
    | cons ledger ledgers =>
      have hlt := h ledger rfl
      have hbeyond := UInt32.lt_iff_toNat_lt.mp hlt
      have hnext : b.expected.toNat ≤ b.target.toNat + 1 := Batches.le hp
      have hge : ¬ledger.sequence < b.expected := by
        rw [UInt32.lt_iff_toNat_lt]
        omega
      simp [goOn, offerBatch, hge, hlt]
  | gap h hle =>
    have hne := (UInt32.ne_of_lt h).symm
    have hge := UInt32.not_lt.mpr (UInt32.le_of_lt h)
    simp [goOn, offerBatch, hge, UInt32.not_lt.mpr hle, hne, failed]
  | unreadable h hle hr =>
    simp [goOn, offerBatch, h, UInt32.lt_irrefl, UInt32.not_lt.mpr hle, hr, failed]
  | read h hle hr =>
    simp [goOn, offerBatch, offerLedger, h, UInt32.lt_irrefl, UInt32.not_lt.mpr hle, hr]
  | duplicate hs h hj =>
    rw [goOn_offering hs h, hj]
  | filtered hs h hj =>
    rw [goOn_offering hs h, hj]
  | undecodable hs h hj =>
    rw [goOn_offering hs h, hj]
    rfl
  | askHandler hs h hj =>
    rw [goOn_offering hs h, hj]
    rfl
  | endPage => rfl
  | endLedger h => exact if_neg h
  | endAtLast h => exact if_pos h
  | noProgress h => exact if_pos h
  | endBatches h hlt => simp [goOn, endBatch, h, hlt]
  | nextBatch h hle => simp [goOn, endBatch, h, UInt32.not_lt.mpr hle]
  | followPast h => exact if_pos h
  | askTip hpast hs h => simp [goOn, follow, hpast, hs, h]
  | beginPoll hpast hs h =>
    simp [goOn, follow, hpast, hs, UInt32.not_lt.mpr h, Assignment.beginPoll]
  | askPage hs => simp [goOn, requestPage, hs]
  | hitStop h hstop => simp [goOn, Assignment.endPage, h, hstop, completed]
  | drained h =>
    rcases h with ⟨hpast, hstop⟩ | ⟨hpast, hcursor⟩
    · simp [goOn, Assignment.endPage, hpast, hstop]
    · simp [goOn, Assignment.endPage, hpast, hcursor]
  | nextPage h hcursor => simp [goOn, Assignment.endPage, h, hcursor]
  | endPolls h => simp [goOn, endPoll, h, completed]
  | restAtTip hpast h => simp [goOn, endPoll, hpast, h]
  | followOn hpast h hskip => simp [goOn, endPoll, hpast, UInt32.not_le.mpr h, hskip]
  | @proceed wait hs => rw [goOn_wait]; simp [goOn, Assignment.wait, hs]
  | pause hs h => simp [goOn, Assignment.wait, hs, h]

theorem resume_of_failure? {reply : (pending.question a).Reply} {error : IngestError}
    (h : a.failure? sink pending reply = some error) :
    a.resume signals sink pending reply = failed sink error := by
  have hbad {endpoint : String} {health : Health} (go : Health → Progress)
      (h : (if health.healthy then none else some (IngestError.unhealthy endpoint)) =
        some error) : withHealth sink endpoint go (.ok health) = failed sink error := by
    simp only [Option.ite_none_left_eq_some, Option.some.injEq] at h
    obtain ⟨hbad, rfl⟩ := h
    exact if_neg hbad
  cases pending with
  | liveHealth use =>
    cases reply with
    | error failure => cases use <;> exact congrArg (failed sink) (Option.some.inj h)
    | ok health =>
      cases use with
      | choosing start => exact hbad (a.beginAt signals sink start) h
      | following ledger =>
        exact hbad (fun health => a.followTo signals sink ledger health.latest) h
  | archiveHealth start stop =>
    cases reply with
    | error failure => exact congrArg (failed sink) (Option.some.inj h)
    | ok health => exact hbad (a.beginArchive signals sink start stop) h
  | ledgers | events =>
    cases reply with
    | error failure => exact congrArg (failed sink) (Option.some.inj h)
    | ok page => cases h
  | verdict raw event origin =>
    cases reply with
    | accepted => cases h
    | failed | panicked => cases origin <;> exact congrArg (failed sink) (Option.some.inj h)
  | pause => cases h

theorem Admits.resume_eq {start : Option LedgerNumber} {health : Health} {first : LedgerNumber}
    (h : a.Admits signals start health first) :
    a.resume signals sink (.liveHealth (.choosing start)) (.ok health) =
      if health.oldestAvailable a.config.retentionMargin ≤ first then
        a.follow signals (sink.withFeed .live) first health.latest
      else
        match a.archive with
        | none =>
          failed sink
            (.notRetained first (health.oldestAvailable a.config.retentionMargin) health.latest)
        | some _ =>
          a.backfill signals (sink.withFeed .backfill) first (a.targetBelow health) := by
  obtain ⟨hhealthy, rfl, hin, hrunning, hclosed⟩ := h
  have hpast : (start.isNone && a.pastStop (start.getD health.latest)) = false := by
    cases start with
    | none => exact hin rfl
    | some => rfl
  simp only [resume, withHealth, beginAt, hhealthy, hpast, hrunning, UInt32.not_lt.mpr hclosed,
    if_true, if_false, Bool.false_eq_true]
  rfl

theorem Hears.resume_eq {reply : (pending.question a).Reply}
    (h : a.Hears signals sink pending reply sink' point) :
    a.resume signals sink pending reply = a.goOn signals sink' point := by
  cases h with
  | failed h => exact resume_of_failure? h
  | tipPast hh h => simp [resume, withHealth, beginAt, hh, h, goOn, completed]
  | @stopped start health hh hin hs =>
    have hpast : (start.isNone && a.pastStop (start.getD health.latest)) = false := by
      cases start with
      | none => exact hin rfl
      | some => rfl
    simp [resume, withHealth, beginAt, hh, hpast, hs, goOn, Assignment.stopped]
  | ahead hh hs h => simp [resume, withHealth, beginAt, hh, h, hs, goOn, Assignment.failed]
  | within ha h => exact ha.resume_eq.trans (if_pos h)
  | refused ha h hn => rw [ha.resume_eq, if_neg (UInt32.not_le.mpr h), hn]; rfl
  | below ha h hsome =>
    obtain ⟨endpoint, harchive⟩ := Option.isSome_iff_exists.mp hsome
    rw [ha.resume_eq, if_neg (UInt32.not_le.mpr h), harchive]
    rfl
  | unclosed hh h => simp [resume, withHealth, followTo, hh, h, goOn]
  | closed hh h =>
    simp [resume, withHealth, followTo, hh, UInt32.not_lt.mpr h, goOn, Assignment.beginPoll]
  | archiveAhead hh h => simp [resume, withHealth, beginArchive, hh, h, goOn, Assignment.failed]
  | archiveReady hh h =>
    simp [resume, withHealth, beginArchive, hh, UInt32.not_lt.mpr h, goOn]
  | ledgers => rfl
  | events => rfl
  | @accepted raw event origin => cases origin <;> rfl
  | rested => rfl

/-- A point that a run passes is one where it can be, and the run goes on from it. -/
theorem Passes.placed_reaches (h : a.Passes history sink point) : a.Placed point ∧
    ∀ signals, (∀ m ∈ history.head?, m.signals = signals) →
      a.Reaches history (a.goOn signals sink point) := by
  induction h with
  | begin => exact ⟨begin_placed a, fun signals _ => (goOn_point a.begin).symm ▸ .begin⟩
  | @hear history sink sink' pending point h signals reply hh ih =>
    obtain ⟨hp, hreaches⟩ := ih
    refine ⟨hh.placed hp, fun signals' hs => ?_⟩
    obtain rfl := hs _ rfl
    rw [← hh.resume_eq]
    -- before the first answer any signals will do, since nothing depends on them yet
    have hwaiting : ∃ signals, ∀ m ∈ history.head?, m.signals = signals := by
      cases history with
      | nil => exact ⟨signals, by simp⟩
      | cons m _ => exact ⟨m.signals, by simp⟩
    obtain ⟨before, hbefore⟩ := hwaiting
    exact (hreaches before hbefore).resume signals reply
  | move h hm ih =>
    obtain ⟨hp, hreaches⟩ := ih
    refine ⟨hm.placed hp, fun signals hs => ?_⟩
    obtain rfl := hs _ rfl
    exact hm.goOn_eq hp ▸ hreaches _ (by simp)

theorem Passes.eq_cons (h : a.Passes history sink point)
    (hasking : ∀ pending, point ≠ .asking pending) (hended : ∀ result, point ≠ .ended result) :
    ∃ m before, history = m :: before := by
  cases h with
  | begin =>
    cases hbegin : a.begin with
    | ended sink result => exact absurd (congrArg Progress.point hbegin) (hended result)
    | waiting sink pending => exact absurd (congrArg Progress.point hbegin) (hasking pending)
  | hear | move => exact ⟨_, _, rfl⟩

theorem Passes.reaches_asking (h : a.Passes history sink (.asking pending)) :
    a.Reaches history (.waiting sink pending) := by
  cases history with
  | nil => exact h.placed_reaches.2 ⟨false, []⟩ (by simp)
  | cons m _ => exact h.placed_reaches.2 m.signals (by simp)

theorem Passes.reaches_ended {result : Except IngestError Exit}
    (h : a.Passes history sink (.ended result)) : a.Reaches history (.ended sink result) := by
  cases history with
  | nil => exact h.placed_reaches.2 ⟨false, []⟩ (by simp)
  | cons m _ => exact h.placed_reaches.2 m.signals (by simp)

theorem Passes.reaches {m : Moment a} (h : a.Passes (m :: history) sink point) :
    a.Reaches (m :: history) (a.goOn m.signals sink point) :=
  h.placed_reaches.2 m.signals (by simp)

theorem Reaches.passes {p : Progress} (h : a.Reaches history p) :
    a.Passes history p.sink p.point :=
  h.invariant (I := a.Passes) .begin (fun signals hp h => .hear hp signals h) fun hp h => .move hp h

end Assignment
end LedgerFeed
