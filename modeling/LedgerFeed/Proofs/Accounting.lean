import LedgerFeed.Proofs.Offers
import LedgerFeed.Proofs.Summary

/-! The accounts of a run. All that its sink goes through are offers, and what the handler accepted
of them is what the run has delivered: events of the live node's pages are counted for the live
feed, and events of the archive for the backfill. -/

namespace LedgerFeed

def Origin.feed : Origin → Feed
  | page .. => .live
  | batch .. => .backfill

def Wait.feed : Wait → Feed
  | atTip .. | betweenPages _ => .live
  | betweenBatches .. => .backfill

def Pending.feed? : Pending → Option Feed
  | liveHealth (.choosing _) => none
  | liveHealth (.following _) | events _ => some .live
  | archiveHealth .. | ledgers .. => some .backfill
  | verdict _ _ origin => some origin.feed
  | pause _ wait => some wait.feed

def Point.feed? : Point → Option Feed
  | choosing _ | backfilled _ | ended _ => none
  | backfilling .. | taking .. | taken _ => some .backfill
  | following .. | requesting _ | paged .. | polled .. => some .live
  | offering origin => some origin.feed
  | resting _ wait => some wait.feed
  | asking pending => pending.feed?

@[simp] theorem Origin.feed_withRest (origin : Origin) (raws : List RawEvent) :
    (origin.withRest raws).feed = origin.feed := by
  cases origin <;> rfl

variable {a : Assignment} {signals : Signals} {sink sink' : Sink} {point point' : Point}
  {pending : Pending} {history : List (Moment a)}

def Moment.answer? : Moment a → Option (Feed × ContractEvent × Verdict)
  | ⟨.verdict _ event origin, _, verdict⟩ => some (origin.feed, event, verdict)
  | _ => none

def answersIn (history : List (Moment a)) : List (Feed × ContractEvent × Verdict) :=
  history.filterMap Moment.answer?

def deliveries (history : List (Moment a)) : List (Feed × ContractEvent × Verdict) :=
  (answersIn history).filter (·.2.2 = .accepted)

theorem answersIn_cons (m : Moment a) (earlier : List (Moment a)) :
    answersIn (m :: earlier) = m.answer?.toList ++ answersIn earlier := by
  cases h : m.answer? <;> simp [answersIn, h]

namespace Assignment

theorem Moves.feed (h : a.Moves signals sink point sink' point') :
    sink'.feed = sink.feed ∧ (point'.feed? = none ∨ point'.feed? = point.feed?) := by
  cases h with
  | @proceed wait => cases wait <;> exact ⟨rfl, .inr rfl⟩
  | duplicate | filtered => exact ⟨rfl, .inr (congrArg some (Origin.feed_withRest ..))⟩
  | askHandler => exact ⟨rfl, .inr (congrArg some (Origin.feed_withRest ..))⟩
  | _ => exact ⟨rfl, by first | exact .inl rfl | exact .inr rfl⟩

theorem Hears.feed {reply : (pending.question a).Reply}
    (h : a.Hears signals sink pending reply sink' point)
    (hfeed : ∀ feed, pending.feed? = some feed → sink.feed = feed) :
    ∀ feed, point.feed? = some feed → sink'.feed = feed := by
  cases h with
  | failed | tipPast | stopped | ahead | refused | archiveAhead => nofun
  | within | below => exact fun feed h => Option.some.inj h
  | unclosed | closed | archiveReady | ledgers | events | accepted | rested => exact hfeed

def FedBy (a : Assignment) (history : List (Moment a)) (sink : Sink) : Prop :=
  ∃ os, Sink.Fed a.decoder a.begin.sink os sink ∧ answersTo os = answersIn history

def Feeding (a : Assignment) (history : List (Moment a)) (sink : Sink) : Point → Prop
  | .asking (.verdict raw event _) => ∃ s filters, a.FedBy history s ∧
      s.judge a.decoder filters raw = .wanted event ∧ sink = s.note raw (.wanted event)
  | _ => a.FedBy history sink

theorem FedBy.quiet (h : a.FedBy history sink) {m : Moment a} (hm : m.answer? = none) :
    a.FedBy (m :: history) sink := by
  obtain ⟨os, hfed, hanswers⟩ := h
  exact ⟨os, hfed, by rw [answersIn_cons, hm, hanswers]; rfl⟩

theorem FedBy.measure (h : a.FedBy history sink) {x : Measurement} (hx : x.ofOffer = false) :
    a.FedBy history (sink.measure x) := by
  obtain ⟨os, hfed, hanswers⟩ := h
  exact ⟨os, hfed.measure hx, hanswers⟩

theorem FedBy.withFeed (h : a.FedBy history sink) (feed : Feed) :
    a.FedBy history (sink.withFeed feed) := by
  obtain ⟨os, hfed, hanswers⟩ := h
  exact ⟨os, hfed.withFeed feed, hanswers⟩

theorem FedBy.offer (h : a.FedBy history sink) {filters : List EventFilter}
    {handler : ContractEvent → Verdict} {raw : RawEvent} {o : Offer}
    (ho : sink.offer a.decoder filters handler raw = (sink', o)) {later : List (Moment a)}
    (hlater : answersIn later = o.answers ++ answersIn history) : a.FedBy later sink' := by
  obtain ⟨os, hfed, hanswers⟩ := h
  have hoffer := hfed.offer filters handler raw
  rw [ho] at hoffer
  exact ⟨o :: os, hoffer, by rw [answersTo_cons, hanswers, hlater]⟩

theorem Hears.feeding {reply : (pending.question a).Reply}
    (h : a.Hears signals sink pending reply sink' point)
    (hfeed : ∀ feed, pending.feed? = some feed → sink.feed = feed)
    (hf : a.Feeding history sink (.asking pending)) :
    a.Feeding (⟨pending, signals, reply⟩ :: history) sink' point := by
  -- whatever the handler answers, the offer was made for the feed of the event's origin
  have hanswered {s : Sink} {raw : RawEvent} {event : ContractEvent} {origin : Origin}
      {verdict : Verdict} {result : Except IngestError Disposal} (hs : s.feed = origin.feed) :
      answersIn ((⟨.verdict raw event origin, signals, verdict⟩ : Moment a) :: history) =
        Offer.answers ⟨s.feed, [(event, verdict)], result⟩ ++ answersIn history := by
    rw [answersIn_cons, hs]
    rfl
  cases h with
  | failed hfailure =>
    cases pending with
    | verdict raw event origin =>
      obtain ⟨s, filters, hs, hj, rfl⟩ := hf
      have hrefused : reply ≠ .accepted := by
        rintro rfl
        cases hfailure
      obtain ⟨error, -, hoffer⟩ := s.offer_of_refused (fun _ => reply) hj hrefused
      exact hs.offer hoffer (hanswered (hfeed _ rfl))
    | liveHealth | archiveHealth | ledgers | events | pause => exact hf.quiet rfl
  | accepted =>
    obtain ⟨s, filters, hs, hj, rfl⟩ := hf
    exact hs.offer (s.offer_of_accepted (fun _ => .accepted) hj rfl) (hanswered (hfeed _ rfl))
  | within | below => exact (hf.quiet rfl).withFeed _
  | closed | ledgers | events => exact (hf.quiet rfl).measure rfl
  | tipPast | stopped | ahead | refused | unclosed | archiveAhead | archiveReady | rested =>
    exact hf.quiet rfl

theorem Moves.feeding (h : a.Moves signals sink point sink' point')
    (hf : a.Feeding history sink point) : a.Feeding history sink' point' := by
  cases h with
  -- the handler is not called, so that it does not matter how it would answer
  | duplicate hs h hj => exact hf.offer (sink.offer_of_duplicate (fun _ => .accepted) hj) rfl
  | filtered hs h hj => exact hf.offer (sink.offer_of_filtered (fun _ => .accepted) hj) rfl
  | undecodable hs h hj => exact hf.offer (sink.offer_of_undecodable (fun _ => .accepted) hj) rfl
  | askHandler hs h hj => exact ⟨_, _, hf, hj, rfl⟩
  | stop _ h =>
    cases point with
    | backfilling | following | requesting | offering | resting => exact hf
    | choosing | backfilled | taking | taken | paged | polled | asking | ended => cases h
  | @proceed wait => cases wait <;> exact hf
  | endAtLast | beginPoll | endPolls | restAtTip | followOn => exact hf.measure rfl
  | endBatches | nextBatch => exact (hf.measure rfl).measure rfl
  | _ => exact hf

theorem begin_feeding (a : Assignment) :
    (∀ feed, a.begin.point.feed? = some feed → a.begin.sink.feed = feed) ∧
      a.Feeding [] a.begin.sink a.begin.point := by
  have hbegin : a.FedBy [] a.begin.sink := ⟨[], .nil, rfl⟩
  rcases begin_cases a with ⟨_, _, -, h⟩ | ⟨-, ⟨-, h⟩ | ⟨_, -, -, h⟩⟩
  all_goals rw [h] at hbegin ⊢
  · exact ⟨fun feed hfeed => Option.some.inj hfeed, hbegin⟩
  · exact ⟨nofun, hbegin⟩
  · exact ⟨nofun, hbegin⟩

/-- Wherever a run gets, offers have brought its sink about. -/
theorem Reaches.feeding {p : Progress} (h : a.Reaches history p) :
    a.Feeding history p.sink p.point := by
  refine (h.invariant (I := fun history sink point =>
    (∀ feed, point.feed? = some feed → sink.feed = feed) ∧ a.Feeding history sink point)
    (begin_feeding a) (fun _ hf h => ⟨h.feed hf.1, h.feeding hf.1 hf.2⟩)
    fun hf h => ⟨?_, h.feeding hf.2⟩).2
  obtain ⟨hsame, hfeed | hfeed⟩ := h.feed
  · simp [hfeed]
  · rw [hfeed, hsame]
    exact hf.1

end Assignment

theorem countP_feeds (given : List (Feed × ContractEvent × Verdict)) :
    given.countP (·.1 = .live) + given.countP (·.1 = .backfill) = given.length := by
  induction given with
  | nil => rfl
  | cons entry given ih =>
    obtain ⟨feed, event⟩ := entry
    cases feed <;> simp <;> omega

theorem Engine.measured_finish (kind : RunKind) (sink : Sink) (result : Except IngestError Exit) :
    ∃ outcome, (finish kind sink result).measured = .run kind outcome :: sink.measured := by
  cases result <;> exact ⟨_, rfl⟩

structure Delivers (a : Assignment) (history : List (Moment a)) (sink : Sink)
    (finished : Finished) : Prop where
  accepted : sink.delivered = .ofNat (deliveries history).length
  summary : ∀ summary, finished.result = .ok summary →
    summary.delivered = .ofNat (deliveries history).length
  byFeed : ∀ (before : Metrics) (feed : Feed),
    (before.recordAll finished.measured.reverse).counter (.delivered feed) =
      before.counter (.delivered feed) + (deliveries history).countP (·.1 = feed)
  total : sink.delivered = .ofNat (finished.measured.count (.delivered .live) +
    finished.measured.count (.delivered .backfill))

theorem delivers_of_ended {result : Except IngestError Exit}
    (h : a.Reaches history (.ended sink result)) :
    Delivers a history sink (Engine.finish a.request.kind sink result) := by
  obtain ⟨os, hfed, hanswers⟩ : a.FedBy history sink := h.feeding
  have haccepted : acceptedIn os = deliveries history := by rw [acceptedIn, hanswers, deliveries]
  have htotals := hfed.totals
  have hempty : a.begin.sink.delivered = 0 ∧ a.begin.sink.measured = [] := by
    rcases a.begin_cases with ⟨_, _, -, hb⟩ | ⟨-, ⟨-, hb⟩ | ⟨_, -, -, hb⟩⟩ <;>
      rw [hb] <;> exact ⟨rfl, rfl⟩
  have hdelivered : sink.delivered = .ofNat (deliveries history).length := by
    rw [htotals.delivered, hempty.1, haccepted, UInt64.zero_add]
  obtain ⟨outcome, hmeasured⟩ := Engine.measured_finish a.request.kind sink result
  have hcount (feed : Feed) :
      (Engine.finish a.request.kind sink result).measured.count (.delivered feed) =
        (deliveries history).countP (·.1 = feed) := by
    rw [hmeasured, List.count_cons_of_ne (by simp), htotals.measured (.delivered feed) rfl,
      hempty.2, htotals.byFeed, haccepted, List.count_nil, Nat.zero_add]
  refine ⟨hdelivered, fun summary hsummary => ?_, fun before feed => ?_, ?_⟩
  · cases result with
    | error => cases hsummary
    | ok exit =>
      obtain rfl := Except.ok.inj hsummary
      exact hdelivered
  · rw [before.counter_recordAll rfl, List.count_reverse, hcount]
  · rw [hcount, hcount, countP_feeds, hdelivered]

/-- An offer that fails leaves no trace, and any other one is counted once; so however a sink is
fed, its deliveries are the calls that the handler accepted, counted for their feeds. A run's sink
is fed by offers alone: what a run has delivered is what the handler accepted in it, the events of
the live node's pages counted for the live feed, and those of the archive for the backfill. -/
theorem offers_accounted {a : Assignment} {history : List (Moment a)} {sink : Sink}
    {result : Except IngestError Exit} (h : a.Reaches history (.ended sink result)) :
    (∀ decoder s filters handler raw,
      Sink.Accounts decoder raw s (s.offer decoder filters handler raw).1
        (s.offer decoder filters handler raw).2 ∧
      ∀ (before : Metrics) (x : Measurement), x.ofOffer = true →
        ((s.offer decoder filters handler raw).1.table before).counter x =
          (s.table before).counter x +
            if (s.offer decoder filters handler raw).2.measurement? = some x then 1 else 0) ∧
    (∀ decoder s os s', Sink.Fed decoder s os s' → s.Totals os s') ∧
    (∃ os, Sink.Fed a.decoder a.begin.sink os sink ∧ answersTo os = answersIn history) ∧
    Delivers a history sink (Engine.finish a.request.kind sink result) := by
  refine ⟨fun decoder s filters handler raw => ?_, fun decoder s os s' h => h.totals,
    h.feeding, delivers_of_ended h⟩
  have haccounts := s.accounts_offer decoder filters handler raw
  exact ⟨haccounts, fun before x hx => haccounts.counter before hx⟩

theorem crossing_accounted :
    ∃ (history : List (Moment crossing)) (sink : Sink),
      crossing.Reaches history (.ended sink (.ok ⟨.completed, 5⟩)) ∧
      Delivers crossing history sink (Engine.finish .combined sink (.ok ⟨.completed, 5⟩)) ∧
      sink.delivered = 2 ∧ (deliveries history).map (·.1) = [.live, .backfill] := by
  have hend := Assignment.Reaches.replayed (a := crossing) (quietly
    [.health (.ok ⟨true, 4, 5, 4⟩), .ledgers (.ok ⟨[⟨3, "", "", "", [sampleEvent 3 "z"]⟩], 5, 3⟩),
      .verdict .accepted, .health (.ok ⟨true, 4, 5, 4⟩), .events (.ok crossingPage),
      .verdict .accepted]) rfl
  exact ⟨_, _, hend, (offers_accounted hend).2.2.2, rfl, rfl⟩

end LedgerFeed
