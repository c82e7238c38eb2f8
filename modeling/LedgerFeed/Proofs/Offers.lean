import LedgerFeed.Run.Metrics
import LedgerFeed.Run.Sink

/-! Offers of events to a sink, whatever its handler answers. An offer that fails leaves no trace;
one that does not is counted once, and the handler is called for it just if it is delivered. -/

namespace LedgerFeed

/-! Counters. -/

namespace Measurement

def ofOffer : Measurement → Bool
  | delivered _ | skipped _ => true
  | poll | page _ | backfilled _ | cursor .. | nodeHealth .. | run .. => false

theorem eq_of_series_eq {x y : Measurement} (hx : x.ofOffer = true) (h : y.series = x.series) :
    y = x := by
  cases x with
  | delivered feed =>
    cases y with
    | delivered feed' => cases feed <;> cases feed' <;> simp_all [series, Feed.name]
    | _ => simp [series] at h
  | skipped reason =>
    cases y with
    | skipped reason' => cases reason <;> cases reason' <;> simp_all [series, SkipReason.name]
    | _ => simp [series] at h
  | _ => cases hx

theorem change_of_ofOffer {x : Measurement} (hx : x.ofOffer = true) : x.change = .grow 1 := by
  cases x with
  | delivered | skipped => rfl
  | _ => cases hx

end Measurement

namespace Metrics

def counter (m : Metrics) (x : Measurement) : Nat :=
  (m.value? x.series).getD 0

theorem counter_record (m : Metrics) {x : Measurement} (hx : x.ofOffer = true) (y : Measurement) :
    (m.record y).counter x = m.counter x + if y = x then 1 else 0 := by
  by_cases hseries : y.series = x.series
  · obtain rfl := Measurement.eq_of_series_eq hx hseries
    simp [counter, value?_record_self, Measurement.change_of_ofOffer hx, Change.apply]
  · have hne : y ≠ x := fun h => hseries (congrArg Measurement.series h)
    simp [counter, value?_record_of_ne m (Ne.symm hseries), hne]

theorem counter_recordAll (m : Metrics) {x : Measurement} (hx : x.ofOffer = true)
    (xs : List Measurement) : (m.recordAll xs).counter x = m.counter x + xs.count x := by
  induction xs generalizing m with
  | nil => rfl
  | cons y xs ih =>
    rw [recordAll, List.foldl_cons, ← recordAll, ih, counter_record m hx, List.count_cons]
    simp only [beq_iff_eq]
    omega

end Metrics

def Sink.table (s : Sink) (before : Metrics) : Metrics :=
  before.recordAll s.measured.reverse

theorem Sink.counter_table (s : Sink) (before : Metrics) {x : Measurement}
    (hx : x.ofOffer = true) :
    (s.table before).counter x = before.counter x + s.measured.count x := by
  rw [table, before.counter_recordAll hx, List.count_reverse]

/-! One offer. -/

inductive Disposal where
  | delivered
  | duplicate
  | filtered
  deriving DecidableEq

def Disposal.measurement (feed : Feed) : Disposal → Measurement
  | delivered => .delivered feed
  | duplicate => .skipped .duplicate
  | filtered => .skipped .filtered

/-- What is seen of an offer from outside: for which feed it was made, how the handler was called
and what it answered, and the result. -/
structure Offer where
  feed : Feed
  calls : List (ContractEvent × Verdict)
  result : Except IngestError Disposal

namespace Sink

def offer (s : Sink) (decoder : Decoder) (filters : List EventFilter)
    (handler : ContractEvent → Verdict) (raw : RawEvent) : Sink × Offer :=
  let judgement := s.judge decoder filters raw
  let noted := s.note raw judgement
  match judgement with
  | .duplicate => (noted.skipDuplicate, ⟨s.feed, [], .ok .duplicate⟩)
  | .undecodable cause => (noted, ⟨s.feed, [], .error (.decode raw.ledger cause)⟩)
  | .filtered => (noted.skipFiltered raw, ⟨s.feed, [], .ok .filtered⟩)
  | .wanted event =>
    let calls := [(event, handler event)]
    match noted.settle raw (handler event) with
    | .error error => (noted, ⟨s.feed, calls, .error error⟩)
    | .ok sink => (sink, ⟨s.feed, calls, .ok .delivered⟩)

structure Counts (s s' : Sink) (o : Offer) (d : Disposal) : Prop where
  measured : s'.measured = d.measurement s.feed :: s.measured
  delivered : s'.delivered = s.delivered + if d = .delivered then 1 else 0
  calls : if d = .delivered then ∃ event, o.calls = [(event, .accepted)] else o.calls = []

/-- An offer that fails leaves no trace, so that the event is no duplicate when it is offered again.
It fails in the decoding, before any call, or by the handler. -/
structure Fails (decoder : Decoder) (raw : RawEvent) (s s' : Sink) (o : Offer)
    (error : IngestError) : Prop where
  recent : s'.recent = s.recent
  delivered : s'.delivered = s.delivered
  measured : s'.measured = s.measured
  again : ∀ filters, s'.judge decoder filters raw ≠ .duplicate
  cause : (∃ cause, decoder.decode raw = .error cause ∧ error = .decode raw.ledger cause ∧
      o.calls = []) ∨
    ∃ event verdict, o.calls = [(event, verdict)] ∧ verdict ≠ .accepted ∧
      s.settle raw verdict = .error error

structure Accounts (decoder : Decoder) (raw : RawEvent) (s s' : Sink) (o : Offer) : Prop where
  feed : o.feed = s.feed
  counts : ∀ d, o.result = .ok d → s.Counts s' o d
  fails : ∀ error, o.result = .error error → s.Fails decoder raw s' o error

section

variable (s : Sink) {decoder : Decoder} {filters : List EventFilter}
  (handler : ContractEvent → Verdict) {raw : RawEvent} {event : ContractEvent}

theorem offer_of_duplicate (hj : s.judge decoder filters raw = .duplicate) :
    s.offer decoder filters handler raw =
      ((s.note raw .duplicate).skipDuplicate, ⟨s.feed, [], .ok .duplicate⟩) := by
  simp only [offer, hj]

theorem offer_of_filtered (hj : s.judge decoder filters raw = .filtered) :
    s.offer decoder filters handler raw =
      ((s.note raw .filtered).skipFiltered raw, ⟨s.feed, [], .ok .filtered⟩) := by
  simp only [offer, hj]

theorem offer_of_undecodable {cause : DecodeError}
    (hj : s.judge decoder filters raw = .undecodable cause) :
    s.offer decoder filters handler raw =
      (s.note raw (.undecodable cause), ⟨s.feed, [], .error (.decode raw.ledger cause)⟩) := by
  simp only [offer, hj]

theorem offer_of_wanted (hj : s.judge decoder filters raw = .wanted event) :
    s.offer decoder filters handler raw =
      match (s.note raw (.wanted event)).settle raw (handler event) with
      | .error error =>
        (s.note raw (.wanted event), ⟨s.feed, [(event, handler event)], .error error⟩)
      | .ok sink => (sink, ⟨s.feed, [(event, handler event)], .ok .delivered⟩) := by
  simp only [offer, hj]

theorem offer_of_accepted (hj : s.judge decoder filters raw = .wanted event)
    (ha : handler event = .accepted) :
    s.offer decoder filters handler raw =
      ((s.note raw (.wanted event)).deliver raw,
        ⟨s.feed, [(event, .accepted)], .ok .delivered⟩) := by
  rw [offer_of_wanted s handler hj, ha]
  rfl

theorem settle_eq_error {s s' : Sink} {verdict : Verdict} (h : verdict ≠ .accepted) :
    ∃ error, s.settle raw verdict = .error error ∧ s'.settle raw verdict = .error error := by
  cases verdict with
  | accepted => exact absurd rfl h
  | failed | panicked => exact ⟨_, rfl, rfl⟩

theorem offer_of_refused (hj : s.judge decoder filters raw = .wanted event)
    (hr : handler event ≠ .accepted) :
    ∃ error, s.settle raw (handler event) = .error error ∧
      s.offer decoder filters handler raw =
        (s.note raw (.wanted event), ⟨s.feed, [(event, handler event)], .error error⟩) := by
  obtain ⟨error, hs, hnoted⟩ := @settle_eq_error _ s (s.note raw (.wanted event)) _ hr
  exact ⟨error, hs, by rw [offer_of_wanted s handler hj, hnoted]⟩

theorem judge_ne_duplicate {s s' : Sink} (hrecent : s'.recent = s.recent)
    (h : s.judge decoder filters raw ≠ .duplicate) (filters' : List EventFilter) :
    s'.judge decoder filters' raw ≠ .duplicate := by
  rw [ne_eq, judge_eq_duplicate_iff] at h ⊢
  rwa [hrecent]

end

theorem accounts_offer (s : Sink) (decoder : Decoder) (filters : List EventFilter)
    (handler : ContractEvent → Verdict) (raw : RawEvent) :
    Accounts decoder raw s (s.offer decoder filters handler raw).1
      (s.offer decoder filters handler raw).2 := by
  cases hj : s.judge decoder filters raw with
  | duplicate =>
    rw [offer_of_duplicate s handler hj]
    refine ⟨rfl, ?_, nofun⟩
    rintro d ⟨⟩
    exact ⟨rfl, (UInt64.add_zero _).symm, rfl⟩
  | filtered =>
    rw [offer_of_filtered s handler hj]
    refine ⟨rfl, ?_, nofun⟩
    rintro d ⟨⟩
    exact ⟨rfl, (UInt64.add_zero _).symm, rfl⟩
  | undecodable cause =>
    have hfirst : s.judge decoder filters raw ≠ .duplicate := by simp [hj]
    have hdecode := (judge_eq_undecodable_iff.mp hj).2
    rw [offer_of_undecodable s handler hj]
    refine ⟨rfl, nofun, ?_⟩
    rintro error ⟨⟩
    exact ⟨rfl, rfl, rfl, judge_ne_duplicate rfl hfirst, .inl ⟨cause, hdecode, rfl, rfl⟩⟩
  | wanted event =>
    by_cases ha : handler event = .accepted
    · rw [offer_of_accepted s handler hj ha]
      refine ⟨rfl, ?_, nofun⟩
      rintro d ⟨⟩
      exact ⟨rfl, rfl, event, rfl⟩
    · have hfirst : s.judge decoder filters raw ≠ .duplicate := by simp [hj]
      obtain ⟨error, hsettle, hoffer⟩ := offer_of_refused s handler hj ha
      rw [hoffer]
      refine ⟨rfl, nofun, ?_⟩
      rintro error ⟨⟩
      exact ⟨rfl, rfl, rfl, judge_ne_duplicate rfl hfirst, .inr ⟨event, _, rfl, ha, hsettle⟩⟩

end Sink

/-! Many offers. -/

namespace Offer

def measurement? (o : Offer) : Option Measurement :=
  match o.result with
  | .ok d => some (d.measurement o.feed)
  | .error _ => none

def answers (o : Offer) : List (Feed × ContractEvent × Verdict) :=
  o.calls.map (o.feed, ·)

def accepted (o : Offer) : List (Feed × ContractEvent × Verdict) :=
  o.answers.filter (·.2.2 = .accepted)

end Offer

def answersTo (os : List Offer) : List (Feed × ContractEvent × Verdict) :=
  os.flatMap Offer.answers

def acceptedIn (os : List Offer) : List (Feed × ContractEvent × Verdict) :=
  (answersTo os).filter (·.2.2 = .accepted)

def measuredOf (os : List Offer) : List Measurement :=
  os.filterMap Offer.measurement?

@[simp] theorem answersTo_cons (o : Offer) (os : List Offer) :
    answersTo (o :: os) = o.answers ++ answersTo os :=
  List.flatMap_cons

@[simp] theorem acceptedIn_cons (o : Offer) (os : List Offer) :
    acceptedIn (o :: os) = o.accepted ++ acceptedIn os := by
  rw [acceptedIn, answersTo_cons, List.filter_append, Offer.accepted, acceptedIn]

@[simp] theorem measuredOf_cons (o : Offer) (os : List Offer) :
    measuredOf (o :: os) = o.measurement?.toList ++ measuredOf os := by
  cases h : o.measurement? <;> simp [measuredOf, h]

namespace Sink

/-- A sink comes to another by offers, latest first, by changes of the feed, and by what is measured
of other things. -/
inductive Fed (decoder : Decoder) (s : Sink) : List Offer → Sink → Prop
  | nil : Fed decoder s [] s
  | offer {os : List Offer} {s' : Sink} (h : Fed decoder s os s') (filters : List EventFilter)
      (handler : ContractEvent → Verdict) (raw : RawEvent) :
      Fed decoder s ((s'.offer decoder filters handler raw).2 :: os)
        (s'.offer decoder filters handler raw).1
  | withFeed {os : List Offer} {s' : Sink} (h : Fed decoder s os s') (feed : Feed) :
      Fed decoder s os (s'.withFeed feed)
  | measure {os : List Offer} {s' : Sink} (h : Fed decoder s os s') {x : Measurement}
      (hx : x.ofOffer = false) : Fed decoder s os (s'.measure x)

variable {decoder : Decoder} {raw : RawEvent} {s s' : Sink} {o : Offer} {os : List Offer}

theorem Accounts.accepted (h : Accounts decoder raw s s' o) :
    (o.result = .ok .delivered ∧ ∃ event, o.accepted = [(s.feed, event, .accepted)]) ∨
      (o.result ≠ .ok .delivered ∧ o.accepted = []) := by
  cases hresult : o.result with
  | error error =>
    refine .inr ⟨nofun, ?_⟩
    rcases (h.fails error hresult).cause with ⟨_, -, -, hcalls⟩ | ⟨_, verdict, hcalls, hverdict, -⟩
    · simp [Offer.accepted, Offer.answers, hcalls]
    · simp [Offer.accepted, Offer.answers, hcalls, hverdict]
  | ok d =>
    have hcalls := (h.counts d hresult).calls
    split at hcalls
    case isTrue hd =>
      obtain ⟨event, hcalls⟩ := hcalls
      exact .inl ⟨by rw [hd], event, by simp [Offer.accepted, Offer.answers, hcalls, h.feed]⟩
    case isFalse hd => exact .inr ⟨by simp [hd], by simp [Offer.accepted, Offer.answers, hcalls]⟩

theorem Accounts.delivered (h : Accounts decoder raw s s' o) :
    s'.delivered = s.delivered + .ofNat o.accepted.length := by
  rcases h.accepted with ⟨hresult, event, haccepted⟩ | ⟨hresult, haccepted⟩
  · simp [(h.counts _ hresult).delivered, haccepted]
  · cases hr : o.result with
    | ok d =>
      have hd : d ≠ .delivered := fun hd => hresult (hd ▸ hr)
      simp [(h.counts d hr).delivered, hd, haccepted]
    | error error => simp [(h.fails error hr).delivered, haccepted]

theorem Accounts.measured (h : Accounts decoder raw s s' o) :
    s'.measured = o.measurement?.toList ++ s.measured := by
  cases hr : o.result with
  | ok d => simp [(h.counts d hr).measured, Offer.measurement?, hr, h.feed]
  | error error => simp [(h.fails error hr).measured, Offer.measurement?, hr]

theorem Accounts.counter (h : Accounts decoder raw s s' o) (before : Metrics) {x : Measurement}
    (hx : x.ofOffer = true) :
    (s'.table before).counter x =
      (s.table before).counter x + if o.measurement? = some x then 1 else 0 := by
  rw [s'.counter_table before hx, s.counter_table before hx, h.measured, List.count_append]
  cases hm : o.measurement? with
  | none => simp
  | some y =>
    simp only [Option.toList_some, List.count_singleton, beq_iff_eq, Option.some.injEq]
    omega

theorem Accounts.byFeed (h : Accounts decoder raw s s' o) (feed : Feed) :
    o.measurement?.toList.count (.delivered feed) = o.accepted.countP (·.1 = feed) := by
  rcases h.accepted with ⟨hresult, event, haccepted⟩ | ⟨hresult, haccepted⟩
  · simp [Offer.measurement?, hresult, haccepted, Disposal.measurement, h.feed,
      List.count_singleton]
  · cases hr : o.result with
    | ok d => cases d <;> simp_all [Offer.measurement?, Disposal.measurement]
    | error error => simp [Offer.measurement?, hr, haccepted]

/-- Over many offers, the deliveries are the calls that the handler accepted, each is counted for
the feed that it was made for, and nothing else is counted. -/
structure Totals (s : Sink) (os : List Offer) (s' : Sink) : Prop where
  delivered : s'.delivered = s.delivered + .ofNat (acceptedIn os).length
  measured : ∀ x : Measurement, x.ofOffer = true →
    s'.measured.count x = s.measured.count x + (measuredOf os).count x
  byFeed : ∀ feed, (measuredOf os).count (.delivered feed) =
    (acceptedIn os).countP (·.1 = feed)

theorem Totals.offer (h : s.Totals os s') {s'' : Sink} (ho : Accounts decoder raw s' s'' o) :
    s.Totals (o :: os) s'' := by
  refine ⟨?_, fun x hx => ?_, fun feed => ?_⟩
  · rw [ho.delivered, h.delivered, acceptedIn_cons, List.length_append, UInt64.ofNat_add,
      UInt64.add_assoc, UInt64.add_comm (.ofNat o.accepted.length)]
  · rw [ho.measured, List.count_append, h.measured x hx, measuredOf_cons, List.count_append]
    omega
  · rw [measuredOf_cons, List.count_append, ho.byFeed, h.byFeed, acceptedIn_cons,
      List.countP_append]

theorem Fed.totals (h : Fed decoder s os s') : s.Totals os s' := by
  induction h with
  | nil => exact ⟨(UInt64.add_zero _).symm, fun _ _ => rfl, fun _ => rfl⟩
  | offer h filters handler raw ih => exact ih.offer (accounts_offer ..)
  | withFeed h feed ih => exact ⟨ih.delivered, ih.measured, ih.byFeed⟩
  | @measure _ s' h y hy ih =>
    refine ⟨ih.delivered, fun x hx => ?_, ih.byFeed⟩
    have hne : y ≠ x := by
      rintro rfl
      cases hx.symm.trans hy
    exact (List.count_cons_of_ne hne).trans (ih.measured x hx)

end Sink
end LedgerFeed
