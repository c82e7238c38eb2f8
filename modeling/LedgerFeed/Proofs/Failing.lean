import LedgerFeed.Proofs.Drawn
import LedgerFeed.Proofs.Passing
import LedgerFeed.Proofs.Stopping

/-! The first failure ends a run. What fails is an answer, an event that is offered, or the payload
of an archived ledger; up to there the run is that of a decoder that can do more. -/

namespace LedgerFeed

structure Decoder.Extends (decoder' decoder : Decoder) : Prop where
  decode : ∀ raw event, decoder.decode raw = .ok event → decoder'.decode raw = .ok event
  ledgerEvents : ∀ ledger raws, decoder.ledgerEvents ledger = .ok raws →
    decoder'.ledgerEvents ledger = .ok raws

def Question.node? : Question → Option NodeRole
  | health role => some role
  | events _ => some .live
  | ledgers _ => some .archive
  | handle _ | pause _ => none

variable {a : Assignment} {signals : Signals} {sink sink' : Sink} {point point' : Point}
  {pending : Pending} {history before : List (Moment a)} {error : IngestError}

inductive Moment.Fails : Moment a → IngestError → Prop
  | live {use : HealthUse} {signals : Signals} {failure : NodeFailure} :
      Fails ⟨.liveHealth use, signals, .error failure⟩ (.node a.live failure)
  | liveUnhealthy {use : HealthUse} {signals : Signals} {health : Health}
      (h : health.healthy = false) :
      Fails ⟨.liveHealth use, signals, .ok health⟩ (.unhealthy a.live)
  | archive {start stop : LedgerNumber} {signals : Signals} {failure : NodeFailure} :
      Fails ⟨.archiveHealth start stop, signals, .error failure⟩ (.node a.archiveEndpoint failure)
  | archiveUnhealthy {start stop : LedgerNumber} {signals : Signals} {health : Health}
      (h : health.healthy = false) :
      Fails ⟨.archiveHealth start stop, signals, .ok health⟩ (.unhealthy a.archiveEndpoint)
  | ledgers {next target : LedgerNumber} {signals : Signals} {failure : NodeFailure} :
      Fails ⟨.ledgers next target, signals, .error failure⟩ (.node a.archiveEndpoint failure)
  | events {poll : Poll} {signals : Signals} {failure : NodeFailure} :
      Fails ⟨.events poll, signals, .error failure⟩ (.node a.live failure)
  | refused {raw : RawEvent} {event : ContractEvent} {origin : Origin} {signals : Signals}
      {cause : String} :
      Fails ⟨.verdict raw event origin, signals, .failed cause⟩ (.handler raw.id cause)
  | panicked {raw : RawEvent} {event : ContractEvent} {origin : Origin} {signals : Signals}
      {payload : Option String} {text : String}
      (h : payload.getD "non-string panic payload" = text) :
      Fails ⟨.verdict raw event origin, signals, .panicked payload⟩
        (.unexpected s!"event handler panicked on {raw.id}: {text}")

theorem Moment.fails_iff {reply : (pending.question a).Reply} :
    Moment.Fails ⟨pending, signals, reply⟩ error ↔ a.failure? sink pending reply = some error := by
  have hhealth {endpoint : String} {reported : Health}
      (h : (if reported.healthy then none else some (IngestError.unhealthy endpoint)) =
        some error) : reported.healthy = false ∧ .unhealthy endpoint = error := by
    simpa only [Option.ite_none_left_eq_some, Option.some.injEq, Bool.not_eq_true] using h
  constructor
  · intro h
    cases h with
    | liveUnhealthy h | archiveUnhealthy h => simp [Assignment.failure?, h]
    | panicked h => exact h ▸ rfl
    | live | archive | ledgers | events | refused => rfl
  · intro h
    cases pending with
    | liveHealth use =>
      cases reply with
      | error failure => exact Option.some.inj h ▸ .live
      | ok reported =>
        obtain ⟨hbad, rfl⟩ := hhealth h
        exact .liveUnhealthy hbad
    | archiveHealth start stop =>
      cases reply with
      | error failure => exact Option.some.inj h ▸ .archive
      | ok reported =>
        obtain ⟨hbad, rfl⟩ := hhealth h
        exact .archiveUnhealthy hbad
    | ledgers next target =>
      cases reply with
      | error failure => exact Option.some.inj h ▸ .ledgers
      | ok page => cases h
    | events poll =>
      cases reply with
      | error failure => exact Option.some.inj h ▸ .events
      | ok page => cases h
    | verdict raw event origin =>
      cases reply with
      | accepted => cases h
      | failed cause => exact Option.some.inj h ▸ .refused
      | panicked payload => exact Option.some.inj h ▸ .panicked rfl
    | pause => cases h

namespace Assignment

/-- At a point that a run passes something fails: the answer that comes there, the event that is
offered there and has to be decoded, or the payload of the archived ledger that is to be read
there. -/
inductive FailsAt (a : Assignment) (before : List (Moment a)) (sink : Sink) :
    Point → List (Moment a) → IngestError → Prop
  | answer {pending : Pending} {signals : Signals} {reply : (pending.question a).Reply}
      {error : IngestError} (h : Moment.Fails ⟨pending, signals, reply⟩ error) :
      FailsAt a before sink (.asking pending) (⟨pending, signals, reply⟩ :: before) error
  | event {origin : Origin} {raw : RawEvent} {rest : List RawEvent} {cause : DecodeError}
      (hs : ∀ m ∈ before.head?, m.signals.stop = false) (h : origin.rest = raw :: rest)
      (hnew : sink.recent.contains raw.id = false) (hd : a.decoder.decode raw = .error cause) :
      FailsAt a before sink (.offering origin) before (.decode raw.ledger cause)
  | payload {b : Batch} {ledger : RawLedger} {ledgers : List RawLedger} {cause : DecodeError}
      (h : ledger.sequence = b.expected) (hle : b.expected ≤ b.target)
      (hr : a.decoder.ledgerEvents ledger = .error cause) :
      FailsAt a before sink (.taking b (ledger :: ledgers)) before (.decode ledger.sequence cause)

/-- Where something fails the run ends with the error. -/
theorem FailsAt.ends (hf : a.FailsAt before sink point history error)
    (hp : a.Passes before sink point) :
    ∃ sink', a.Reaches history (.ended sink' (.error error)) := by
  cases hf with
  | @answer pending signals reply error h =>
    have hends := hp.reaches_asking.resume signals reply
    rw [resume_of_failure? (Moment.fails_iff.mp h)] at hends
    exact ⟨sink, hends⟩
  | event hs h hnew hd =>
    obtain ⟨m, earlier, rfl⟩ := hp.eq_cons (by simp) (by simp)
    have hends := hp.reaches
    rw [goOn_offering (hs m rfl) h, Sink.judge_eq_undecodable_iff.mpr ⟨hnew, hd⟩] at hends
    exact ⟨_, hends⟩
  | payload h hle hr =>
    obtain ⟨m, earlier, rfl⟩ := hp.eq_cons (by simp) (by simp)
    have hends := hp.reaches
    rw [goOn, offerBatch, if_neg (by simp [h]), if_neg (by simpa [h] using hle),
      if_neg (by simp [h]), hr] at hends
    exact ⟨sink, hends⟩

theorem FailsAt.accepted (h : a.FailsAt before sink point history error) :
    LedgerFeed.accepted history = LedgerFeed.accepted before := by
  cases h with
  | @answer pending signals reply error h =>
    have hfails : a.failure? sink pending reply = some error := Moment.fails_iff.mp h
    exact accepted_cons_of_none (accepted?_of_failure? hfails)
  | event | payload => rfl

def withDecoder (a : Assignment) (decoder : Decoder) : Assignment :=
  { a with decoder }

end Assignment

def Moment.withDecoder (m : Moment a) (decoder : Decoder) : Moment (a.withDecoder decoder) :=
  ⟨m.pending, m.signals, m.reply⟩

theorem accepted_withDecoder (history : List (Moment a)) (decoder : Decoder) :
    accepted (history.map (Moment.withDecoder · decoder)) = accepted history := by
  have haccepted : Moment.accepted? ∘ (Moment.withDecoder · decoder) = @Moment.accepted? a := by
    funext m
    obtain ⟨pending, signals, reply⟩ := m
    cases pending with
    | verdict => cases reply <;> rfl
    | liveHealth | archiveHealth | ledgers | events | pause => rfl
  rw [accepted, ← List.map_reverse, List.filterMap_map, haccepted]
  rfl

namespace Sink

theorem judge_of_extends {decoder decoder' : Decoder} (hd : decoder'.Extends decoder)
    {filters : List EventFilter} {raw : RawEvent}
    (hj : ∀ cause, sink.judge decoder filters raw ≠ .undecodable cause) :
    sink.judge decoder' filters raw = sink.judge decoder filters raw := by
  cases h : sink.judge decoder filters raw with
  | duplicate => exact judge_eq_duplicate_iff.mpr (judge_eq_duplicate_iff.mp h)
  | undecodable cause => exact absurd h (hj cause)
  | filtered =>
    obtain ⟨hnew, event, hdecode, hw⟩ := judge_eq_filtered_iff.mp h
    exact judge_eq_filtered_iff.mpr ⟨hnew, event, hd.decode raw event hdecode, hw⟩
  | wanted event =>
    obtain ⟨hnew, hdecode, hw⟩ := judge_eq_wanted_iff.mp h
    exact judge_eq_wanted_iff.mpr ⟨hnew, hd.decode raw event hdecode, hw⟩

end Sink

namespace Assignment

variable {decoder : Decoder}

theorem failure?_withDecoder (reply : (pending.question a).Reply) :
    (a.withDecoder decoder).failure? sink pending reply = a.failure? sink pending reply := by
  cases pending with
  | liveHealth | archiveHealth | ledgers | events => cases reply <;> rfl
  | verdict | pause => rfl

theorem Hears.withDecoder {reply : (pending.question a).Reply}
    (h : a.Hears signals sink pending reply sink' point) :
    (a.withDecoder decoder).Hears signals sink pending reply sink' point := by
  have hadmits {start : Option LedgerNumber} {health : Health} {first : LedgerNumber}
      (h : a.Admits signals start health first) :
      (a.withDecoder decoder).Admits signals start health first :=
    ⟨h.healthy, h.eq, h.within, h.running, h.closed⟩
  cases h with
  | failed h => exact .failed ((failure?_withDecoder _).trans h)
  | tipPast hh h => exact .tipPast hh h
  | stopped hh hin hs => exact .stopped hh hin hs
  | ahead hh hs h => exact .ahead hh hs h
  | within ha h => exact .within (hadmits ha) h
  | refused ha h hn => exact .refused (hadmits ha) h hn
  | below ha h hsome => exact .below (hadmits ha) h hsome
  | unclosed hh h => exact .unclosed hh h
  | closed hh h => exact .closed hh h
  | archiveAhead hh h => exact .archiveAhead hh h
  | archiveReady hh h => exact .archiveReady hh h
  | ledgers => exact .ledgers
  | events => exact .events
  | accepted => exact .accepted
  | rested => exact .rested

/-- A decoder that can do more changes no move but those that end the run for what cannot be
decoded. -/
theorem Moves.withDecoder (hd : decoder.Extends a.decoder)
    (h : a.Moves signals sink point sink' point')
    (hpoint : ∀ ledger cause, point' ≠ .ended (.error (.decode ledger cause))) :
    (a.withDecoder decoder).Moves signals sink point sink' point' := by
  cases h with
  | unreadable | undecodable => exact (hpoint _ _ rfl).elim
  | read h hle hr => exact .read h hle (hd.ledgerEvents _ _ hr)
  | duplicate hs h hj =>
    exact .duplicate hs h ((Sink.judge_of_extends hd (by simp [hj])).trans hj)
  | filtered hs h hj =>
    exact .filtered hs h ((Sink.judge_of_extends hd (by simp [hj])).trans hj)
  | askHandler hs h hj =>
    exact .askHandler hs h ((Sink.judge_of_extends hd (by simp [hj])).trans hj)
  | _ => constructor <;> assumption

theorem Moves.not_ended {result : Except IngestError Exit} :
    ¬a.Moves signals sink (.ended result) sink' point' := by
  intro h
  cases h with
  | stop hs h => cases h

theorem Passes.withDecoder (hd : decoder.Extends a.decoder) (h : a.Passes history sink point)
    (hpoint : ∀ result, point ≠ .ended result) :
    (a.withDecoder decoder).Passes (history.map (Moment.withDecoder · decoder)) sink point := by
  induction h with
  | begin => exact .begin
  | hear h signals hh ih => exact .hear (ih (by simp)) signals hh.withDecoder
  | move h hm ih =>
    -- a run that has ended moves no more, so the point before is not an end either
    refine .move (ih fun result hended => ?_) (hm.withDecoder hd fun _ _ => hpoint _)
    exact (hended ▸ hm).not_ended

end Assignment

/-! The archive is asked only where one is bound. -/

def Wait.archival : Wait → Bool
  | betweenBatches .. => true
  | atTip .. | betweenPages _ => false

def Origin.archival : Origin → Bool
  | batch .. => true
  | page .. => false

def Pending.archival : Pending → Bool
  | archiveHealth .. | ledgers .. => true
  | verdict _ _ origin => origin.archival
  | pause _ wait => wait.archival
  | liveHealth _ | events _ => false

def Point.archival : Point → Bool
  | backfilling .. | taking .. | taken _ => true
  | offering origin => origin.archival
  | resting _ wait => wait.archival
  | asking pending => pending.archival
  | choosing _ | backfilled _ | following .. | requesting _ | paged .. | polled .. | ended _ =>
    false

@[simp] theorem Origin.archival_withRest (origin : Origin) (rest : List RawEvent) :
    (origin.withRest rest).archival = origin.archival := by
  cases origin <;> rfl

theorem Wait.archival_point (wait : Wait) : wait.point.archival = wait.archival := by
  cases wait <;> rfl

theorem Moment.archival_of_node? {m : Moment a} (h : m.question.node? = some .archive) :
    m.pending.archival = true := by
  obtain ⟨pending, signals, reply⟩ := m
  cases pending with
  | archiveHealth | ledgers => rfl
  | liveHealth | events | verdict | pause => cases h

theorem Engine.archive_of_allow {e : Engine} {request : RunRequest}
    (h : e.allow request = .ok ()) (hkind : request.kind = .archive) :
    (e.assign request).archive.isSome = true := by
  unfold allow at h
  cases hcheck : request.check with
  | error error =>
    rw [hcheck] at h
    cases h
  | ok =>
    rw [hcheck] at h
    cases harchive : e.archive with
    | none => simp [hkind, harchive, bind, Except.bind] at h
    | some endpoint =>
      cases request with
      | archive => simp [assign, harchive]
      | live | combined => cases hkind

namespace Assignment

theorem Hears.archival {reply : (pending.question a).Reply}
    (h : a.Hears signals sink pending reply sink' point) (hpoint : point.archival = true) :
    pending.archival = true ∨ a.archive.isSome = true := by
  cases h with
  | below ha h hsome => exact .inr hsome
  | archiveReady | ledgers => exact .inl rfl
  | accepted => exact .inl hpoint
  | rested => exact .inl hpoint
  | failed | tipPast | stopped | ahead | within | refused | unclosed | closed | archiveAhead
    | events => cases hpoint

theorem Moves.archival (h : a.Moves signals sink point sink' point')
    (hpoint : point'.archival = true) : point.archival = true := by
  cases h with
  | askBatch | skipLedger | endLedgers | read | endLedger | nextBatch => rfl
  | duplicate | filtered | askHandler => simpa [Point.archival, Pending.archival] using hpoint
  | proceed => exact (Wait.archival_point _).symm.trans hpoint
  | pause => exact hpoint
  | _ => cases hpoint

theorem Reaches.archive_eq (hbound : a.request.kind = .archive → a.archive.isSome = true)
    {p : Progress} (h : a.Reaches history p) :
    ∀ m ∈ history, m.question.node? = some .archive → a.archive = some a.archiveEndpoint := by
  have hsome : (∀ m ∈ history, m.pending.archival = true → a.archive.isSome = true) ∧
      (p.point.archival = true → a.archive.isSome = true) := by
    refine h.invariant (I := fun history _ point =>
      (∀ m ∈ history, m.pending.archival = true → a.archive.isSome = true) ∧
        (point.archival = true → a.archive.isSome = true)) ?_ ?_ ?_
    · refine ⟨by simp, fun hpoint => ?_⟩
      rcases begin_cases a with ⟨_, _, hrequest, -⟩ | ⟨-, ⟨-, hbegin⟩ | ⟨_, -, -, hbegin⟩⟩
      · exact hbound (by rw [hrequest]; rfl)
      all_goals
        rw [hbegin] at hpoint
        cases hpoint
    · rintro history sink pending reply sink' point signals ⟨hhistory, hpending⟩ hh
      refine ⟨fun m hm hmoment => ?_, fun hpoint => (hh.archival hpoint).elim hpending id⟩
      rcases List.mem_cons.mp hm with rfl | hm
      · exact hpending hmoment
      · exact hhistory m hm hmoment
    · rintro history m sink point sink' point' ⟨hhistory, hpoint⟩ hm
      exact ⟨hhistory, fun hpoint' => hpoint (hm.archival hpoint')⟩
  intro m hm hnode
  obtain ⟨endpoint, harchive⟩ :=
    Option.isSome_iff_exists.mp (hsome.1 m hm (Moment.archival_of_node? hnode))
  simp [archiveEndpoint, harchive]

end Assignment

/-- Where something fails first, the run ends with just that error. Nothing is asked after it and
nothing was accepted but what the run had accepted without the failure. -/
theorem first_failure_ends_run {e : Engine} {request : RunRequest} {flight : Flight}
    (hstart : (e.start request).2 = .ok flight)
    {before history : List (Moment (e.assign request))} {sink : Sink} {point : Point}
    {error : IngestError} (hpasses : (e.assign request).Passes before sink point)
    (hfails : (e.assign request).FailsAt before sink point history error) :
    (∃ sink', (e.assign request).Reaches history (.ended sink' (.error error)) ∧
      (Engine.finish request.kind sink' (.error error)).result = .error error ∧
      ∀ later p, (e.assign request).Reaches (later ++ history) p →
        later = [] ∧ p = .ended sink' (.error error)) ∧
    (∀ m ∈ history, m.question.node? = some .archive →
      (e.assign request).archive = some (e.assign request).archiveEndpoint) ∧
    ∀ decoder : Decoder, decoder.Extends e.decoder →
      ((e.assign request).withDecoder decoder).Passes
        (before.map (Moment.withDecoder · decoder)) sink point ∧
      accepted (before.map (Moment.withDecoder · decoder)) = accepted history := by
  obtain ⟨sink', hends⟩ := hfails.ends hpasses
  have hallow := (Engine.start_eq_ok hstart).1
  refine ⟨⟨sink', hends, rfl, fun later p hlater => hends.eq_nil_of_ended hlater⟩,
    hends.archive_eq (Engine.archive_of_allow hallow), fun decoder hd => ⟨?_, ?_⟩⟩
  · refine hpasses.withDecoder hd fun result hended => ?_
    subst hended
    cases hfails
  · rw [accepted_withDecoder, hfails.accepted]

def refusedPage : EventsPage :=
  ⟨[sampleEvent 4 "a", sampleEvent 4 "b"], 5, none⟩

def refusedPending : Pending :=
  .verdict (sampleEvent 4 "b") ⟨"b", .contract, 4, "", some "C", [], "", true, ""⟩
    (.page crossingPoll refusedPage [])

def refusedHistory : List (Moment crossing) :=
  [⟨.verdict (sampleEvent 4 "a") ⟨"a", .contract, 4, "", some "C", [], "", true, ""⟩
      (.page crossingPoll refusedPage [sampleEvent 4 "b"]), ⟨false, []⟩, .accepted⟩,
    ⟨.events crossingPoll, ⟨false, []⟩, .ok refusedPage⟩,
    ⟨.liveHealth (.choosing (some 4)), ⟨false, []⟩, .ok ⟨true, 4, 5, 4⟩⟩,
    ⟨.ledgers 3 3, ⟨false, []⟩, .ok ⟨[⟨3, "", "", "", []⟩], 5, 3⟩⟩,
    ⟨.liveHealth (.choosing (some 3)), ⟨false, []⟩, .ok ⟨true, 4, 5, 4⟩⟩]

theorem refused_passes :
    ∃ sink, crossing.Passes refusedHistory sink (.asking refusedPending) := by
  have hverdict : ∃ sink, crossing.Reaches refusedHistory (.waiting sink refusedPending) :=
    ⟨_, .replayed (refusedHistory.reverse.map Moment.answer) rfl⟩
  exact hverdict.imp fun _ => Assignment.Reaches.passes

theorem refused_ends_run :
    ∃ (flight : Flight) (sink sink' : Sink),
      (crossingEngine.start crossing.request).2 = .ok flight ∧
      crossing.Passes refusedHistory sink (.asking refusedPending) ∧
      crossing.FailsAt refusedHistory sink (.asking refusedPending)
        (⟨refusedPending, ⟨true, []⟩, .failed "full"⟩ :: refusedHistory) (.handler "b" "full") ∧
      crossing.Reaches (⟨refusedPending, ⟨true, []⟩, .failed "full"⟩ :: refusedHistory)
        (.ended sink' (.error (.handler "b" "full"))) ∧
      (accepted refusedHistory).map ContractEvent.id = ["a"] := by
  obtain ⟨sink, hpasses⟩ := refused_passes
  have hfails : crossing.FailsAt refusedHistory sink (.asking refusedPending)
      (⟨refusedPending, ⟨true, []⟩, .failed "full"⟩ :: refusedHistory) (.handler "b" "full") :=
    .answer .refused
  obtain ⟨⟨sink', hends, -, -⟩, -, -⟩ :=
    @first_failure_ends_run crossingEngine crossing.request _ rfl _ _ _ _ _ hpasses hfails
  exact ⟨_, sink, sink', rfl, hpasses, hfails, hends, rfl⟩

end LedgerFeed
