import LedgerFeed.Proofs.Offering

/-! Settings for runs of any page size: nodes that serve from a store, and a handler that goes by
what it was given. What becomes of a run there is put without pages, event by event and ledger by
ledger. -/

namespace LedgerFeed

/-- Nodes with a fixed store, whose health and tips change only with the health queries; a handler;
and the filters that are active all the time. Nobody asks for a stop. -/
structure Setting where
  listing : LedgerNumber → List RawEvent
  cursor : LedgerNumber → Nat → String
  place : String → LedgerNumber × Nat
  place_cursor : ∀ ledger n, place (cursor ledger n) = (ledger, n)
  stored : List RawLedger
  health : NodeRole → Nat → Except NodeFailure Health
  tip : NodeRole → Nat → LedgerNumber
  oldest : LedgerNumber
  verdict : List ContractEvent → ContractEvent → Verdict
  filters : List EventFilter

def Question.asksHealth : Question → Bool
  | health _ => true
  | events _ | ledgers _ | handle _ | pause _ => false

def healthQueries {a : Assignment} (history : List (Moment a)) : Nat :=
  (asked history).countP Question.asksHealth

@[simp] theorem healthQueries_append {a : Assignment} (later earlier : List (Moment a)) :
    healthQueries (later ++ earlier) = healthQueries earlier + healthQueries later := by
  simp [healthQueries]

theorem healthQueries_cons {a : Assignment} (m : Moment a) (earlier : List (Moment a)) :
    healthQueries (m :: earlier) =
      healthQueries earlier + if m.question.asksHealth then 1 else 0 := by
  rw [healthQueries, asked_cons, List.countP_append, List.countP_singleton]
  rfl

structure Tally where
  sink : Sink
  given : List ContractEvent
  queries : Nat

structure Breakdown where
  tally : Tally
  error : IngestError

namespace Setting

def signals (s : Setting) : Signals :=
  ⟨false, s.filters⟩

def slice (s : Setting) (latest ledger : LedgerNumber) (place limit : Nat) : EventsPage where
  events := ((s.listing ledger).drop place).take limit
  latest
  cursor :=
    if place + limit < (s.listing ledger).length then some (s.cursor ledger (place + limit))
    else none

def page (s : Setting) (latest : LedgerNumber) (request : EventsRequest) : EventsPage :=
  match request.cursor, request.start with
  | some cursor, _ =>
    s.slice latest (s.place cursor).1 (s.place cursor).2 request.limit.toNat
  | none, some ledger => s.slice latest ledger 0 request.limit.toNat
  | none, none => ⟨[], latest, none⟩

def batch (s : Setting) (latest : LedgerNumber) (request : LedgersRequest) : LedgersPage where
  ledgers := (s.stored.filter fun ledger => request.start ≤ ledger.sequence).take
    request.limit.toNat
  latest
  oldest := s.oldest

def world (s : Setting) (a : Assignment) : World a where
  signals _ := s.signals
  reply history
    | .health role => s.health role (healthQueries history)
    | .events request => .ok (s.page (s.tip .live (healthQueries history)) request)
    | .ledgers request => .ok (s.batch (s.tip .archive (healthQueries history)) request)
    | .handle event => s.verdict (received history) event
    | .pause _ => ()

def feed (s : Setting) (decoder : Decoder) : Tally → List RawEvent → Except Breakdown Tally
  | t, [] => .ok t
  | t, raw :: rest =>
    match t.sink.judge decoder s.filters raw with
    | .duplicate => feed s decoder t rest
    | .filtered => feed s decoder { t with sink := t.sink.skipFiltered raw } rest
    | .undecodable cause => .error ⟨t, .decode raw.ledger cause⟩
    | .wanted event =>
      match t.sink.settle raw (s.verdict t.given event) with
      | .error error => .error ⟨{ t with given := t.given ++ [event] }, error⟩
      | .ok sink => feed s decoder { t with sink, given := t.given ++ [event] } rest

def fill (s : Setting) (decoder : Decoder) : Nat → LedgerNumber → Tally → Except Breakdown Tally
  | 0, _, t => .ok t
  | n + 1, next, t =>
    match s.stored.find? fun ledger => next ≤ ledger.sequence with
    | none => .error ⟨t, .archiveGap next (s.tip .archive t.queries)⟩
    | some ledger =>
      if ledger.sequence ≠ next then .error ⟨t, .archiveGap next (s.tip .archive t.queries)⟩
      else
        match decoder.ledgerEvents ledger with
        | .error cause => .error ⟨t, .decode ledger.sequence cause⟩
        | .ok raws => s.feed decoder t raws >>= fill s decoder n (next + 1)

end Setting

structure Tally.Fits {a : Assignment} (t : Tally) (history : List (Moment a)) (sink : Sink) :
    Prop where
  recent : sink.recent = t.sink.recent
  delivered : sink.delivered = t.sink.delivered
  given : received history = t.given
  queries : healthQueries history = t.queries

variable {a : Assignment} {s : Setting} {t : Tally} {before moments : List (Moment a)}
  {sink sink' : Sink}

theorem Idle.healthQueries (h : Idle moments) : healthQueries moments = 0 := by
  apply List.countP_eq_zero.mpr
  intro q hq
  obtain ⟨_, rfl⟩ := h q hq
  simp [Question.asksHealth]

namespace Tally.Fits

theorem quiet (h : t.Fits before sink) (hm : received moments = [])
    (hq : healthQueries moments = 0) (hr : sink'.recent = sink.recent)
    (hd : sink'.delivered = sink.delivered) : t.Fits (moments ++ before) sink' := by
  refine ⟨hr.trans h.recent, hd.trans h.delivered, ?_, ?_⟩
  · rw [received_append, hm, List.append_nil, h.given]
  · rw [healthQueries_append, hq, Nat.add_zero, h.queries]

theorem idle (h : t.Fits before sink) (hm : Idle moments) : t.Fits (moments ++ before) sink :=
  h.quiet hm.received hm.healthQueries rfl rfl

theorem withSink (h : t.Fits before sink) (hr : sink'.recent = sink.recent)
    (hd : sink'.delivered = sink.delivered) : t.Fits before sink' :=
  ⟨hr.trans h.recent, hd.trans h.delivered, h.given, h.queries⟩

theorem judge_eq (h : t.Fits before sink) (decoder : Decoder) (filters : List EventFilter)
    (raw : RawEvent) : sink.judge decoder filters raw = t.sink.judge decoder filters raw := by
  rw [Sink.judge, h.recent]
  rfl

theorem skipFiltered (h : t.Fits before sink) (raw : RawEvent) (judgement : Judgement) :
    { t with sink := t.sink.skipFiltered raw : Tally }.Fits before
      ((sink.note raw judgement).skipFiltered raw) :=
  ⟨congrArg (RecentIds.record · raw.id) h.recent, h.delivered, h.given, h.queries⟩

theorem handed (h : t.Fits before sink) {m : Moment a} {event : ContractEvent}
    (hm : m.question = .handle event) :
    { t with given := t.given ++ [event] : Tally }.Fits (m :: before) sink := by
  refine ⟨h.recent, h.delivered, ?_, ?_⟩
  · rw [received_cons, h.given, hm]
    rfl
  · rw [← h.queries, healthQueries_cons, hm]
    rfl

theorem asked (h : t.Fits before sink) {m : Moment a} {role : NodeRole}
    (hm : m.question = .health role) :
    { t with queries := t.queries + 1 : Tally }.Fits (m :: before) sink := by
  refine ⟨h.recent, h.delivered, ?_, ?_⟩
  · rw [received_cons, h.given, hm]
    exact List.append_nil _
  · rw [healthQueries_cons, h.queries, hm]
    rfl

theorem deliver (h : t.Fits before sink) (raw : RawEvent) :
    { t with sink := t.sink.deliver raw : Tally }.Fits before (sink.deliver raw) :=
  ⟨congrArg (RecentIds.record · raw.id) h.recent, congrArg (· + 1) h.delivered, h.given, h.queries⟩

end Tally.Fits

namespace Setting

theorem feed_append (s : Setting) (decoder : Decoder) (t : Tally) (xs ys : List RawEvent) :
    s.feed decoder t (xs ++ ys) = s.feed decoder t xs >>= fun t => s.feed decoder t ys := by
  induction xs generalizing t with
  | nil => rfl
  | cons raw xs ih =>
    rw [List.cons_append, feed, feed]
    cases t.sink.judge decoder s.filters raw with
    | duplicate | filtered => exact ih _
    | undecodable => rfl
    | wanted event =>
      dsimp only
      cases t.sink.settle raw (s.verdict t.given event) with
      | error => rfl
      | ok sink => exact ih _

theorem queries_of_feed {decoder : Decoder} {raws : List RawEvent} {t' : Tally}
    (h : s.feed decoder t raws = .ok t') : t'.queries = t.queries := by
  induction raws generalizing t with
  | nil => exact congrArg Tally.queries (Except.ok.inj h).symm
  | cons raw rest ih =>
    rw [feed] at h
    split at h
    · exact ih h
    · exact ih (t := { t with sink := t.sink.skipFiltered raw }) h
    · cases h
    split at h
    · cases h
    · rename_i event _ _ sink _
      exact ih (t := { t with sink, given := t.given ++ [event] }) h

/-- In the setting a run comes to stand as a result has it: it goes on, or it has failed. -/
def Brings (s : Setting) (before : List (Moment a)) (p : Progress)
    (result : Except Breakdown Tally) (go : Sink → Progress) : Prop :=
  ∃ moments sink, match result with
    | .ok t => (s.world a).Leads before p moments (go sink) ∧ t.Fits (moments ++ before) sink
    | .error b => (s.world a).Leads before p moments (Assignment.failed sink b.error) ∧
        b.tally.Fits (moments ++ before) sink

variable {p q : Progress} {go go' : Sink → Progress} {result : Except Breakdown Tally}

theorem Brings.here (h : t.Fits before sink) (hp : p = go sink) :
    s.Brings before p (.ok t) go :=
  ⟨[], sink, hp ▸ .refl .., h⟩

theorem Brings.failed {error : IngestError} (h : t.Fits before sink) :
    s.Brings before (Assignment.failed sink error) (.error ⟨t, error⟩) go :=
  ⟨[], sink, .refl .., h⟩

theorem Brings.of_leads (hl : (s.world a).Leads before p moments q)
    (h : s.Brings (moments ++ before) q result go) : s.Brings before p result go := by
  obtain ⟨later, sink, h⟩ := h
  refine ⟨later ++ moments, sink, ?_⟩
  cases result with
  | ok | error =>
    obtain ⟨hl', hfits⟩ := h
    exact ⟨hl.trans hl', by rwa [List.append_assoc]⟩

theorem Brings.bind {next : Tally → Except Breakdown Tally} (h : s.Brings before p result go)
    (hgo : ∀ t moments sink, result = .ok t → t.Fits (moments ++ before) sink →
      s.Brings (moments ++ before) (go sink) (next t) go') :
    s.Brings before p (result >>= next) go' := by
  obtain ⟨moments, sink, h⟩ := h
  cases result with
  | ok t => exact .of_leads h.1 (hgo t moments sink rfl h.2)
  | error b => exact ⟨moments, sink, h⟩

theorem Brings.andThen (h : s.Brings before p (.ok t) go)
    (hgo : ∀ moments sink, t.Fits (moments ++ before) sink →
      s.Brings (moments ++ before) (go sink) result go') : s.Brings before p result go' := by
  obtain ⟨moments, sink, hl, hfits⟩ := h
  exact .of_leads hl (hgo moments sink hfits)

theorem offerThen_brings {ledger : LedgerNumber} {origin : List RawEvent → Origin}
    {go : Signals → Sink → Progress} (hc : a.Continues s.filters ledger origin go)
    (raws : List RawEvent) (h : t.Fits before sink) :
    s.Brings before (a.offerThen s.signals sink s.filters ledger origin raws (go s.signals))
      (s.feed a.decoder t raws) (go s.signals) := by
  induction raws generalizing before sink t with
  | nil => exact .here h rfl
  | cons raw rest ih =>
    rw [offerThen_cons rfl, feed, h.judge_eq]
    cases t.sink.judge a.decoder s.filters raw with
    | duplicate => exact ih (h.withSink rfl rfl)
    | filtered => exact ih (h.skipFiltered raw .filtered)
    | undecodable cause => exact .failed (h.withSink rfl rfl)
    | wanted event =>
      dsimp only
      have hnoted : t.Fits before (sink.note raw (.wanted event)) := h.withSink rfl rfl
      have hhanded := hnoted.handed (m := (s.world a).moment before
        (.verdict raw event (origin rest))) rfl
      refine .of_leads (World.leads_moment ..) ?_
      have hverdict : (s.world a).reply before
          ((Pending.verdict raw event (origin rest)).question a) = s.verdict t.given event :=
        congrArg (s.verdict · event) h.given
      rw [hverdict, hc]
      cases s.verdict t.given event with
      | accepted => exact ih (hhanded.deliver raw)
      | failed | panicked => exact .failed hhanded

theorem wait_brings (h : t.Fits before sink) (milliseconds : UInt64) (wait : Wait) :
    s.Brings before (a.wait s.signals sink milliseconds wait) (.ok t) fun sink =>
      a.proceed s.signals sink wait := by
  obtain ⟨moments, signals, rfl, hl, hidle⟩ := World.wait_leads (P := (· = s.signals))
    (fun h => h ▸ rfl) (fun _ => rfl) rfl before sink milliseconds wait (w := s.world a)
  exact ⟨moments, sink, hl, h.idle hidle⟩

end Setting
end LedgerFeed
