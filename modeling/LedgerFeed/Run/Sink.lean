import LedgerFeed.Event.Decoder
import LedgerFeed.Filter.Basic
import LedgerFeed.Run.Error
import LedgerFeed.Run.Measurement
import LedgerFeed.Run.RecentIds

/-! The sink of a run takes offered events one at a time: duplicates and events that the filters
refuse are skipped, the others wait for the handler's verdict. An id is remembered once its event
was accepted or filtered out, so a failure can repeat an event but never lose one. -/

namespace LedgerFeed

inductive Verdict where
  | accepted
  | failed (cause : String)
  | panicked (payload : Option String)
  deriving DecidableEq

inductive Judgement where
  | duplicate
  | undecodable (error : DecodeError)
  | filtered
  | wanted (event : ContractEvent)
  deriving DecidableEq

structure Sink where
  recent : RecentIds
  delivered : UInt64
  feed : Feed
  measured : List Measurement
  /-- Every event that was offered, with what was made of it; latest first. -/
  offers : List (RawEvent × Judgement)
  deriving DecidableEq

inductive Offered where
  | through (sink : Sink)
  | asking (sink : Sink) (raw : RawEvent) (event : ContractEvent) (rest : List RawEvent)
  | stopped (sink : Sink)
  | undecodable (sink : Sink) (raw : RawEvent) (error : DecodeError)

namespace Sink

def ofCapacity (capacity : UInt64) (feed : Feed) : Sink :=
  ⟨.ofCapacity capacity.toNat, 0, feed, [], []⟩

def offered (s : Sink) : List RawEvent :=
  (s.offers.map Prod.fst).reverse

def measure (s : Sink) (m : Measurement) : Sink :=
  { s with measured := m :: s.measured }

def withFeed (s : Sink) (feed : Feed) : Sink :=
  { s with feed }

def judge (s : Sink) (decoder : Decoder) (filters : List EventFilter) (raw : RawEvent) :
    Judgement :=
  if s.recent.contains raw.id then .duplicate
  else
    match decoder.decode raw with
    | .error e => .undecodable e
    | .ok event => if wanted filters event then .wanted event else .filtered

def note (s : Sink) (raw : RawEvent) (judgement : Judgement) : Sink :=
  { s with offers := (raw, judgement) :: s.offers }

def skipDuplicate (s : Sink) : Sink :=
  s.measure (.skipped .duplicate)

def skipFiltered (s : Sink) (raw : RawEvent) : Sink :=
  { s with recent := s.recent.record raw.id }.measure (.skipped .filtered)

def deliver (s : Sink) (raw : RawEvent) : Sink :=
  { s with recent := s.recent.record raw.id, delivered := s.delivered + 1 }.measure
    (.delivered s.feed)

def settle (s : Sink) (raw : RawEvent) : Verdict → Except IngestError Sink
  | .accepted => .ok (s.deliver raw)
  | .failed cause => .error (.handler raw.id cause)
  | .panicked payload =>
    let text := payload.getD "non-string panic payload"
    .error (.unexpected s!"event handler panicked on {raw.id}: {text}")

section

variable (s : Sink) (raw : RawEvent) (judgement : Judgement) (m : Measurement) (feed : Feed)

@[simp] theorem recent_ofCapacity (capacity : UInt64) :
    (ofCapacity capacity feed).recent = .ofCapacity capacity.toNat := rfl

@[simp] theorem delivered_ofCapacity (capacity : UInt64) :
    (ofCapacity capacity feed).delivered = 0 := rfl

@[simp] theorem recent_measure : (s.measure m).recent = s.recent := rfl
@[simp] theorem delivered_measure : (s.measure m).delivered = s.delivered := rfl
@[simp] theorem offered_measure : (s.measure m).offered = s.offered := rfl

@[simp] theorem recent_withFeed : (s.withFeed feed).recent = s.recent := rfl
@[simp] theorem delivered_withFeed : (s.withFeed feed).delivered = s.delivered := rfl

@[simp] theorem recent_note : (s.note raw judgement).recent = s.recent := rfl
@[simp] theorem delivered_note : (s.note raw judgement).delivered = s.delivered := rfl

@[simp] theorem offered_note : (s.note raw judgement).offered = s.offered ++ [raw] := by
  simp [offered, note]

@[simp] theorem recent_skipDuplicate : s.skipDuplicate.recent = s.recent := rfl
@[simp] theorem delivered_skipDuplicate : s.skipDuplicate.delivered = s.delivered := rfl
@[simp] theorem offered_skipDuplicate : s.skipDuplicate.offered = s.offered := rfl

@[simp] theorem recent_skipFiltered : (s.skipFiltered raw).recent = s.recent.record raw.id := rfl
@[simp] theorem delivered_skipFiltered : (s.skipFiltered raw).delivered = s.delivered := rfl
@[simp] theorem offered_skipFiltered : (s.skipFiltered raw).offered = s.offered := rfl

@[simp] theorem recent_deliver : (s.deliver raw).recent = s.recent.record raw.id := rfl
@[simp] theorem delivered_deliver : (s.deliver raw).delivered = s.delivered + 1 := rfl
@[simp] theorem offered_deliver : (s.deliver raw).offered = s.offered := rfl

end

section

variable {s : Sink} {decoder : Decoder} {filters : List EventFilter} {raw : RawEvent}

theorem judge_eq_duplicate_iff :
    s.judge decoder filters raw = .duplicate ↔ s.recent.contains raw.id = true := by
  unfold judge
  split
  · simp [*]
  · split
    · simp [*]
    · split <;> simp [*]

theorem judge_eq_undecodable_iff {e : DecodeError} :
    s.judge decoder filters raw = .undecodable e ↔
      s.recent.contains raw.id = false ∧ decoder.decode raw = .error e := by
  unfold judge
  split
  · simp [*]
  · split
    · simp [*]
    · split <;> simp [*]

theorem judge_eq_filtered_iff :
    s.judge decoder filters raw = .filtered ↔ s.recent.contains raw.id = false ∧
      ∃ event, decoder.decode raw = .ok event ∧ LedgerFeed.wanted filters event = false := by
  unfold judge
  split
  · simp [*]
  · split
    · simp [*]
    · split <;> simp [*]

theorem judge_eq_wanted_iff {event : ContractEvent} :
    s.judge decoder filters raw = .wanted event ↔ s.recent.contains raw.id = false ∧
      decoder.decode raw = .ok event ∧ LedgerFeed.wanted filters event = true := by
  unfold judge
  split
  · simp [*]
  · split
    · simp [*]
    · split
      · simp only [Judgement.wanted.injEq, Except.ok.injEq, *]
        grind
      · grind

end

/-- Offers events in order, up to one that needs the handler. A stop keeps the next event from
being offered. -/
def offerAll (decoder : Decoder) (filters : List EventFilter) (stop : Bool) :
    Sink → List RawEvent → Offered
  | s, [] => .through s
  | s, raw :: rest =>
    if stop then .stopped s
    else
      let judgement := s.judge decoder filters raw
      let noted := s.note raw judgement
      match judgement with
      | .duplicate => offerAll decoder filters stop noted.skipDuplicate rest
      | .filtered => offerAll decoder filters stop (noted.skipFiltered raw) rest
      | .undecodable e => .undecodable noted raw e
      | .wanted event => .asking noted raw event rest

end Sink
end LedgerFeed
