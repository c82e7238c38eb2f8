import LedgerFeed.Proofs.Moves
import LedgerFeed.Proofs.Standing

/-! What can be said of a point of a run whatever was answered before: a backfill goes no further
than its target, a poll stays in the range, and the events that are offered are of one ledger. -/

namespace LedgerFeed

variable {a : Assignment} {signals : Signals} {sink sink' : Sink} {point point' : Point}

namespace Assignment

structure Targets (a : Assignment) (target : LedgerNumber) : Prop where
  within : a.pastStop target = false
  whole : a.request.kind = .archive → a.request.stop? = some target

structure Batches (a : Assignment) (b : Batch) : Prop extends a.Targets b.target where
  begun : b.next ≤ b.target
  ge : b.next ≤ b.expected
  le : b.expected.toNat ≤ b.target.toNat + 1

structure Polled (a : Assignment) (ledger : LedgerNumber) : Prop where
  kind : a.request.kind ≠ .archive
  within : a.pastStop ledger = false

structure Chooses (a : Assignment) (start : Option LedgerNumber) : Prop where
  kind : a.request.kind ≠ .archive
  fresh : start = none → a.request.start? = none

def Backfilling (a : Assignment) (next target : LedgerNumber) : Prop :=
  a.Targets target ∧ (a.request.kind ≠ .archive → next.toNat ≤ target.toNat + 1)

def Offers (a : Assignment) : Origin → Prop
  | .page poll _ rest => a.Polled poll.ledger ∧ ∀ raw ∈ rest, raw.ledger = poll.ledger
  | .batch b rest _ => a.Batches b ∧ b.expected ≤ b.target ∧
      (a.decoder.ledgerEvents = RawLedger.ownEvents → ∀ raw ∈ rest, raw.ledger = b.expected)

def PlacedAfter (a : Assignment) : Wait → Prop
  | .atTip ledger _ => a.Polled ledger
  | .betweenPages poll => a.Polled poll.ledger
  | .betweenBatches next target => a.Backfilling next target

def PlacedAt (a : Assignment) : Pending → Prop
  | .liveHealth (.choosing start) =>
    a.Chooses start ∧ ∀ ledger, start = some ledger → a.pastStop ledger = false
  | .liveHealth (.following ledger) => a.Polled ledger
  | .archiveHealth start stop => a.request = .archive start stop
  | .ledgers next target => a.Targets target ∧ next ≤ target
  | .events poll => a.Polled poll.ledger
  | .verdict raw event origin =>
    a.decoder.decode raw = .ok event ∧ a.Offers (origin.withRest (raw :: origin.rest))
  | .pause _ wait => a.PlacedAfter wait

def Placed (a : Assignment) : Point → Prop
  | .choosing start => a.Chooses start
  | .backfilling next target => a.Backfilling next target
  | .backfilled target => a.Targets target
  | .taking b _ => a.Batches b
  | .taken b => a.Batches b
  | .following ledger _ => a.Polled ledger
  | .requesting poll => a.Polled poll.ledger
  | .offering origin => a.Offers origin
  | .paged poll _ => a.Polled poll.ledger
  | .polled poll _ => a.Polled poll.ledger
  | .resting _ wait => a.PlacedAfter wait
  | .asking pending => a.PlacedAt pending
  | .ended _ => True

theorem placed_point {wait : Wait} (h : a.PlacedAfter wait) : a.Placed wait.point := by
  cases wait <;> exact h

theorem Offers.withRest {origin : Origin} (h : a.Offers origin) {rest : List RawEvent}
    (hrest : rest ⊆ origin.rest) : a.Offers (origin.withRest rest) := by
  cases origin with
  | page => exact ⟨h.1, fun raw hraw => h.2 raw (hrest hraw)⟩
  | batch => exact ⟨h.1, h.2.1, fun hown raw hraw => h.2.2 hown raw (hrest hraw)⟩

theorem Offers.ledger_eq {origin : Origin} (h : a.Offers origin)
    (hown : a.decoder.ledgerEvents = RawLedger.ownEvents) :
    ∀ raw ∈ origin.rest, raw.ledger = origin.ledger := by
  cases origin with
  | page => exact h.2
  | batch => exact h.2.2 hown

theorem Offers.within {origin : Origin} (h : a.Offers origin) :
    a.pastStop origin.ledger = false := by
  cases origin with
  | page => exact h.1.within
  | batch b =>
    refine pastStop_eq_false_iff.mpr fun stop hstop => ?_
    exact UInt32.le_trans h.2.1 (pastStop_eq_false_iff.mp h.1.within stop hstop)

theorem pastStop_eq_true_iff {ledger : LedgerNumber} : a.pastStop ledger = true ↔
    ∃ stop, a.request.stop? = some stop ∧ stop < ledger := by
  unfold pastStop
  cases a.request.stop? <;> simp

theorem targetBelow_lt {health : Health} {first : LedgerNumber}
    (hlt : first < health.oldestAvailable a.config.retentionMargin) :
    a.targetBelow health < health.oldestAvailable a.config.retentionMargin := by
  have hlast := LedgerNumber.sub_one_lt hlt
  unfold targetBelow
  split
  · rw [UInt32.lt_iff_toNat_lt, LedgerNumber.toNat_min]
    exact Nat.lt_of_le_of_lt (Nat.min_le_left ..) (UInt32.lt_iff_toNat_lt.mp hlast)
  · exact hlast

theorem targets_targetBelow {health : Health} {first : LedgerNumber}
    (hkind : a.request.kind ≠ .archive) (hpast : a.pastStop first = false)
    (hlt : first < health.oldestAvailable a.config.retentionMargin) :
    a.Targets (a.targetBelow health) ∧ first ≤ a.targetBelow health := by
  have hfirst := pastStop_eq_false_iff.mp hpast
  have hlast := LedgerNumber.le_sub_one hlt
  unfold targetBelow
  cases hstop : a.request.stop? with
  | none =>
    refine ⟨⟨pastStop_eq_false_iff.mpr fun stop h => ?_, fun h => absurd h hkind⟩, hlast⟩
    rw [hstop] at h
    cases h
  | some stop =>
    refine ⟨⟨pastStop_eq_false_iff.mpr fun stop' h => ?_, fun h => absurd h hkind⟩, ?_⟩
    · rw [hstop] at h
      obtain rfl := Option.some.inj h
      rw [UInt32.le_iff_toNat_le, LedgerNumber.toNat_min]
      exact Nat.min_le_right ..
    · have hlast := UInt32.le_iff_toNat_le.mp hlast
      have hstop := UInt32.le_iff_toNat_le.mp (hfirst stop hstop)
      rw [UInt32.le_iff_toNat_le, LedgerNumber.toNat_min]
      exact Nat.le_min.mpr ⟨hlast, hstop⟩

theorem Admits.pastStop {start : Option LedgerNumber} {health : Health} {first : LedgerNumber}
    (h : a.Admits signals start health first)
    (hp : ∀ ledger, start = some ledger → a.pastStop ledger = false) :
    a.pastStop first = false := by
  cases start with
  | none =>
    obtain rfl := h.eq
    exact h.within rfl
  | some ledger =>
    obtain rfl := h.eq
    exact hp _ rfl

theorem ownEvents_eq_ok {ledger : RawLedger} {raws : List RawEvent}
    (h : ledger.ownEvents = .ok raws) :
    raws = ledger.events ∧ ∀ raw ∈ raws, raw.ledger = ledger.sequence := by
  unfold RawLedger.ownEvents at h
  split at h
  · cases h
  · rename_i hfind
    obtain rfl := Except.ok.inj h
    refine ⟨rfl, fun raw hraw => ?_⟩
    simpa using List.find?_eq_none.mp hfind raw hraw

theorem ledger_of_mem_ofLedger {page : EventsPage} {ledger : LedgerNumber} {raw : RawEvent}
    (h : raw ∈ page.ofLedger ledger) : raw.ledger = ledger :=
  of_decide_eq_true (List.mem_filter.mp h).2

theorem Hears.placed {pending : Pending} {reply : (pending.question a).Reply}
    (h : a.Hears signals sink pending reply sink' point) (hp : a.PlacedAt pending) :
    a.Placed point := by
  cases h with
  | failed | tipPast | stopped | ahead | refused | archiveAhead => exact trivial
  | within ha => exact ⟨hp.1.kind, ha.pastStop hp.2⟩
  | below ha hlt =>
    obtain ⟨htargets, hle⟩ := targets_targetBelow hp.1.kind (ha.pastStop hp.2) hlt
    exact ⟨htargets, fun _ => Nat.le_succ_of_le (UInt32.le_iff_toNat_le.mp hle)⟩
  | unclosed => exact hp
  | closed => exact hp
  | @archiveReady start stop =>
    have hstop : a.request.stop? = some stop := by
      rw [show a.request = .archive start stop from hp]
      rfl
    refine ⟨⟨?_, fun _ => hstop⟩, fun h => absurd ?_ h⟩
    · simp [Assignment.pastStop, hstop]
    · rw [show a.request = .archive start stop from hp]
      rfl
  | ledgers => exact ⟨hp.1, hp.2, UInt32.le_refl _,
      Nat.le_succ_of_le (UInt32.le_iff_toNat_le.mp hp.2)⟩
  | events => exact ⟨hp, fun raw hraw => ledger_of_mem_ofLedger hraw⟩
  | @accepted raw event origin =>
    have hrest : origin.rest ⊆ (origin.withRest (raw :: origin.rest)).rest := by simp
    have h := hp.2.withRest hrest
    rwa [origin.withRest_withRest, origin.withRest_rest] at h
  | rested => exact hp

theorem Moves.placed (h : a.Moves signals sink point sink' point') (hp : a.Placed point) :
    a.Placed point' := by
  cases h with
  | stop | choosePast | endArchive | gap | unreadable | undecodable | noProgress | followPast
    | hitStop | endPolls => exact trivial
  | askHealth h => exact ⟨hp, h⟩
  | reachTarget => exact hp.1
  | askBatch hs h => exact ⟨hp.1, h⟩
  | chooseAgain h => exact ⟨h, by simp⟩
  | skipLedger => exact hp
  | endLedgers => exact hp
  | read h hle hr =>
    refine ⟨hp, hle, fun hown raw hraw => ?_⟩
    rw [hown] at hr
    exact h ▸ (ownEvents_eq_ok hr).2 raw hraw
  | duplicate hs h =>
    exact hp.withRest (h ▸ List.subset_cons_self ..)
  | filtered hs h =>
    exact hp.withRest (h ▸ List.subset_cons_self ..)
  | @askHandler origin raw rest event hs h hj =>
    refine ⟨(Sink.judge_eq_wanted_iff.mp hj).2.1, ?_⟩
    cases origin <;> exact h ▸ hp
  | endPage => exact hp.1
  | @endLedger b ledgers h =>
    have hnext := LedgerNumber.toNat_add_one h
    have hle := UInt32.le_iff_toNat_le.mp hp.2.1
    have hge := UInt32.le_iff_toNat_le.mp hp.1.ge
    refine ⟨hp.1.toTargets, hp.1.begun, UInt32.le_iff_toNat_le.mpr ?_, ?_⟩
    · exact hnext ▸ Nat.le_succ_of_le hge
    · exact hnext ▸ Nat.succ_le_succ hle
  | endAtLast => exact hp.1.toTargets
  | endBatches => exact hp.toTargets
  | nextBatch => exact ⟨hp.toTargets, fun _ => hp.le⟩
  | askTip => exact hp
  | beginPoll => exact hp
  | askPage => exact hp
  | drained => exact hp
  | nextPage => exact hp
  | restAtTip hpast => exact ⟨hp.kind, hpast⟩
  | followOn hpast => exact ⟨hp.kind, hpast⟩
  | proceed => exact placed_point hp
  | pause => exact hp

theorem begin_placed (a : Assignment) : a.Placed a.begin.point := by
  rcases begin_cases a with ⟨start, stop, hrequest, hbegin⟩ |
    ⟨hkind, ⟨hpast, hbegin⟩ | ⟨ledger, -, -, hbegin⟩⟩
  · rw [hbegin]
    exact hrequest
  · rw [hbegin]
    exact ⟨⟨hkind, id⟩, hpast⟩
  · rw [hbegin]
    exact trivial

theorem Reaches.placed {history : List (Moment a)} {p : Progress} (h : a.Reaches history p) :
    a.Placed p.point :=
  h.invariant (I := fun _ _ point => a.Placed point) (begin_placed a) (fun _ hp h => h.placed hp)
    (fun hp h => h.placed hp)

/-- What holds at the beginning and is kept by every answer and every move, from where a run can be
to where it can be, holds wherever a run gets. -/
theorem Reaches.carries {I : List (Moment a) → Sink → Point → Prop}
    (hbegin : I [] a.begin.sink a.begin.point)
    (hhears : ∀ {history sink pending reply sink' point} (signals : Signals),
      a.PlacedAt pending → a.Placed point → I history sink (.asking pending) →
      a.Hears signals sink pending reply sink' point →
        I (⟨pending, signals, reply⟩ :: history) sink' point)
    (hmoves : ∀ {history m sink point sink' point'},
      a.Placed point → a.Placed point' → I (m :: history) sink point →
      a.Moves m.signals sink point sink' point' → I (m :: history) sink' point')
    {history : List (Moment a)} {p : Progress} (h : a.Reaches history p) :
    a.Placed p.point ∧ I history p.sink p.point := by
  refine h.invariant (I := fun history sink point => a.Placed point ∧ I history sink point)
    ⟨begin_placed a, hbegin⟩ ?_ ?_
  · rintro history sink pending reply sink' point signals ⟨hp, hi⟩ h
    exact ⟨h.placed hp, hhears signals hp (h.placed hp) hi h⟩
  · rintro history m sink point sink' point' ⟨hp, hi⟩ h
    exact ⟨h.placed hp, hmoves hp (h.placed hp) hi h⟩

end Assignment
end LedgerFeed
