import Mathlib.Algebra.Ring.Nat
import LedgerFeed.Proofs.Accounting
import LedgerFeed.Proofs.Bounded
import LedgerFeed.Proofs.Passing

/-! How far a run has come, by its own measurements. A counter of ledgers from the archive and a
gauge for each feed are brought up to date between two batches and between two polls. So they stay
behind where a run ends in the middle of a batch, or as soon as it sees an event beyond its
range. -/

namespace LedgerFeed

namespace Measurement

def ledgers : Measurement → Nat
  | backfilled ledgers => ledgers.toNat
  | _ => 0

def cursor? (feed : Feed) : Measurement → Option LedgerNumber
  | cursor feed' ledger => if feed' = feed then some ledger else none
  | _ => none

theorem cursor?_eq_some {feed : Feed} {ledger : LedgerNumber} {x : Measurement} :
    x.cursor? feed = some ledger ↔ x = .cursor feed ledger := by
  cases x <;> simp [cursor?]

theorem series_ne_of_cursor? {feed : Feed} {x : Measurement} (h : x.cursor? feed = none)
    (ledger : LedgerNumber) : (cursor feed ledger).series ≠ x.series := by
  cases x with
  | cursor feed' => cases feed <;> cases feed' <;> simp_all [cursor?, series, Feed.name]
  | _ => simp [series]

end Measurement

def backfilledIn (measured : List Measurement) : Nat :=
  (measured.map Measurement.ledgers).sum

theorem backfilledIn_cons (x : Measurement) (measured : List Measurement) :
    backfilledIn (x :: measured) = x.ledgers + backfilledIn measured :=
  List.sum_cons

def cursorIn (feed : Feed) (measured : List Measurement) : Option LedgerNumber :=
  measured.findSome? (Measurement.cursor? feed)

namespace Metrics

theorem recordAll_reverse_cons (m : Metrics) (x : Measurement) (measured : List Measurement) :
    m.recordAll (x :: measured).reverse = (m.recordAll measured.reverse).record x := by
  simp [recordAll]

theorem counter_record_backfilled (m : Metrics) (x : Measurement) :
    (m.record x).counter (.backfilled 0) = m.counter (.backfilled 0) + x.ledgers := by
  cases x with
  | backfilled ledgers =>
    have h := m.value?_record_self (.backfilled ledgers)
    exact congrArg (Option.getD · 0) h
  | _ => exact congrArg (Option.getD · 0) (m.value?_record_of_ne (by simp [Measurement.series]))

theorem counter_backfilled (m : Metrics) (measured : List Measurement) :
    (m.recordAll measured.reverse).counter (.backfilled 0) =
      m.counter (.backfilled 0) + backfilledIn measured := by
  induction measured with
  | nil => rfl
  | cons x measured ih =>
    rw [recordAll_reverse_cons, counter_record_backfilled, ih, backfilledIn_cons]
    omega

theorem value?_cursor (m : Metrics) (feed : Feed) (measured : List Measurement) :
    (m.recordAll measured.reverse).value? (Measurement.cursor feed 0).series =
      ((cursorIn feed measured).map UInt32.toNat).or
        (m.value? (Measurement.cursor feed 0).series) := by
  induction measured with
  | nil => rfl
  | cons x measured ih =>
    rw [recordAll_reverse_cons, cursorIn, List.findSome?_cons]
    cases hx : x.cursor? feed with
    | none =>
      rw [value?_record_of_ne _ (Measurement.series_ne_of_cursor? hx 0)]
      exact ih
    | some ledger =>
      obtain rfl := Measurement.cursor?_eq_some.mp hx
      exact value?_record_self _ (.cursor feed ledger)

end Metrics

structure Sink.Level (s s' : Sink) : Prop where
  counted : backfilledIn s'.measured = backfilledIn s.measured
  cursor : ∀ feed, cursorIn feed s'.measured = cursorIn feed s.measured

theorem Sink.Level.of_eq {s s' : Sink} (h : s'.measured = s.measured) : s.Level s' where
  counted := by rw [h]
  cursor feed := by rw [h]

theorem Sink.Level.of_cons {s s' : Sink} {x : Measurement} (h : s'.measured = x :: s.measured)
    (hx : x.ledgers = 0) (hcursor : ∀ feed, x.cursor? feed = none) : s.Level s' where
  counted := by rw [h, backfilledIn_cons, hx, Nat.zero_add]
  cursor feed := by rw [h, cursorIn, List.findSome?_cons, hcursor, cursorIn]

/-! Ledgers that are dealt with to their ends, and those that are recorded. -/

def Batch.done (b : Batch) : Nat :=
  b.expected.toNat - b.next.toNat

theorem Batch.done_pos {b : Batch} (hge : b.next ≤ b.expected) (hne : b.expected ≠ b.next) :
    0 < b.done :=
  Nat.sub_pos_of_lt (UInt32.lt_iff_toNat_lt.mp (UInt32.lt_of_le_of_ne hge hne.symm))

namespace Point

/-- The ledger that was just dealt with to its end, and the feed that it came from: all events of a
payload were offered, or all those that the poll of a ledger showed. -/
def finished? : Point → Option (Feed × LedgerNumber)
  | offering (.batch b [] _) => some (.backfill, b.expected)
  | paged poll page =>
    if page.runsPast poll.ledger || page.nextCursor?.isNone then some (.live, poll.ledger) else none
  | _ => none

def mode (point : Point) : Feed :=
  point.feed?.getD .backfill

def carried : Point → Nat
  | taking b _ | taken b | offering (.batch b _ _) | asking (.verdict _ _ (.batch b _ _)) => b.done
  | polled .. => 1
  | _ => 0

/-- How many ledgers were dealt with, but not yet recorded. -/
def unrecorded (point : Point) : Nat :=
  point.carried + point.finished?.toList.length

end Point

def Point.wait? : Point → Option Wait
  | resting _ wait | asking (.pause _ wait) => some wait
  | _ => none

def Wait.mark : Wait → LedgerNumber
  | atTip ledger _ => ledger
  | betweenPages poll => poll.ledger
  | betweenBatches next target => min next target.following

def Origin.mark : Origin → LedgerNumber
  | page poll _ _ => poll.ledger
  | batch b _ _ => b.next

def Pending.mark? : Pending → Option LedgerNumber
  | liveHealth (.choosing start) => start
  | liveHealth (.following ledger) => some ledger
  | archiveHealth start stop => some (min start stop.following)
  | ledgers next _ => some next
  | events poll => some poll.ledger
  | verdict _ _ origin => some origin.mark
  | pause _ wait => some wait.mark

def Point.mark? : Point → Option LedgerNumber
  | choosing start => start
  | backfilling next target => some (min next target.following)
  | backfilled target => some target.following
  | taking b _ | taken b => some b.next
  | following ledger _ => some ledger
  | requesting poll | paged poll _ | polled poll _ => some poll.ledger
  | offering origin => some origin.mark
  | resting _ wait => some wait.mark
  | asking pending => pending.mark?
  | ended _ => none

def completedIn (feed : Feed) (log : List (Feed × LedgerNumber)) : Nat :=
  log.countP (·.1 = feed)

variable {a : Assignment} {signals : Signals} {sink sink' : Sink} {point point' : Point}
  {pending : Pending} {history : List (Moment a)} {log : List (Feed × LedgerNumber)} {exit : Exit}
  {lag : Nat}

theorem Point.mode_of_finished? {feed : Feed} {ledger : LedgerNumber}
    (h : point.finished? = some (feed, ledger)) : point.mode = feed := by
  unfold finished? at h
  split at h
  · cases h
    rfl
  · split at h
    · cases h
      rfl
    · cases h
  · cases h

theorem completedIn_finished (feed : Feed) (point : Point) (log : List (Feed × LedgerNumber)) :
    completedIn feed (point.finished?.toList ++ log) =
      completedIn feed log + if point.mode = feed then point.finished?.toList.length else 0 := by
  cases h : point.finished? with
  | none => simp
  | some entry =>
    obtain ⟨feed', ledger⟩ := entry
    simp [completedIn, List.countP_cons, Point.mode_of_finished? h]

structure Records (log : List (Feed × LedgerNumber)) (sink : Sink) (point : Point) : Prop where
  le : point.unrecorded ≤ completedIn point.mode log
  counted : completedIn .backfill log < UInt32.size →
    backfilledIn sink.measured + (if point.mode = .backfill then point.unrecorded else 0) =
      completedIn .backfill log
  marked : point.unrecorded < completedIn point.mode log →
    ∃ l, point.mark? = some l ∧ (l ≠ .last → cursorIn point.mode sink.measured = some l)
  blank : completedIn point.mode log ≤ point.unrecorded →
    cursorIn point.mode sink.measured = none
  fresh : point.mode = .backfill →
    completedIn .live log = 0 ∧ cursorIn .live sink.measured = none

theorem Records.counted_backfill (h : Records log sink point) (hmode : point.mode = .backfill)
    (hlt : completedIn .backfill log < UInt32.size) :
    backfilledIn sink.measured + point.unrecorded = completedIn .backfill log := by
  rw [← h.counted hlt, if_pos hmode]

theorem Records.counted_live (h : Records log sink point) (hmode : point.mode = .live)
    (hlt : completedIn .backfill log < UInt32.size) :
    backfilledIn sink.measured = completedIn .backfill log := by
  rw [← h.counted hlt, hmode, if_neg nofun, Nat.add_zero]

theorem Records.go (h : Records log sink point) (hmode : point'.mode = point.mode)
    (hmark : ∀ l, point.mark? = some l → point'.mark? = some l)
    (hcarried : point'.carried = point.unrecorded) (hlevel : sink.Level sink') :
    Records (point'.finished?.toList ++ log) sink' point' := by
  have hcompleted := completedIn_finished point'.mode point' log
  rw [if_pos rfl, hmode] at hcompleted
  have hunrecorded : point'.unrecorded = point.unrecorded + point'.finished?.toList.length := by
    rw [Point.unrecorded, hcarried]
  have hle := h.le
  refine ⟨?_, fun hlt => ?_, fun hlt => ?_, fun hall => ?_, fun hbackfill => ?_⟩
  · rw [hmode]
    omega
  · rw [completedIn_finished, hmode] at hlt ⊢
    have hcount := h.counted (by omega)
    rw [hlevel.counted, ← hcount, hunrecorded]
    split <;> omega
  · rw [hmode] at hlt ⊢
    obtain ⟨l, hl, hgauge⟩ := h.marked (by omega)
    exact ⟨l, hmark l hl, fun hne => by rw [hlevel.cursor, hgauge hne]⟩
  · rw [hmode] at hall ⊢
    rw [hlevel.cursor, h.blank (by omega)]
  · obtain ⟨hnone, hcursor⟩ := h.fresh (hmode ▸ hbackfill)
    rw [completedIn_finished, hbackfill, if_neg nofun, hlevel.cursor]
    exact ⟨hnone, hcursor⟩

theorem Records.record (h : Records log sink point) (hmode : point'.mode = point.mode)
    {l : LedgerNumber} (hmark : point'.mark? = some l) (hsome : 0 < point.unrecorded)
    (hall : point'.unrecorded = 0)
    (hcounted : completedIn .backfill log < UInt32.size →
      backfilledIn sink'.measured = completedIn .backfill log)
    (hcursor : l ≠ .last → cursorIn point'.mode sink'.measured = some l)
    (hlive : point'.mode = .backfill →
      cursorIn .live sink'.measured = cursorIn .live sink.measured) :
    Records log sink' point' := by
  have hle := h.le
  refine ⟨?_, fun hlt => ?_, fun _ => ⟨l, hmark, hcursor⟩, fun hnone => ?_, fun hbackfill => ?_⟩
  · rw [hall]
    exact Nat.zero_le _
  · rw [hcounted hlt, hall, ite_self, Nat.add_zero]
  · rw [hmode] at hnone
    omega
  · rw [hlive hbackfill]
    exact h.fresh (hmode ▸ hbackfill)

namespace LedgerNumber

theorem min_following_of_le {l m : LedgerNumber} (h : l ≤ m) : min l m.following = l := by
  have hle := UInt32.le_iff_toNat_le.mp (UInt32.le_trans h (le_following m))
  rw [← UInt32.toNat_inj, toNat_min, Nat.min_eq_left hle]

theorem min_following_of_lt {l m : LedgerNumber} (h : m < l) : min l m.following = m.following := by
  have hlt := UInt32.lt_iff_toNat_lt.mp h
  have hnext := toNat_following m
  rw [← UInt32.toNat_inj, toNat_min]
  omega

end LedgerNumber

namespace Assignment

theorem backfilledIn_endBatch {b : Batch} (hge : b.next ≤ b.expected) (sink : Sink) :
    backfilledIn ((sink.measure (.backfilled (b.expected - b.next))).measure
      (.cursor .backfill b.expected)).measured = backfilledIn sink.measured + b.done := by
  rw [Sink.measure, Sink.measure, backfilledIn_cons, backfilledIn_cons]
  change 0 + ((b.expected - b.next).toNat + backfilledIn sink.measured) = _
  rw [UInt32.toNat_sub_of_le _ _ hge, Batch.done]
  omega

theorem Moves.records (h : a.Moves signals sink point sink' point') (hp : a.Placed point)
    (hr : Records log sink point) (hend : ∀ result, point' ≠ .ended result) :
    Records (point'.finished?.toList ++ log) sink' point' := by
  cases h with
  | stop | choosePast | endArchive | gap | unreadable | undecodable | noProgress | followPast
    | hitStop | endPolls => exact absurd rfl (hend _)
  | askHealth | chooseAgain | skipLedger | endLedgers | read | endPage | askTip | askPage | pause =>
    exact hr.go rfl (fun _ => id) rfl (.of_eq rfl)
  | beginPoll => exact hr.go rfl (fun _ => id) rfl (.of_cons rfl rfl fun _ => rfl)
  | @proceed wait => cases wait <;> exact hr.go rfl (fun _ => id) rfl (.of_eq rfl)
  | reachTarget h =>
    have hmark := LedgerNumber.min_following_of_lt h
    refine hr.go rfl (fun l hl => ?_) rfl (.of_eq rfl)
    rwa [Point.mark?, hmark] at hl
  | askBatch _ h =>
    have hmark := LedgerNumber.min_following_of_le h
    refine hr.go rfl (fun l hl => ?_) rfl (.of_eq rfl)
    rwa [Point.mark?, hmark] at hl
  | @duplicate origin _ _ _ h =>
    cases origin <;> cases h <;> exact hr.go rfl (fun _ => id) rfl (.of_cons rfl rfl fun _ => rfl)
  | @filtered origin _ _ _ h =>
    cases origin <;> cases h <;> exact hr.go rfl (fun _ => id) rfl (.of_cons rfl rfl fun _ => rfl)
  | @askHandler origin _ _ _ _ h =>
    cases origin <;> cases h <;> exact hr.go rfl (fun _ => id) rfl (.of_eq rfl)
  | @endLedger b _ h =>
    have hge := UInt32.le_iff_toNat_le.mp hp.1.ge
    refine hr.go rfl (fun _ => id) ?_ (.of_eq rfl)
    change (b.expected + 1).toNat - b.next.toNat = b.expected.toNat - b.next.toNat + 1
    rw [LedgerNumber.toNat_add_one h]
    omega
  | @drained poll page h =>
    have hends : page.runsPast poll.ledger || page.nextCursor?.isNone := by
      rcases h with ⟨hpast, -⟩ | ⟨-, hcursor⟩
      · rw [hpast, Bool.true_or]
      · rw [hcursor, Option.isNone_none, Bool.or_true]
    refine hr.go rfl (fun _ => id) ?_ (.of_eq rfl)
    rw [Point.unrecorded, Point.finished?, if_pos hends]
    rfl
  | @nextPage poll page _ h hc =>
    have hgoes : ¬(page.runsPast poll.ledger || page.nextCursor?.isNone) := by simp [h, hc]
    refine hr.go rfl (fun _ => id) ?_ (.of_eq rfl)
    rw [Point.unrecorded, Point.finished?, if_neg hgoes]
    rfl
  | @endAtLast b _ h =>
    have htarget : b.target = .last := LedgerNumber.eq_last_of_le (h ▸ hp.2.1)
    refine hr.record rfl (l := .last) ?_ (Nat.succ_pos _) rfl (fun hlt => ?_)
      (fun hne => absurd rfl hne) fun _ => rfl
    · rw [Point.mark?, htarget]
      rfl
    · have hcount := hr.counted_backfill rfl hlt
      change backfilledIn sink.measured + (b.done + 1) = _ at hcount
      have hdone : (b.expected - b.next).toNat = b.done := UInt32.toNat_sub_of_le _ _ hp.1.ge
      have hsize : (b.expected - b.next).toNat + 1 < UInt32.size := by omega
      have hall : (b.expected - b.next + 1).toNat = b.done + 1 := by
        rw [← hdone]
        exact LedgerNumber.toNat_add_ofNat hsize
      rw [Sink.measure, backfilledIn_cons, Measurement.ledgers, hall, ← hcount, Nat.add_comm]
  | endBatches h hlt =>
    have hnext := LedgerNumber.eq_following_of_lt hlt hp.le
    refine hr.record rfl (congrArg some hnext.symm) (Batch.done_pos hp.ge h) rfl (fun hlt => ?_)
      (fun _ => rfl) fun _ => rfl
    rw [← hr.counted_backfill rfl hlt]
    exact backfilledIn_endBatch hp.ge sink
  | nextBatch h hle =>
    have hmark := LedgerNumber.min_following_of_le hle
    refine hr.record rfl (congrArg some hmark) (Batch.done_pos hp.ge h) rfl (fun hlt => ?_)
      (fun _ => rfl) fun _ => rfl
    rw [← hr.counted_backfill rfl hlt]
    exact backfilledIn_endBatch hp.ge sink
  | restAtTip | followOn =>
    refine hr.record rfl rfl Nat.one_pos rfl (fun hlt => ?_) (fun _ => rfl) nofun
    rw [← hr.counted_live rfl hlt, Sink.measure, backfilledIn_cons]
    exact Nat.zero_add _

theorem Hears.records {reply : (pending.question a).Reply}
    (h : a.Hears signals sink pending reply sink' point) (hp : a.PlacedAt pending)
    (hr : Records log sink (.asking pending)) (hend : ∀ result, point ≠ .ended result) :
    Records (point.finished?.toList ++ log) sink' point := by
  cases h with
  | failed | tipPast | stopped | ahead | refused | archiveAhead => exact absurd rfl (hend _)
  | within ha h =>
    obtain ⟨hnone, hcursor⟩ := hr.fresh rfl
    exact
      { le := Nat.zero_le _
        counted := fun hlt => hr.counted_backfill rfl hlt
        marked := fun hlt => absurd hnone (Nat.ne_of_gt hlt)
        blank := fun _ => hcursor
        fresh := nofun }
  | @below start _ first ha h =>
    obtain ⟨-, hle⟩ := targets_targetBelow hp.1.kind (ha.pastStop hp.2) h
    refine hr.go rfl (fun l hl => ?_) rfl (.of_eq rfl)
    obtain rfl : start = some l := hl
    rw [Point.mark?, LedgerNumber.min_following_of_le hle, ha.eq]
    rfl
  | unclosed => exact hr.go rfl (fun _ => id) rfl (.of_eq rfl)
  | closed => exact hr.go rfl (fun _ => id) rfl (.of_cons rfl rfl fun _ => rfl)
  | archiveReady => exact hr.go rfl (fun _ => id) rfl (.of_eq rfl)
  | ledgers => exact hr.go rfl (fun _ => id) (Nat.sub_self _) (.of_cons rfl rfl fun _ => rfl)
  | events => exact hr.go rfl (fun _ => id) rfl (.of_cons rfl rfl fun _ => rfl)
  | rested => exact hr.go rfl (fun _ => id) rfl (.of_eq rfl)
  | @accepted _ _ origin =>
    cases origin <;> exact hr.go rfl (fun _ => id) rfl (.of_cons rfl rfl fun _ => rfl)

/-- With a history, a run passes a point, and this is the log of the ledgers that it has dealt with
to their ends, latest first. -/
inductive Completes (a : Assignment) :
    List (Moment a) → List (Feed × LedgerNumber) → Sink → Point → Prop
  | begin : Completes a [] [] a.begin.sink a.begin.point
  | hear {history : List (Moment a)} {log : List (Feed × LedgerNumber)} {sink sink' : Sink}
      {pending : Pending} {point : Point} (h : Completes a history log sink (.asking pending))
      (signals : Signals) {reply : (pending.question a).Reply}
      (hh : a.Hears signals sink pending reply sink' point) :
      Completes a (⟨pending, signals, reply⟩ :: history) (point.finished?.toList ++ log) sink' point
  | move {history : List (Moment a)} {m : Moment a} {log : List (Feed × LedgerNumber)}
      {sink sink' : Sink} {point point' : Point} (h : Completes a (m :: history) log sink point)
      (hm : a.Moves m.signals sink point sink' point') :
      Completes a (m :: history) (point'.finished?.toList ++ log) sink' point'

theorem Reaches.completes {p : Progress} (h : a.Reaches history p) :
    ∃ log, a.Completes history log p.sink p.point := by
  refine h.invariant (I := fun history sink point => ∃ log, a.Completes history log sink point)
    ⟨[], .begin⟩ ?_ ?_
  · rintro history sink pending reply sink' point signals ⟨log, h⟩ hh
    exact ⟨_, .hear h signals hh⟩
  · rintro history m sink point sink' point' ⟨log, h⟩ hm
    exact ⟨_, .move h hm⟩

theorem Completes.passes (h : a.Completes history log sink point) :
    a.Passes history sink point := by
  induction h with
  | begin => exact .begin
  | hear _ signals hh ih => exact ih.hear signals hh
  | move _ hm ih => exact ih.move hm

theorem Passes.feed (h : a.Passes history sink point) :
    ∀ feed, point.feed? = some feed → sink.feed = feed := by
  induction h with
  | begin => exact (begin_feeding a).1
  | hear _ _ hh ih => exact hh.feed ih
  | move _ hm ih =>
    obtain ⟨hsame, hfeed | hfeed⟩ := hm.feed
    · simp [hfeed]
    · rw [hfeed, hsame]
      exact ih

theorem Passes.ahead (h : a.Passes history sink point) {next target : LedgerNumber}
    (hwait : point.wait? = some (.betweenBatches next target)) : next ≤ target := by
  induction h with
  | begin =>
    rcases begin_cases a with ⟨_, _, -, hb⟩ | ⟨-, ⟨-, hb⟩ | ⟨_, -, -, hb⟩⟩ <;>
      rw [hb] at hwait <;> cases hwait
  | hear _ _ hh ih =>
    cases hh with
    | rested => exact ih hwait
    | _ => cases hwait
  | move _ hm ih =>
    cases hm with
    | nextBatch _ hle =>
      cases hwait
      exact hle
    | pause => exact ih hwait
    | @proceed wait => cases wait <;> cases hwait
    | _ => cases hwait

theorem Moves.ne_ended (h : a.Moves signals sink point sink' point')
    (result : Except IngestError Exit) : point ≠ .ended result := by
  rintro rfl
  cases h with
  | stop _ hcheck => cases hcheck

theorem begin_measured (a : Assignment) : a.begin.sink.measured = [] := by
  rcases begin_cases a with ⟨_, _, -, hb⟩ | ⟨-, ⟨-, hb⟩ | ⟨_, -, -, hb⟩⟩ <;> rw [hb] <;> rfl

theorem begin_records (a : Assignment) (hend : ∀ result, a.begin.point ≠ .ended result) :
    Records [] a.begin.sink a.begin.point := by
  have hnone : a.begin.point.unrecorded = 0 := by
    rcases begin_cases a with ⟨_, _, -, hb⟩ | ⟨-, ⟨-, hb⟩ | ⟨_, -, -, hb⟩⟩
    · rw [hb]
      rfl
    · rw [hb]
      rfl
    · rw [hb] at hend
      exact absurd rfl (hend _)
  refine ⟨Nat.le_of_eq hnone, fun _ => ?_, fun hlt => absurd hlt (Nat.not_lt_zero _), fun _ => ?_,
    fun _ => ⟨rfl, ?_⟩⟩ <;> rw [begin_measured]
  · rw [hnone, ite_self]
    rfl
  · rfl
  · rfl

/-- Whatever a run has dealt with is recorded, but for the ledgers of the batch or of the poll that
it is engaged in. -/
theorem Completes.records (h : a.Completes history log sink point)
    (hend : ∀ result, point ≠ .ended result) : Records log sink point := by
  induction h with
  | begin => exact begin_records a hend
  | hear h _ hh ih => exact hh.records h.passes.placed_reaches.1 (ih nofun) hend
  | move h hm ih => exact hm.records h.passes.placed_reaches.1 (ih hm.ne_ended) hend

/-- How far the measurements of a run that is over are behind. They leave out what was dealt with in
the batch in which the run was stopped, or the ledger at whose poll it saw an event beyond its
range. -/
inductive Lags (a : Assignment) (history : List (Moment a)) (sink : Sink) (exit : Exit) :
    Nat → Prop
  | none : Lags a history sink exit 0
  | cutShort {b : Batch} {rest : List RawEvent} {ledgers : List RawLedger}
      (h : a.Passes history sink (.offering (.batch b rest ledgers))) (hrest : rest ≠ [])
      (hexit : exit = ⟨.stopped, b.expected⟩) : Lags a history sink exit b.done
  | beyond {poll : Poll} {page : EventsPage} (h : a.Passes history sink (.paged poll page))
      (hpast : page.runsPast poll.ledger = true) (hstop : a.request.stop? = some poll.ledger)
      (hexit : exit = ⟨.completed, poll.ledger.following⟩) : Lags a history sink exit 1

end Assignment

structure Concludes (log : List (Feed × LedgerNumber)) (sink : Sink) (exit : Exit) (lag : Nat) :
    Prop where
  counted : completedIn .backfill log < UInt32.size →
    backfilledIn sink.measured + (if sink.feed = .backfill then lag else 0) =
      completedIn .backfill log
  marked : exit.resume ≠ .last → lag < completedIn sink.feed log →
    ∃ l, cursorIn sink.feed sink.measured = some l ∧ l.toNat + lag = exit.resume.toNat
  blank : completedIn sink.feed log ≤ lag → cursorIn sink.feed sink.measured = none

theorem Records.concludes_of_mode (h : Records log sink point) (hmode : sink.feed = point.mode)
    (hresume : ∀ l, point.mark? = some l → exit.resume ≠ .last →
      l.toNat + point.unrecorded = exit.resume.toNat) :
    Concludes log sink exit point.unrecorded where
  counted := hmode ▸ h.counted
  marked hne hlt := by
    rw [hmode] at hlt ⊢
    obtain ⟨l, hl, hgauge⟩ := h.marked hlt
    have hsum := hresume l hl hne
    refine ⟨l, hgauge ?_, hsum⟩
    rintro rfl
    exact hne (LedgerNumber.eq_last_of_le (UInt32.le_iff_toNat_le.mpr (by omega)))
  blank := hmode ▸ h.blank

theorem Records.concludes (h : Records log sink point)
    (hfeed : ∀ feed, point.feed? = some feed → sink.feed = feed)
    (hnone : point.feed? = none → point.unrecorded = 0)
    (hresume : ∀ l, point.mark? = some l → exit.resume ≠ .last →
      l.toNat + point.unrecorded = exit.resume.toNat) :
    Concludes log sink exit point.unrecorded := by
  cases hpoint : point.feed? with
  | some feed =>
    refine h.concludes_of_mode ?_ hresume
    rw [hfeed feed hpoint, Point.mode, hpoint]
    rfl
  | none =>
    have hmode : point.mode = .backfill := by
      rw [Point.mode, hpoint]
      rfl
    cases hs : sink.feed with
    | backfill => exact h.concludes_of_mode (hs.trans hmode.symm) hresume
    | live =>
      -- the live feed has not been chosen yet, so nothing was dealt with in it
      obtain ⟨hfresh, hcursor⟩ := h.fresh hmode
      refine ⟨fun hlt => ?_, fun _ hlt => ?_, fun _ => hs ▸ hcursor⟩
      · rw [hs, if_neg nofun, ← h.counted_backfill hmode hlt, hnone hpoint]
      · rw [hs, hfresh] at hlt
        exact absurd hlt (Nat.not_lt_zero _)

namespace Assignment

theorem concludes_of_stop {ledger : LedgerNumber} (hcheck : a.Checkpoint point ledger)
    (hpasses : a.Passes history sink point) (hr : Records log sink point) :
    ∃ lag, a.Lags history sink ⟨.stopped, ledger⟩ lag ∧
      Concludes log sink ⟨.stopped, ledger⟩ lag := by
  have hfeed := hpasses.feed
  -- where nothing is unrecorded, the gauge is at the ledger that is reported
  have hlevel (hnone : point.unrecorded = 0) (hmark : point.mark? = some ledger) :
      ∃ lag, a.Lags history sink ⟨.stopped, ledger⟩ lag ∧
        Concludes log sink ⟨.stopped, ledger⟩ lag := by
    refine ⟨_, .none, hnone ▸ hr.concludes hfeed (fun _ => hnone) fun l hl _ => ?_⟩
    rw [hmark] at hl
    rw [hnone, ← Option.some.inj hl, Nat.add_zero]
  cases hcheck with
  | backfilling hle =>
    refine hlevel rfl ?_
    rw [Point.mark?, LedgerNumber.min_following_of_le hle]
  | following => exact hlevel rfl rfl
  | requesting => exact hlevel rfl rfl
  | @offering origin _ _ hrest =>
    have hrest : origin.rest ≠ [] := List.ne_nil_of_mem (hrest ▸ List.mem_cons_self ..)
    cases origin with
    | page => exact hlevel rfl rfl
    | batch b rest ledgers =>
      have hdone : (Point.offering (.batch b rest ledgers)).unrecorded = b.done := by
        cases rest with
        | nil => exact absurd rfl hrest
        | cons => rfl
      have hge := UInt32.le_iff_toNat_le.mp hpasses.placed_reaches.1.1.ge
      refine ⟨_, .cutShort hpasses hrest rfl, hdone ▸ hr.concludes hfeed nofun fun l hl _ => ?_⟩
      rw [hdone, ← Option.some.inj hl]
      exact Nat.add_sub_cancel' hge
  | resting milliseconds wait =>
    refine hlevel rfl ?_
    cases wait with
    | atTip | betweenPages => rfl
    | betweenBatches next target =>
      rw [Point.mark?, Wait.mark, LedgerNumber.min_following_of_le (hpasses.ahead rfl)]
      rfl

theorem Moves.concludes (h : a.Moves signals sink point sink' (.ended (.ok exit)))
    (hpasses : a.Passes history sink point) (hr : Records log sink point) :
    ∃ lag, a.Lags history sink' exit lag ∧ Concludes log sink' exit lag := by
  have hfeed := hpasses.feed
  generalize hend : Point.ended (.ok exit) = point' at h
  cases h with
  | stop _ hcheck =>
    cases hend
    exact concludes_of_stop (checkpoint_cases hcheck) hpasses hr
  | choosePast | endArchive | followPast =>
    cases hend
    refine ⟨0, .none, hr.concludes hfeed (fun _ => rfl) fun l hl _ => ?_⟩
    rw [← Option.some.inj hl]
    rfl
  | @hitStop poll page hpast hstop =>
    cases hend
    have hne : poll.ledger ≠ .last := by
      intro hlast
      rw [hlast, runsPast_last] at hpast
      cases hpast
    have hone : (Point.paged poll page).unrecorded = 1 := by
      rw [Point.unrecorded, Point.finished?, hpast, Bool.true_or, if_pos rfl]
      rfl
    refine ⟨1, .beyond hpasses hpast hstop rfl, hone ▸ hr.concludes hfeed nofun fun l hl _ => ?_⟩
    rw [hone, ← Option.some.inj hl]
    exact (LedgerNumber.toNat_following_of_ne hne).symm
  | @endPolls poll _ _ =>
    cases hend
    have hlive : sink.feed = .live := hfeed .live rfl
    refine ⟨0, .none, fun hlt => ?_, fun _ _ => ⟨poll.ledger.following, ?_, rfl⟩, fun hnone => ?_⟩
    · rw [ite_self, Sink.measure, backfilledIn_cons, ← hr.counted_live rfl hlt]
      exact Nat.zero_add _
    · rw [Sink.measure, hlive]
      rfl
    · change completedIn sink.feed log ≤ 0 at hnone
      rw [hlive] at hnone
      exact absurd (Nat.le_trans hr.le hnone) (Nat.not_succ_le_zero 0)
  | @proceed wait => cases wait <;> cases hend
  | _ => cases hend

theorem Hears.concludes {reply : (pending.question a).Reply}
    (h : a.Hears signals sink pending reply sink' (.ended (.ok exit)))
    (hpasses : a.Passes history sink (.asking pending)) (hr : Records log sink (.asking pending)) :
    Concludes log sink' exit 0 := by
  cases h with
  | tipPast => exact hr.concludes hpasses.feed (fun _ => rfl) fun l hl _ => nomatch hl
  | @stopped start =>
    refine hr.concludes hpasses.feed (fun _ => rfl) fun l hl _ => ?_
    obtain rfl : start = some l := hl
    rfl

theorem Completes.concludes (h : a.Completes history log sink (.ended (.ok exit))) :
    ∃ lag, a.Lags history sink exit lag ∧ Concludes log sink exit lag := by
  generalize hend : Point.ended (.ok exit) = point at h
  cases h with
  | begin =>
    refine ⟨0, .none, fun _ => ?_, fun _ hlt => absurd hlt (Nat.not_lt_zero _), fun _ => ?_⟩
    · rw [begin_measured, ite_self]
      rfl
    · rw [begin_measured]
      rfl
  | hear h _ hh =>
    cases hend
    exact ⟨0, .none, hh.concludes h.passes (h.records nofun)⟩
  | move h hm =>
    cases hend
    exact hm.concludes h.passes (h.records hm.ne_ended)

end Assignment

structure Metrics.Show (before after : Metrics) (log : List (Feed × LedgerNumber)) (feed : Feed)
    (resume : LedgerNumber) (lag : Nat) : Prop where
  counter : completedIn .backfill log < UInt32.size →
    after.counter (.backfilled 0) + (if feed = .backfill then lag else 0) =
      before.counter (.backfilled 0) + completedIn .backfill log
  gauge : resume ≠ .last → lag < completedIn feed log →
    after.value? (Measurement.cursor feed 0).series = some (resume.toNat - lag)
  untouched : completedIn feed log ≤ lag →
    after.value? (Measurement.cursor feed 0).series =
      before.value? (Measurement.cursor feed 0).series

theorem Concludes.show (h : Concludes log sink exit lag) (kind : RunKind) (before : Metrics) :
    Metrics.Show before
      (before.recordAll (Engine.finish kind sink (.ok exit)).measured.reverse) log sink.feed
      exit.resume lag := by
  obtain ⟨outcome, hmeasured⟩ := Engine.measured_finish kind sink (.ok exit)
  rw [hmeasured]
  have hcursor : cursorIn sink.feed (.run kind outcome :: sink.measured) =
    cursorIn sink.feed sink.measured := rfl
  refine ⟨fun hlt => ?_, fun hne hlt => ?_, fun hall => ?_⟩
  · rw [before.counter_backfilled, backfilledIn_cons, ← h.counted hlt]
    change _ + (0 + _) + _ = _
    omega
  · obtain ⟨l, hl, hsum⟩ := h.marked hne hlt
    rw [before.value?_cursor, hcursor, hl, ← hsum, Nat.add_sub_cancel]
    rfl
  · rw [before.value?_cursor, hcursor, h.blank hall]
    rfl

/-- Of a run that ends with a summary, whatever the nodes answered: the counter of ledgers from the
archive has grown by the number of those whose payloads were offered to their ends, and the gauge of
the feed in which the run ended is at the ledger that the summary names, once a ledger was dealt
with in it. Both stay behind by the ledgers of the batch in which the run was stopped, and the gauge
by the last ledger of the range if an event beyond it was seen; where these are all that was dealt
with in the feed, its gauge does not move. -/
theorem progress_measured {summary : Summary} (h : a.Reaches history (.ended sink (.ok exit)))
    (hsummary : (Engine.finish a.request.kind sink (.ok exit)).result = .ok summary) :
    (∃ log, a.Completes history log sink (.ended (.ok exit))) ∧
    ∀ log, a.Completes history log sink (.ended (.ok exit)) →
      ∃ lag, a.Lags history sink exit lag ∧
        ∀ before : Metrics, before.Show
          (before.recordAll (Engine.finish a.request.kind sink (.ok exit)).measured.reverse) log
          sink.feed summary.resume lag := by
  obtain rfl := Except.ok.inj hsummary
  refine ⟨h.completes, fun log hlog => ?_⟩
  obtain ⟨lag, hlags, hconcludes⟩ := hlog.concludes
  exact ⟨lag, hlags, fun before => hconcludes.show a.request.kind before⟩

def cutRun : Assignment :=
  { crossing with request := .archive 5 6 }

/-- The stop is asked for while the handler has the event of the first ledger. All of that ledger is
delivered, and the summary names the next one, but neither the counter nor the gauge has moved. -/
theorem cut_batch_unrecorded : ∃ history sink,
    cutRun.Reaches history (.ended sink (.ok ⟨.stopped, 6⟩)) ∧
      cutRun.Completes history [(.backfill, 5)] sink (.ended (.ok ⟨.stopped, 6⟩)) ∧
      sink.feed = .backfill ∧ ∀ before : Metrics,
        let after :=
          before.recordAll (Engine.finish .archive sink (.ok ⟨.stopped, 6⟩)).measured.reverse
        after.counter (.backfilled 0) = before.counter (.backfilled 0) ∧
          after.value? (Measurement.cursor .backfill 0).series =
            before.value? (Measurement.cursor .backfill 0).series := by
  let page : LedgersPage :=
    ⟨[⟨5, "", "", "", [sampleEvent 5 "a"]⟩, ⟨6, "", "", "", [sampleEvent 6 "b"]⟩], 6, 5⟩
  have hasked := @Assignment.Completes.begin cutRun
  have hready := @Assignment.Completes.hear cutRun _ _ _ _ (.archiveHealth 5 6) _ hasked ⟨false, []⟩
    (.ok ⟨true, 1, 6, 6⟩) (.archiveReady rfl (by decide))
  have hbatch := hready.move (.askBatch rfl (by decide))
  have htaken := hbatch.hear ⟨false, []⟩ (@Assignment.Hears.ledgers _ _ _ _ _ page)
  have hfirst := htaken.move (.read rfl (by decide) rfl)
  have hcalled := hfirst.move (.askHandler rfl rfl rfl)
  have hjudged := hcalled.hear ⟨true, []⟩ .accepted
  have hnext := hjudged.move (.endLedger (by decide))
  have hsecond := hnext.move (.read rfl (by decide) rfl)
  have hend := hsecond.move (.stop rfl rfl)
  refine ⟨_, _, hend.passes.reaches_ended, hend, rfl, fun before => ⟨?_, ?_⟩⟩
  · exact before.counter_backfilled _
  · exact before.value?_cursor .backfill _

theorem cutRun_measured : ∃ history sink,
    Assignment.Completes { cutRun with config := { cutRun.config with pageSize := 1 } } history
        [(.backfill, 5)] sink (.ended (.ok ⟨.stopped, 6⟩)) ∧
      ∀ before : Metrics, before.Show
        (before.recordAll (Engine.finish .archive sink (.ok ⟨.stopped, 6⟩)).measured.reverse)
        [(.backfill, 5)] .backfill 6 0 := by
  have hasked := @Assignment.Completes.begin
    { cutRun with config := { cutRun.config with pageSize := 1 } }
  have hready := @Assignment.Completes.hear _ _ _ _ _ (.archiveHealth 5 6) _ hasked ⟨false, []⟩
    (.ok ⟨true, 1, 6, 6⟩) (.archiveReady rfl (by decide))
  have hbatch := hready.move (.askBatch rfl (by decide))
  have htaken := hbatch.hear ⟨false, []⟩ (@Assignment.Hears.ledgers _ _ _ _ _
    ⟨[⟨5, "", "", "", [sampleEvent 5 "a"]⟩], 6, 5⟩)
  have hfirst := htaken.move (.read rfl (by decide) rfl)
  have hcalled := hfirst.move (.askHandler rfl rfl rfl)
  have hjudged := hcalled.hear ⟨true, []⟩ .accepted
  have hnext := hjudged.move (.endLedger (by decide))
  have hwhole := hnext.move (.endLedgers (by simp))
  have hrests := hwhole.move (.nextBatch (by decide) (by decide))
  have hend := hrests.move (.stop rfl rfl)
  obtain ⟨-, hall⟩ := progress_measured hend.passes.reaches_ended rfl
  obtain ⟨lag, -, hshow⟩ := hall _ hend
  obtain rfl : lag = 0 := Nat.add_left_cancel ((hshow []).counter (by decide))
  exact ⟨_, _, hend, hshow⟩

end LedgerFeed
