import Mathlib.Algebra.BigOperators.Ring.List
import Mathlib.Algebra.Ring.Nat
import LedgerFeed.Proofs.Bounded
import LedgerFeed.Proofs.Partition
import LedgerFeed.Proofs.Summary

/-! What it takes to catch up. Over closed ledgers whose events come in consecutive pages, a run
asks once for the health and once for every page. It waits between the pages of a ledger, and
between ledgers unless it is told to hurry while it is behind. -/

namespace LedgerFeed

def pageCount (size count : Nat) : Nat :=
  max 1 (pieces size count)

section

variable {size count : Nat}

theorem pageCount_of_le (hle : count ≤ size) : pageCount size count = 1 := by
  rcases Nat.eq_zero_or_pos count with rfl | hpos
  · exact Nat.max_eq_left (Nat.div_le_of_le_mul (by omega))
  · rw [pageCount, pieces_of_le hpos hle, Nat.max_self]

theorem pageCount_of_lt (hpos : 0 < size) (hlt : size < count) :
    pageCount size count = pageCount size (count - size) + 1 := by
  have hsome : 0 < pieces size (count - size) := Nat.div_pos (by omega) hpos
  rw [pageCount, pageCount, pieces_of_lt hpos hlt]
  omega

end

def Question.milliseconds : Question → Nat
  | pause milliseconds => milliseconds.toNat
  | _ => 0

def duration (questions : List Question) : Nat :=
  (questions.map Question.milliseconds).sum

def elapsed {a : Assignment} (history : List (Moment a)) : Nat :=
  duration (asked history)

section

variable {a : Assignment}

theorem duration_append (xs ys : List Question) :
    duration (xs ++ ys) = duration xs + duration ys := by
  simp [duration]

theorem duration_cons (q : Question) (questions : List Question) :
    duration (q :: questions) = q.milliseconds + duration questions := by
  simp [duration]

theorem duration_paused (milliseconds : UInt64) :
    duration (paused milliseconds) = milliseconds.toNat := by
  unfold paused
  split
  · rename_i h
    rw [h]
    rfl
  · simp [duration, Question.milliseconds]

theorem elapsed_eq (history : List (Moment a)) : elapsed history = duration (errands history) := by
  unfold elapsed errands
  induction asked history with
  | nil => rfl
  | cons q questions ih =>
    cases q with
    | handle event => simpa [duration_cons, Question.milliseconds, Question.event?] using ih
    | health | events | ledgers | pause => simpa [duration_cons, Question.event?] using ih

theorem duration_intercalate (gap : List Question) (blocks : List (List Question)) :
    duration (gap.intercalate blocks) =
      (blocks.map duration).sum + (blocks.length - 1) * duration gap := by
  induction blocks with
  | nil => simp [duration, List.intercalate]
  | cons block blocks ih =>
    rcases blocks with _ | ⟨block', blocks⟩
    · simp [List.intercalate]
    · rw [intercalate_cons _ _ (List.cons_ne_nil _ _), duration_append, duration_append, ih]
      simp only [List.map_cons, List.sum_cons, List.length_cons, Nat.add_sub_cancel, Nat.succ_mul]
      omega

theorem duration_spaced (milliseconds : UInt64) {calls : List Question}
    (h : ∀ q ∈ calls, q.milliseconds = 0) :
    duration (spaced milliseconds calls) = (calls.length - 1) * milliseconds.toNat := by
  have hcalls : ((calls.map fun q => [q]).map duration).sum = 0 := by
    rw [List.map_map]
    refine List.sum_eq_zero_iff_forall_eq_nat.mpr fun n hn => ?_
    obtain ⟨q, hq, rfl⟩ := List.mem_map.mp hn
    simpa [duration] using h q hq
  rw [spaced, duration_intercalate, hcalls, Nat.zero_add, List.length_map, duration_paused]

end

namespace Source

variable {s : Source} {ledger : LedgerNumber} {place limit : Nat} {page : EventsPage}

structure Slices (s : Source) (ledger : LedgerNumber) (place limit : Nat) (page : EventsPage) :
    Prop where
  events : page.events = ((s.events ledger).drop place).take limit
  last : (s.events ledger).length ≤ place + limit → page.cursor = none
  more : place + limit < (s.events ledger).length →
    ∃ cursor, page.cursor = some cursor ∧ s.place ledger cursor = some (place + limit)

theorem Slices.runsPast (h : s.Slices ledger place limit page) : page.runsPast ledger = false := by
  refine List.any_eq_false.mpr fun raw hraw hlt => ?_
  rw [h.events] at hraw
  have hmem := List.mem_of_mem_drop (List.mem_of_mem_take hraw)
  have hledger : raw.ledger = ledger := of_decide_eq_true (List.mem_filter.mp hmem).2
  rw [hledger] at hlt
  exact UInt32.lt_irrefl _ (of_decide_eq_true hlt)

theorem Slices.nextCursor?_eq_none (h : s.Slices ledger place limit page)
    (hle : (s.events ledger).length ≤ place + limit) : page.nextCursor? = none := by
  unfold EventsPage.nextCursor?
  split
  · rfl
  · exact h.last hle

theorem Slices.nextCursor? (h : s.Slices ledger place limit page) (hlimit : 0 < limit)
    (hlt : place + limit < (s.events ledger).length) :
    ∃ cursor, page.cursor = some cursor ∧ page.nextCursor? = some cursor ∧
      s.place ledger cursor = some (place + limit) := by
  obtain ⟨cursor, hcursor, hplace⟩ := h.more hlt
  have hevents : page.events.isEmpty = false := by
    rw [h.events, Bool.eq_false_iff, ne_eq, List.isEmpty_iff, List.take_eq_nil_iff,
      List.drop_eq_nil_iff]
    omega
  refine ⟨cursor, hcursor, ?_, hplace⟩
  rw [EventsPage.nextCursor?, hevents, if_neg (by simp), hcursor]

end Source

/-- The live node pages the events of the ledgers of a range, for the filters that are active. -/
structure World.Pages {a : Assignment} (w : World a) (s : Source) (start stop : LedgerNumber) :
    Prop where
  opens : ∀ history earlier ledger, start ≤ ledger → ledger ≤ stop →
    ∃ page, w.reply history
        (.events (.ofLedger ledger (w.signals earlier).filters a.config.pageSize)) = .ok page ∧
      s.Slices ledger 0 a.config.pageSize.toNat page
  continues : ∀ history earlier ledger cursor place, start ≤ ledger → ledger ≤ stop →
    s.place ledger cursor = some place →
    ∃ page, w.reply history
        (.events ((EventsRequest.ofLedger ledger (w.signals earlier).filters
          a.config.pageSize).continued cursor)) = .ok page ∧
      s.Slices ledger place a.config.pageSize.toNat page

variable {a : Assignment} {w : World a} {s : Source} {start stop ledger : LedgerNumber}
  {before earlier moments later : List (Moment a)} {sink : Sink} {poll : Poll} {count : Nat}
  {cursors : List String}

theorem pagesOf_of_handle {events : List ContractEvent} (h : asked moments = events.map .handle)
    (ledger : LedgerNumber) : pagesOf moments ledger = [] :=
  pagesOf_eq_nil (fun request => by simp [h]) ledger

theorem Idle.pagesOf (h : Idle moments) (ledger : LedgerNumber) : pagesOf moments ledger = [] := by
  refine pagesOf_eq_nil (fun request hmem => ?_) ledger
  obtain ⟨_, hpause⟩ := h _ hmem
  cases hpause

def EventsRequest.calls (r : EventsRequest) (cursors : List String) : List Question :=
  .events r :: cursors.map fun cursor => .events (r.continued cursor)

namespace Assignment

structure Fetches (a : Assignment) (ledger : LedgerNumber) (request : EventsRequest)
    (page : EventsPage) (after : List Question) (moments : List (Moment a)) : Prop where
  pages : pagesOf moments ledger = [page]
  others : ∀ l, l ≠ ledger → pagesOf moments l = []
  errands : LedgerFeed.errands moments = .events request :: after

/-- A ledger of so many events was polled in as many pages as they come to, at the cursors that came
with them; its last page came without one. -/
structure Drained (a : Assignment) (history : List (Moment a)) (ledger : LedgerNumber) (count : Nat)
    (cursors : List String) : Prop where
  given : (pagesOf history ledger).map EventsPage.cursor = cursors.map some ++ [none]
  pages : cursors.length + 1 = pageCount a.config.pageSize.toNat count

structure Drains (a : Assignment) (ledger : LedgerNumber) (request : EventsRequest) (count : Nat)
    (cursors : List String) (moments : List (Moment a)) : Prop
    extends a.Drained moments ledger count cursors where
  errands : LedgerFeed.errands moments = spaced a.config.pagingWait (request.calls cursors)
  others : ∀ l, l ≠ ledger → pagesOf moments l = []

variable {request : EventsRequest} {page : EventsPage} {after : List Question}

theorem Fetches.wait (h : a.Fetches ledger request page [] moments) {milliseconds : UInt64}
    (hlater : asked later = paused milliseconds) :
    a.Fetches ledger request page (paused milliseconds) (later ++ moments) where
  pages := by rw [pagesOf_append, h.pages, (idle_of_paused hlater).pagesOf, List.append_nil]
  others l hne := by
    rw [pagesOf_append, h.others l hne, (idle_of_paused hlater).pagesOf, List.append_nil]
  errands := by
    rw [errands_append, h.errands, (idle_of_paused hlater).errands, hlater]
    rfl

theorem Fetches.drains (h : a.Fetches ledger request page [] moments) (hcursor : page.cursor = none)
    (hle : count ≤ a.config.pageSize.toNat) : a.Drains ledger request count [] moments where
  given := by
    rw [h.pages, List.map_singleton, hcursor]
    rfl
  pages := (pageCount_of_le hle).symm
  errands := by rw [h.errands, EventsRequest.calls, List.map_nil, spaced_singleton]
  others := h.others

theorem Drains.cons {cursor : String}
    (h : a.Fetches ledger request page (paused a.config.pagingWait) moments)
    (hcursor : page.cursor = some cursor) (hsize : 0 < a.config.pageSize.toNat)
    (hlt : a.config.pageSize.toNat < count)
    (hlater : a.Drains ledger (request.continued cursor) (count - a.config.pageSize.toNat) cursors
      later) :
    a.Drains ledger request count (cursor :: cursors) (later ++ moments) where
  given := by
    rw [pagesOf_append, h.pages, List.map_append, hlater.given, List.map_singleton, hcursor]
    rfl
  pages := by rw [List.length_cons, hlater.pages, pageCount_of_lt hsize hlt]
  errands := by
    rw [errands_append, h.errands, hlater.errands, EventsRequest.calls, EventsRequest.calls,
      List.map_cons, spaced_cons _ _ (List.cons_ne_nil _ _)]
    rfl
  others l hne := by rw [pagesOf_append, h.others l hne, hlater.others l hne, List.append_nil]

end Assignment

namespace World

theorem Unhindered.wait_leads (hw : w.Unhindered) {milliseconds : UInt64} {wait : Wait}
    (hat : w.At before (a.wait (w.signals earlier) sink milliseconds wait)) :
    ∃ moments now, asked moments = paused milliseconds ∧
      w.At (moments ++ before) (a.proceed (w.signals now) sink wait) := by
  obtain ⟨moments, signals, ⟨now, rfl⟩, hl, hasked⟩ :=
    wait_leads_paused hw.runs_of_signals (fun history => ⟨history, rfl⟩) ⟨earlier, rfl⟩ before sink
      milliseconds wait
  exact ⟨moments, now, hasked, hat.leads hl⟩

theorem Unhindered.fetch_leads (hw : w.Unhindered) {page : EventsPage}
    (hat : w.At before (.waiting sink (.events poll)))
    (hr : w.reply before (.events poll.request) = .ok page) :
    w.FailsToDecode ∨ ∃ moments now sink', a.Fetches poll.ledger poll.request page [] moments ∧
      w.At (moments ++ before) (a.endPage (w.signals now) sink' poll page) := by
  refine (hw.page_leads hat hr).imp id ?_
  rintro ⟨moments, now, sink', events, hevents, hat'⟩
  have hquiet := pagesOf_of_handle hevents
  refine ⟨moments ++ [w.moment before (.events poll)], now, sink', ⟨?_, fun l hne => ?_, ?_⟩, ?_⟩
  · rw [pagesOf_append, hquiet, pagesOf_moment hr, if_pos rfl, List.append_nil]
  · rw [pagesOf_append, hquiet, pagesOf_moment hr, if_neg hne.symm, List.append_nil]
  · rw [errands_append, errands_of_handle hevents, List.append_nil]
    rfl
  · rwa [List.append_cons] at hat'

theorem Pages.poll_leads (h : w.Pages s start stop) (hw : w.Unhindered)
    (hsize : 0 < a.config.pageSize.toNat) {place : Nat} {page : EventsPage}
    (hat : w.At before (.waiting sink (.events poll)))
    (hr : w.reply before (.events poll.request) = .ok page)
    (hslices : s.Slices poll.ledger place a.config.pageSize.toNat page)
    (hstart : start ≤ poll.ledger) (hstop : poll.ledger ≤ stop)
    (hcontinued : ∀ cursor, poll.request.continued cursor = (EventsRequest.ofLedger poll.ledger
      (w.signals earlier).filters a.config.pageSize).continued cursor) :
    w.FailsToDecode ∨ ∃ moments now sink' request reported cursors,
      w.At (moments ++ before)
        (a.endPoll (w.signals now) sink' { poll with request } reported) ∧
      a.Drains poll.ledger poll.request ((s.events poll.ledger).length - place) cursors
        moments := by
  -- every page but the last leaves fewer events to come
  induction hn : (s.events poll.ledger).length - place using Nat.strongRecOn
    generalizing before sink poll place page with
  | ind n ih =>
  rcases hw.fetch_leads hat hr with hundecodable | ⟨moments, now, sink', hfetches, hend⟩
  · exact .inl hundecodable
  rw [Assignment.endPage, hslices.runsPast, if_neg Bool.false_ne_true] at hend
  rcases Nat.lt_or_ge (place + a.config.pageSize.toNat) (s.events poll.ledger).length with
    hmore | hlast
  · obtain ⟨cursor, hcursor, hnext, hplace⟩ := hslices.nextCursor? hsize hmore
    rw [hnext] at hend
    obtain ⟨pause, now', hpause, hwait⟩ := hw.wait_leads hend
    rw [Assignment.proceed, Assignment.requestPage, if_neg (by simp [hw.runs now'])] at hwait
    obtain ⟨page', hr', hslices'⟩ := h.continues (pause ++ (moments ++ before)) earlier
      poll.ledger cursor _ hstart hstop hplace
    rw [← hcontinued] at hr'
    rcases ih ((s.events poll.ledger).length - (place + a.config.pageSize.toNat)) (by omega) hwait
      hr' hslices' hstart hstop hcontinued rfl with
      hundecodable | ⟨later, after, sink'', request, reported, cursors, hend', hdrains⟩
    · exact .inl hundecodable
    rw [← Nat.sub_sub, hn] at hdrains
    refine .inr ⟨later ++ (pause ++ moments), after, sink'', request, reported, cursor :: cursors,
      ?_, .cons (hfetches.wait hpause) hcursor hsize (by omega) hdrains⟩
    simpa only [List.append_assoc] using hend'
  · rw [hslices.nextCursor?_eq_none hlast] at hend
    exact .inr ⟨moments, now, sink', poll.request, page.latest, [], hend,
      hfetches.drains (hslices.last hlast) (by omega)⟩

end World

namespace LedgerNumber

theorem length_through (first last : LedgerNumber) :
    (first.through last).length = last.toNat + 1 - first.toNat := by
  simp [through]

theorem le_of_mem_through {first last l : LedgerNumber} (h : l ∈ first.through last) :
    first ≤ l := by
  obtain ⟨n, hn, rfl⟩ := List.mem_map.mp h
  obtain ⟨hge, hlt⟩ := List.mem_range'_1.mp hn
  have hsize := last.toNat_lt_size
  rw [UInt32.le_iff_toNat_le, UInt32.toNat_ofNat_of_lt' (by omega)]
  exact hge

end LedgerNumber

structure Round where
  ledger : LedgerNumber
  filters : List EventFilter
  cursors : List String

namespace Assignment

def roundCalls (a : Assignment) (r : Round) : List Question :=
  spaced a.config.pagingWait
    ((EventsRequest.ofLedger r.ledger r.filters a.config.pageSize).calls r.cursors)

def roundGap (a : Assignment) : List Question :=
  if a.config.skipWaitIfBehind then [] else paused a.config.liveWait

theorem duration_roundGap (a : Assignment) :
    duration a.roundGap = if a.config.skipWaitIfBehind then 0 else a.config.liveWait.toNat := by
  unfold roundGap
  split
  · rfl
  · exact duration_paused _

structure CatchesUp (a : Assignment) (s : Source) (ledger stop : LedgerNumber)
    (rounds : List Round) (moments : List (Moment a)) : Prop where
  ledgers : rounds.map Round.ledger = ledger.through stop
  errands : LedgerFeed.errands moments = a.roundGap.intercalate (rounds.map a.roundCalls)
  drained : ∀ r ∈ rounds, a.Drained moments r.ledger (s.events r.ledger).length r.cursors
  others : ∀ l, l < ledger → pagesOf moments l = []

variable {rounds : List Round} {filters : List EventFilter}

theorem Drained.of_pagesOf {history : List (Moment a)} (h : a.Drained moments ledger count cursors)
    (heq : pagesOf history ledger = pagesOf moments ledger) :
    a.Drained history ledger count cursors :=
  ⟨heq ▸ h.given, h.pages⟩

theorem Drains.catchesUp (h : a.Drains stop (.ofLedger stop filters a.config.pageSize)
    (s.events stop).length cursors moments) :
    a.CatchesUp s stop stop [⟨stop, filters, cursors⟩] moments where
  ledgers := (LedgerNumber.through_self stop).symm
  errands := by
    rw [h.errands, List.map_singleton]
    simp [List.intercalate, roundCalls]
  drained r hr := by
    obtain rfl := List.mem_singleton.mp hr
    exact h.toDrained
  others l hlt := h.others l (UInt32.ne_of_lt hlt)

theorem CatchesUp.cons {pause : List (Moment a)} (hlt : ledger < stop)
    (h : a.Drains ledger (.ofLedger ledger filters a.config.pageSize) (s.events ledger).length
      cursors moments)
    (hidle : Idle pause) (hpause : asked pause = a.roundGap)
    (hlater : a.CatchesUp s ledger.following stop rounds later) :
    a.CatchesUp s ledger stop (⟨ledger, filters, cursors⟩ :: rounds)
      (later ++ (pause ++ moments)) where
  ledgers := by rw [List.map_cons, hlater.ledgers, LedgerNumber.through_cons hlt]
  errands := by
    have hne : rounds.map a.roundCalls ≠ [] := by
      intro hnil
      have hlength := congrArg List.length hlater.ledgers
      rw [List.map_eq_nil_iff.mp hnil, LedgerNumber.length_through,
        LedgerNumber.toNat_following_of_ne (LedgerNumber.ne_last_of_lt hlt)] at hlength
      have hlt' := UInt32.lt_iff_toNat_lt.mp hlt
      simp only [List.map_nil, List.length_nil] at hlength
      omega
    rw [errands_append, errands_append, h.errands, hidle.errands, hpause, hlater.errands,
      List.map_cons, intercalate_cons _ _ hne]
    rfl
  drained r hr := by
    have hnext := LedgerNumber.lt_following (LedgerNumber.ne_last_of_lt hlt)
    rcases List.mem_cons.mp hr with rfl | hr
    · refine h.toDrained.of_pagesOf ?_
      rw [pagesOf_append, pagesOf_append, hidle.pagesOf, hlater.others ledger hnext,
        List.append_nil, List.append_nil]
    · refine (hlater.drained r hr).of_pagesOf ?_
      have hmem : r.ledger ∈ ledger.following.through stop :=
        hlater.ledgers ▸ List.mem_map_of_mem hr
      have hgt := UInt32.lt_of_lt_of_le hnext (LedgerNumber.le_of_mem_through hmem)
      rw [pagesOf_append, pagesOf_append, hidle.pagesOf,
        h.others r.ledger (UInt32.ne_of_lt hgt).symm]
      rfl
  others l hl := by
    have hnext := LedgerNumber.lt_following (LedgerNumber.ne_last_of_lt hlt)
    rw [pagesOf_append, pagesOf_append, hidle.pagesOf, h.others l (UInt32.ne_of_lt hl),
      hlater.others l (UInt32.lt_trans hl hnext)]
    rfl

theorem CatchesUp.duration_errands (h : a.CatchesUp s start stop rounds moments) :
    duration (LedgerFeed.errands moments) =
      ((start.through stop).map fun l =>
        pageCount a.config.pageSize.toNat (s.events l).length - 1).sum * a.config.pagingWait.toNat +
      (stop.toNat - start.toNat) * duration a.roundGap := by
  have hround (r : Round) (hr : r ∈ rounds) : duration (a.roundCalls r) =
      (pageCount a.config.pageSize.toNat (s.events r.ledger).length - 1) *
        a.config.pagingWait.toNat := by
    rw [roundCalls, duration_spaced, EventsRequest.calls, ← (h.drained r hr).pages]
    · simp
    · intro q hq
      rcases List.mem_cons.mp hq with rfl | hq
      · rfl
      · obtain ⟨_, -, rfl⟩ := List.mem_map.mp hq
        rfl
  have hlength := congrArg List.length h.ledgers
  rw [List.length_map, LedgerNumber.length_through] at hlength
  have hgaps : stop.toNat + 1 - start.toNat - 1 = stop.toNat - start.toNat := by omega
  rw [h.errands, duration_intercalate, List.length_map, hlength, hgaps, ← h.ledgers, List.map_map,
    List.map_map, ← List.sum_map_mul_right]
  exact congrArg (List.sum · + _) (List.map_congr_left hround)

end Assignment

namespace World

theorem Pages.round_leads (h : w.Pages s start stop) (hw : w.Unhindered)
    (hrequest : a.request.stop? = some stop) (hsize : 0 < a.config.pageSize.toNat)
    (hstart : start ≤ ledger) (hstop : ledger ≤ stop) {latest : LedgerNumber}
    (hlatest : stop ≤ latest)
    (hat : w.At before (a.follow (w.signals earlier) sink ledger latest)) :
    w.FailsToDecode ∨ ∃ moments now sink' request reported cursors,
      w.At (moments ++ before)
        (a.endPoll (w.signals now) sink' ⟨ledger, latest, request⟩ reported) ∧
      a.Drains ledger (.ofLedger ledger (w.signals earlier).filters a.config.pageSize)
        (s.events ledger).length cursors moments := by
  rw [Assignment.follow_eq hrequest (hw.runs earlier) hstop hlatest] at hat
  obtain ⟨page, hr, hslices⟩ := h.opens before earlier ledger hstart hstop
  have hpoll := h.poll_leads hw hsize hat hr hslices hstart hstop fun _ => rfl
  simpa only [Nat.sub_zero] using hpoll

theorem Unhindered.endPoll_leads (hw : w.Unhindered) (hrequest : a.request.stop? = some stop)
    (hlt : poll.ledger < stop) (hlatest : stop ≤ poll.latest) {reported : LedgerNumber}
    (hat : w.At before (a.endPoll (w.signals earlier) sink poll reported)) :
    ∃ pause now sink' latest, Idle pause ∧ asked pause = a.roundGap ∧ stop ≤ latest ∧
      w.At (pause ++ before) (a.follow (w.signals now) sink' poll.ledger.following latest) := by
  have hlatest' : stop ≤ max poll.latest reported := LedgerNumber.le_max_of_le hlatest reported
  have hbehind : ¬max poll.latest reported ≤ poll.ledger :=
    UInt32.not_le.mpr (UInt32.lt_of_lt_of_le hlt hlatest')
  have hin : ¬stop < poll.ledger.following := fun hpast =>
    UInt32.not_le.mpr hlt (LedgerNumber.le_of_lt_following hpast)
  rw [Assignment.endPoll, pastStop_eq hrequest, if_neg (by simpa using hin)] at hat
  simp only [hbehind, decide_false, Bool.false_or, Bool.not_eq_true'] at hat
  split at hat
  · rename_i hskip
    obtain ⟨pause, now, hpause, hat'⟩ := hw.wait_leads hat
    exact ⟨pause, now, _, _, idle_of_paused hpause,
      by rw [hpause, Assignment.roundGap, hskip, if_neg Bool.false_ne_true], hlatest', hat'⟩
  · rename_i hskip
    exact ⟨[], earlier, _, _, idle_nil,
      by rw [Assignment.roundGap, if_pos (by simpa using hskip)]; rfl, hlatest', hat⟩

theorem Pages.range_leads (h : w.Pages s start stop) (hw : w.Unhindered)
    (hrequest : a.request.stop? = some stop) (hne : stop ≠ .last)
    (hsize : 0 < a.config.pageSize.toNat) (hstart : start ≤ ledger) (hstop : ledger ≤ stop)
    {latest : LedgerNumber} (hlatest : stop ≤ latest)
    (hat : w.At before (a.follow (w.signals earlier) sink ledger latest)) :
    w.FailsToDecode ∨ ∃ moments sink' rounds,
      w.At (moments ++ before) (Assignment.completed sink' stop.following) ∧
      a.CatchesUp s ledger stop rounds moments := by
  induction hleft : stop.toNat - ledger.toNat using Nat.strongRecOn
    generalizing before earlier sink ledger latest with
  | ind n ih =>
  rcases h.round_leads hw hrequest hsize hstart hstop hlatest hat with
    hundecodable | ⟨moments, now, sink', request, reported, cursors, hend, hdrains⟩
  · exact .inl hundecodable
  by_cases hlt : ledger < stop
  · obtain ⟨pause, now', s', latest', hidle, hpause, hlatest', hat'⟩ :=
      hw.endPoll_leads hrequest hlt hlatest hend
    have hlt' := UInt32.lt_iff_toNat_lt.mp hlt
    have hsucc := LedgerNumber.toNat_following_of_ne (LedgerNumber.ne_last_of_lt hlt)
    rcases ih (stop.toNat - ledger.following.toNat) (by omega)
      (UInt32.le_trans hstart (LedgerNumber.le_following ledger))
      (UInt32.le_iff_toNat_le.mpr (by omega)) hlatest' hat' rfl with
      hundecodable | ⟨later, sink'', rounds, hat'', hcatches⟩
    · exact .inl hundecodable
    · refine .inr ⟨later ++ (pause ++ moments), sink'', _, ?_,
        .cons hlt hdrains hidle hpause hcatches⟩
      simpa only [List.append_assoc] using hat''
  · obtain rfl := UInt32.le_antisymm hstop (UInt32.not_lt.mp hlt)
    have hpast : a.pastStop ledger.following = true := by
      rw [pastStop_eq hrequest]
      simpa using LedgerNumber.lt_following hne
    rw [Assignment.endPoll, if_pos hpast] at hend
    exact .inr ⟨moments, _, _, hend, hdrains.catchesUp⟩

end World

namespace Rehearsal.Node

theorem events_source (n : Node) (ledger : LedgerNumber) :
    n.source.events ledger = n.eventsOf ledger :=
  List.filter_eq_self.mpr fun _ hraw => decide_eq_true (ledger_of_mem_eventsOf hraw)

theorem slices_eventsPage {n : Node} (hoverlap : n.overlap = 0) {r : EventsRequest} {place : Nat}
    (h : position r = (ledger, place)) :
    n.source.Slices ledger place r.limit.toNat (n.eventsPage r) := by
  constructor
  · simp only [eventsPage, h, events_source]
  · intro hle
    rw [events_source] at hle
    simp only [eventsPage, h, ite_eq_right_iff, reduceCtorEq, imp_false, List.length_take,
      List.length_drop]
    omega
  · intro hlt
    rw [events_source] at hlt
    have hfull : min r.limit.toNat ((n.eventsOf ledger).length - place) = r.limit.toNat := by omega
    refine ⟨s!"{ledger}:{place + r.limit.toNat}", ?_, ?_⟩
    · simp only [eventsPage, h, List.length_take, List.length_drop, hfull, hoverlap, Nat.sub_zero,
        true_and]
      rw [if_pos (by omega)]
    · simp only [source, position_cursor ⟨none, none, none, [], 0⟩ ledger (place + r.limit.toNat)]
      simp

theorem slices_eventsPage_after {n : Node} (hoverlap : n.overlap = 0) (asked : Nat)
    {r : EventsRequest} {place : Nat} (h : position r = (ledger, place)) :
    n.source.Slices ledger place r.limit.toNat ((n.after asked).eventsPage r) := by
  rw [after_eq]
  exact @slices_eventsPage _ { n with windows := n.windows.drop _ } hoverlap _ _ h

theorem world_pages {live archive : Node} {filters : List EventFilter}
    (hoverlap : live.overlap = 0) :
    (world a live archive filters).Pages live.source start stop where
  opens history earlier ledger _ _ := by
    have hplace : position (.ofLedger ledger filters a.config.pageSize) = (ledger, 0) := rfl
    exact ⟨_, rfl, slices_eventsPage_after hoverlap (healthAsked history) hplace⟩
  continues history earlier ledger cursor place _ _ h := by
    have hplace := position_of_place h (.ofLedger ledger filters a.config.pageSize)
    exact ⟨_, rfl, slices_eventsPage_after hoverlap (healthAsked history) hplace⟩

end Rehearsal.Node

/-- A live run over closed ledgers asks once for the health, and for each ledger in order once per
page that its events come to; it takes the waits between the pages of a ledger, and those between
ledgers unless it is told to hurry, as long as the events can be decoded. -/
theorem closed_range_caught_up (hrequest : a.request = .live (some start) (some stop))
    (hle : start ≤ stop) (hne : stop ≠ .last) (hsize : 0 < a.config.pageSize) (hw : w.Unhindered)
    {health : Health} (hr : w.reply [] (.health .live) = .ok health)
    (hhealthy : health.healthy = true)
    (holdest : health.oldestAvailable a.config.retentionMargin ≤ start)
    (hlatest : stop ≤ health.latest) (hpages : w.Pages s start stop) :
    w.FailsToDecode ∨ ∃ history delivered, w.Ends history ⟨.completed, delivered, stop + 1⟩ ∧
      (∃ rounds : List Round, rounds.map Round.ledger = start.through stop ∧
        errands history =
          .health .live :: a.roundGap.intercalate (rounds.map a.roundCalls) ∧
        ∀ r ∈ rounds, a.Drained history r.ledger (s.events r.ledger).length r.cursors) ∧
      elapsed history =
        ((start.through stop).map fun l =>
          pageCount a.config.pageSize.toNat (s.events l).length - 1).sum *
            a.config.pagingWait.toNat +
        if a.config.skipWaitIfBehind then 0
        else (stop.toNat - start.toNat) * a.config.liveWait.toNat := by
  have hstop : a.request.stop? = some stop := by
    rw [hrequest]
    rfl
  let m := w.moment [] (.liveHealth (.choosing (some start)))
  have hbegin := hw.begin_follows hrequest hle hr hhealthy holdest (UInt32.le_trans hle hlatest)
  refine (hpages.range_leads hw hstop hne (UInt32.lt_iff_toNat_lt.mp hsize) (UInt32.le_refl start)
    hle hlatest hbegin).imp id ?_
  rintro ⟨moments, sink, rounds, hat, hcatches⟩
  rw [LedgerNumber.following_eq hne] at hat
  have herrands : errands (moments ++ [m]) = .health .live :: errands moments := by
    rw [errands_append]
    rfl
  refine ⟨moments ++ [m], sink.delivered, ⟨sink, _, hat.1, hat.2, rfl⟩,
    ⟨rounds, hcatches.ledgers, ?_, fun r hr => ?_⟩, ?_⟩
  · rw [herrands, hcatches.errands]
  · refine (hcatches.drained r hr).of_pagesOf ?_
    rw [pagesOf_append]
    rfl
  · rw [elapsed_eq, herrands, duration_cons, hcatches.duration_errands, a.duration_roundGap]
    split <;> simp [Question.milliseconds]

open Rehearsal

def unhurriedRun : Assignment :=
  { risingRun with
    config := { risingRun.config with skipWaitIfBehind := false } }

theorem unhurriedRun_caught_up :
    ∃ history delivered, (Node.world unhurriedRun closedNode closedNode []).Ends history
        ⟨.completed, delivered, 8⟩ ∧
      (∃ rounds : List Round, rounds.map Round.ledger = [5, 6, 7] ∧
        errands history =
          .health .live :: [.pause 5000].intercalate (rounds.map unhurriedRun.roundCalls) ∧
        ∀ r ∈ rounds, unhurriedRun.Drained history r.ledger
          (closedNode.source.events r.ledger).length r.cursors) ∧
      elapsed history = 100 + 2 * 5000 := by
  obtain ⟨history, delivered, hends, hrounds, helapsed⟩ :=
    (closed_range_caught_up rfl (by decide) (by decide) (by decide)
      Node.world_undisturbed.unhindered rfl rfl (by decide) (by decide)
      (Node.world_pages rfl)).resolve_left
      (Node.world_not_failsToDecode (a := unhurriedRun) closedNode_decodes)
  exact ⟨history, delivered, hends, hrounds, helapsed.trans (by decide)⟩

end LedgerFeed
