import LedgerFeed.Proofs.Source

/-! The poll of one ledger. Each page goes on at most `overlap` events before the end of the one
before it, and the sink remembers at least that many, so of every page only new events are taken. -/

namespace LedgerFeed

theorem EventsPage.cursor_of_nextCursor? {cursor : String} (page : EventsPage)
    (h : page.nextCursor? = some cursor) : page.cursor = some cursor ∧ page.events ≠ [] := by
  unfold nextCursor? at h
  split at h
  · cases h
  · rename_i hempty
    exact ⟨h, fun hnil => hempty (List.isEmpty_iff.mpr hnil)⟩

namespace Source

variable {s : Source} {ledger : LedgerNumber}

def part (s : Source) (ledger : LedgerNumber) (i j : Nat) : List RawEvent :=
  (((s.listing ledger).take j).drop i).filter fun e => e.ledger = ledger

theorem part_append (s : Source) (ledger : LedgerNumber) {i j k : Nat} (hij : i ≤ j)
    (hjk : j ≤ k) :
    s.part ledger i j ++ s.part ledger j k = s.part ledger i k := by
  rw [part, part, part, ← List.filter_append]
  congr 1
  have htake : (s.listing ledger).take j = ((s.listing ledger).take k).take j := by
    rw [List.take_take, Nat.min_eq_left hjk]
  rw [htake, List.drop_take, ← Nat.add_sub_cancel' hij, ← List.drop_drop, Nat.add_sub_cancel' hij]
  exact List.take_append_drop ..

theorem length_part_le (s : Source) (ledger : LedgerNumber) (i j : Nat) :
    (s.part ledger i j).length ≤ j - i := by
  refine Nat.le_trans (List.length_filter_le ..) ?_
  rw [List.length_drop, List.length_take]
  omega

theorem part_sublist (s : Source) (ledger : LedgerNumber) (i j : Nat) :
    (s.part ledger i j).Sublist (s.events ledger) :=
  ((List.drop_sublist ..).trans (List.take_sublist ..)).filter _

theorem part_eq_events {j : Nat}
    (h : ((s.listing ledger).drop j).filter (fun e => e.ledger = ledger) = []) :
    s.part ledger 0 j = s.events ledger := by
  rw [part, events, List.drop_zero]
  conv => rhs; rw [← List.take_append_drop j (s.listing ledger), List.filter_append, h]
  exact (List.append_nil _).symm

theorem part_of_length_le {j : Nat} (h : (s.listing ledger).length ≤ j) :
    s.part ledger 0 j = s.events ledger :=
  part_eq_events (by rw [List.drop_eq_nil_of_le h]; rfl)

theorem Gives.ofLedger {overlap place limit : Nat} {page : EventsPage}
    (h : s.Gives overlap ledger place limit page)
    (hs : (s.listing ledger).Pairwise fun e e' => e.ledger ≤ e'.ledger) :
    page.ofLedger ledger = s.part ledger place (place + limit) := by
  have hsorted : page.events.Pairwise fun e e' => e.ledger ≤ e'.ledger := by
    rw [h.events]
    exact hs.sublist ((List.take_sublist ..).trans (List.drop_sublist ..))
  rw [EventsPage.ofLedger_eq_filter ledger hsorted, h.events, part, List.take_drop]

theorem Gives.length_events {overlap place limit : Nat} {page : EventsPage}
    (h : s.Gives overlap ledger place limit page) :
    page.events.length = min limit ((s.listing ledger).length - place) := by
  rw [h.events, List.length_take, List.length_drop]

theorem Gives.part_eq {overlap place limit : Nat} {page : EventsPage}
    (h : s.Gives overlap ledger place limit page) :
    s.part ledger 0 (place + limit) = s.part ledger 0 (place + page.events.length) := by
  have hlen := h.length_events
  have htake : (s.listing ledger).take (place + limit) =
      (s.listing ledger).take (place + page.events.length) := by
    rw [List.take_eq_take_iff]
    omega
  rw [part, part, htake]

theorem Gives.part_eq_events_of_runsPast {overlap place limit : Nat} {page : EventsPage}
    (h : s.Gives overlap ledger place limit page)
    (hs : (s.listing ledger).Pairwise fun e e' => e.ledger ≤ e'.ledger)
    (hpast : page.runsPast ledger = true) : s.part ledger 0 (place + limit) = s.events ledger := by
  obtain ⟨e, he, hlt⟩ := List.any_eq_true.mp hpast
  rw [h.events] at he
  exact part_eq_events (filter_drop_of_runsPast hs he (of_decide_eq_true hlt))

theorem Gives.part_eq_events_of_nextCursor? {overlap place limit : Nat} {page : EventsPage}
    (h : s.Gives overlap ledger place limit page) (hlimit : 0 < limit)
    (hnext : page.nextCursor? = none) : s.part ledger 0 (place + limit) = s.events ledger := by
  refine part_of_length_le ?_
  unfold EventsPage.nextCursor? at hnext
  split at hnext
  · rename_i hempty
    rw [h.events, List.isEmpty_iff, List.take_eq_nil_iff, List.drop_eq_nil_iff] at hempty
    omega
  · exact h.last hnext

end Source

/-- What a run of a range comes to once a ledger of it was polled. -/
inductive Assignment.Passed (a : Assignment) (filters : List EventFilter)
    (stop ledger : LedgerNumber) (sink : Sink) : Progress → Prop
  | done (h : ledger = stop) : Passed a filters stop ledger sink (completed sink ledger.following)
  | onward (h : ledger < stop) (latest : LedgerNumber) :
      Passed a filters stop ledger sink (a.follow ⟨false, filters⟩ sink ledger.following latest)

variable {a : Assignment} {w : World a} {filters : List EventFilter} {s : Source} {overlap : Nat}
  {start stop ledger : LedgerNumber} {older : List RawEvent}

theorem pastStop_eq (h : a.request.stop? = some stop) (ledger : LedgerNumber) :
    a.pastStop ledger = decide (stop < ledger) := by
  simp [Assignment.pastStop, h]

namespace World

theorem Undisturbed.wait_leads (h : w.Undisturbed filters) (before : List (Moment a)) (sink : Sink)
    (milliseconds : UInt64) (wait : Wait) :
    ∃ moments, w.Leads before (a.wait ⟨false, filters⟩ sink milliseconds wait) moments
      (a.proceed ⟨false, filters⟩ sink wait) ∧ Idle moments := by
  obtain ⟨moments, signals, rfl, hl, hidle⟩ := World.wait_leads (P := (· = ⟨false, filters⟩))
    (fun h => h ▸ rfl) h.signals rfl before sink milliseconds wait
  exact ⟨moments, hl, hidle⟩

theorem Undisturbed.endPoll_leads (h : w.Undisturbed filters) (hstop : a.request.stop? = some stop)
    (hne : stop ≠ .last) {poll : Poll} (hle : poll.ledger ≤ stop) (before : List (Moment a))
    (sink : Sink) (reported : LedgerNumber) :
    ∃ moments sink' p,
      w.Leads before (a.endPoll ⟨false, filters⟩ sink poll reported) moments p ∧
      a.Passed filters stop poll.ledger sink' p ∧ Idle moments ∧
      sink'.recent = sink.recent ∧ sink'.delivered = sink.delivered := by
  have hle' := UInt32.le_iff_toNat_le.mp hle
  have hnext : poll.ledger.following.toNat = poll.ledger.toNat + 1 := by
    refine LedgerNumber.toNat_following_of_ne fun heq => hne ?_
    refine UInt32.le_antisymm ?_ (heq ▸ hle)
    exact UInt32.le_iff_toNat_le.mpr (Nat.le_sub_one_of_lt stop.toNat_lt_size)
  rw [Assignment.endPoll, pastStop_eq hstop]
  by_cases hlt : poll.ledger < stop
  · have hlt' := UInt32.lt_iff_toNat_lt.mp hlt
    have hpast : ¬stop < poll.ledger.following := fun hpast => by
      have := UInt32.lt_iff_toNat_lt.mp hpast
      omega
    simp only [hpast, decide_false, Bool.false_eq_true, if_false]
    split
    · obtain ⟨moments, hl, hidle⟩ := h.wait_leads before
        (sink.measure (.cursor .live poll.ledger.following)) a.config.liveWait
        (.atTip poll.ledger.following (max poll.latest reported))
      exact ⟨moments, _, _, hl, .onward hlt _, hidle, rfl, rfl⟩
    · exact ⟨[], _, _, .refl .., .onward hlt _, idle_nil, rfl, rfl⟩
  · have heq : poll.ledger = stop := UInt32.le_antisymm hle (UInt32.not_lt.mp hlt)
    have hpast : stop < poll.ledger.following := by
      rw [UInt32.lt_iff_toNat_lt, hnext, heq]
      exact Nat.lt_succ_self _
    simp only [hpast, decide_true, if_true]
    exact ⟨[], _, _, .refl .., .done heq, idle_nil, rfl, rfl⟩

theorem events_sublist_between (hstart : start ≤ ledger) (hstop : ledger ≤ stop) :
    (s.events ledger).Sublist (s.between start stop) := by
  rw [s.between_append hstart hstop]
  exact (s.events_prefix_between hstop).sublist.trans (List.sublist_append_right ..)

theorem Serves.page_leads (h : w.Serves s filters overlap start stop) (hstart : start ≤ ledger)
    (hstop : ledger ≤ stop) {poll : Poll} (hledger : poll.ledger = ledger)
    (hfilters : poll.request.filters = filters) {before : List (Moment a)}
    {sink : Sink} {place seen : Nat} {page : EventsPage}
    (hr : w.reply before (.events poll.request) = .ok page)
    (hg : s.Gives overlap ledger place a.config.pageSize.toNat page) (hplace : place ≤ seen)
    (hseen : seen ≤ place + overlap) (hn : ((older ++ s.events ledger).map RawEvent.id).Nodup)
    (hdealt : a.Dealt filters before sink (older ++ s.part ledger 0 seen)) :
    ∃ moments sink',
      w.Leads before (.waiting sink (.events poll)) moments
        (a.endPage ⟨false, filters⟩ sink' poll page) ∧
      a.Dealt filters (moments ++ before) sink'
        (older ++ s.part ledger 0 (place + a.config.pageSize.toNat)) := by
  have hlimit : seen ≤ place + a.config.pageSize.toNat := by
    have := h.overlap_lt
    omega
  have hoffered : page.ofLedger poll.ledger =
      s.part ledger place seen ++ s.part ledger seen (place + a.config.pageSize.toNat) := by
    rw [hledger, hg.ofLedger (h.sorted ledger hstart hstop), s.part_append ledger hplace hlimit]
  have hdecodes : ∀ raw ∈ page.ofLedger poll.ledger, ∃ event, a.decoder.decode raw = .ok event := by
    intro raw hraw
    rw [hledger, hg.ofLedger (h.sorted ledger hstart hstop)] at hraw
    exact h.decodes raw ((events_sublist_between hstart hstop).subset
      ((Source.part_sublist ..).subset hraw))
  have hcontinues : a.Continues filters poll.ledger (.page poll page) fun signals sink =>
      a.endPage signals sink poll page := hfilters ▸ continues_page poll page
  obtain ⟨moments, sink', events, hl, ht, ha⟩ := h.offerThen_leads hcontinues hdecodes
    (w.moment before (.events poll) :: before) (sink.measure (.page .live))
  refine ⟨moments ++ [w.moment before (.events poll)], sink', World.leads_events hr ?_, ?_⟩
  · rw [h.signals, Assignment.offerPage, hfilters]
    exact hl
  · have hsplit := s.part_append ledger (Nat.zero_le place) hplace
    rw [← hsplit, ← List.append_assoc] at hdealt
    rw [hoffered] at ht
    have hquiet := @Assignment.Dealt.quiet _ _ _ _ (sink.measure (.page .live)) _ hdealt
      [w.moment before (.events poll)] rfl rfl rfl
    have hagain : (s.part ledger place seen).length ≤ a.config.dedupCapacity.toNat := by
      have := h.overlap_le
      have := s.length_part_le ledger place seen
      omega
    have hall : older ++ s.part ledger 0 place ++ s.part ledger place seen ++
        s.part ledger seen (place + a.config.pageSize.toNat) =
          older ++ s.part ledger 0 (place + a.config.pageSize.toNat) := by
      rw [List.append_assoc older, hsplit, List.append_assoc,
        s.part_append ledger (Nat.zero_le _) hlimit]
    have hsub := ((s.part_sublist ledger 0 (place + a.config.pageSize.toNat)).append_left
      older).map RawEvent.id
    rw [List.append_assoc]
    exact hall ▸ hquiet.retake ht ha hagain (hall ▸ hn.sublist hsub)

/-- Once a page is dealt with, all of its ledger is and the run passes on, or it asks for a page
from further down the listing. -/
theorem Serves.endPage_leads (h : w.Serves s filters overlap start stop)
    (hrequest : a.request.stop? = some stop) (hne : stop ≠ .last) (hstart : start ≤ ledger)
    (hstop : ledger ≤ stop) {before : List (Moment a)} {sink : Sink} {poll : Poll}
    (hledger : poll.ledger = ledger) {place : Nat} {page : EventsPage}
    (hg : s.Gives overlap ledger place a.config.pageSize.toNat page)
    (hdealt : a.Dealt filters before sink
      (older ++ s.part ledger 0 (place + a.config.pageSize.toNat))) :
    (∃ moments sink' p,
      w.Leads before (a.endPage ⟨false, filters⟩ sink poll page) moments p ∧
      a.Passed filters stop ledger sink' p ∧
      a.Dealt filters (moments ++ before) sink' (older ++ s.events ledger)) ∨
    ∃ moments cursor next seen, s.place ledger cursor = some next ∧ place < next ∧
      next ≤ seen ∧ seen ≤ next + overlap ∧ seen ≤ (s.listing ledger).length ∧
      w.Leads before (a.endPage ⟨false, filters⟩ sink poll page) moments
        (Assignment.requestPage ⟨false, filters⟩ sink
          { poll with request := poll.request.continued cursor }) ∧
      a.Dealt filters (moments ++ before) sink (older ++ s.part ledger 0 seen) := by
  obtain rfl := hledger
  have hlimit : 0 < a.config.pageSize.toNat := Nat.zero_lt_of_lt h.overlap_lt
  have hpass (hall : s.part poll.ledger 0 (place + a.config.pageSize.toNat) =
      s.events poll.ledger) :
      ∃ moments sink' p,
        w.Leads before (a.endPoll ⟨false, filters⟩ sink poll page.latest) moments p ∧
        a.Passed filters stop poll.ledger sink' p ∧
        a.Dealt filters (moments ++ before) sink' (older ++ s.events poll.ledger) := by
    obtain ⟨moments, sink', p, hl, hp, hidle, hrecent, hdelivered⟩ :=
      h.endPoll_leads hrequest hne hstop before sink page.latest
    rw [hall] at hdealt
    exact ⟨moments, sink', p, hl, hp, hdealt.quiet _ hidle.received hdelivered hrecent⟩
  rw [Assignment.endPage]
  split
  · rename_i hpast
    have hall := hg.part_eq_events_of_runsPast (h.sorted poll.ledger hstart hstop) hpast
    split
    · rename_i hlast
      rw [hrequest] at hlast
      rw [hall] at hdealt
      exact .inl ⟨[], sink, _, .refl .., .done (Option.some.inj hlast).symm, hdealt⟩
    · exact .inl (hpass hall)
  split
  · rename_i cursor hcursor
    obtain ⟨hcursor, hevents⟩ := page.cursor_of_nextCursor? hcursor
    obtain ⟨next, hnext, hlt, hle, hge⟩ := hg.more cursor hcursor hevents
    obtain ⟨moments, hl, hidle⟩ := h.wait_leads before sink a.config.pagingWait
      (.betweenPages { poll with request := poll.request.continued cursor })
    have hseen : place + page.events.length ≤ (s.listing poll.ledger).length := by
      have := hg.length_events
      have := List.length_pos_iff.mpr hevents
      omega
    rw [hg.part_eq] at hdealt
    exact .inr ⟨moments, cursor, next, _, hnext, hlt, hle, hge, hseen, hl,
      hdealt.quiet _ hidle.received rfl rfl⟩
  · rename_i hcursor
    exact .inl (hpass (hg.part_eq_events_of_nextCursor? hlimit hcursor))

theorem Serves.requestPage_leads (h : w.Serves s filters overlap start stop)
    (hrequest : a.request.stop? = some stop) (hne : stop ≠ .last) (hstart : start ≤ ledger)
    (hstop : ledger ≤ stop) (before : List (Moment a)) (sink : Sink) (poll : Poll)
    (hledger : poll.ledger = ledger)
    (hcontinued : ∀ cursor, poll.request.continued cursor =
      (EventsRequest.ofLedger ledger filters a.config.pageSize).continued cursor)
    {place seen : Nat}
    (hgives : ∀ history, ∃ page, w.reply history (.events poll.request) = .ok page ∧
      s.Gives overlap ledger place a.config.pageSize.toNat page)
    (hplace : place ≤ seen) (hseen : seen ≤ place + overlap)
    (hn : ((older ++ s.events ledger).map RawEvent.id).Nodup)
    (hdealt : a.Dealt filters before sink (older ++ s.part ledger 0 seen)) :
    ∃ moments sink' p,
      w.Leads before (Assignment.requestPage ⟨false, filters⟩ sink poll) moments p ∧
      a.Passed filters stop ledger sink' p ∧
      a.Dealt filters (moments ++ before) sink' (older ++ s.events ledger) := by
  -- pages begin further and further down the listing
  induction hlen : (s.listing ledger).length - place using Nat.strongRecOn
    generalizing before sink poll place seen with
  | ind n ih =>
  obtain ⟨page, hr, hg⟩ := hgives before
  have hfilters : poll.request.filters = filters :=
    congrArg EventsRequest.filters (hcontinued "")
  rw [Assignment.requestPage, if_neg (by simp)]
  obtain ⟨moments, s', hl, hdealt'⟩ :=
    h.page_leads hstart hstop hledger hfilters hr hg hplace hseen hn hdealt
  rcases h.endPage_leads hrequest hne hstart hstop hledger hg hdealt' with
    ⟨later, sink', p, hl', hp, hdealt''⟩ |
    ⟨pause, cursor, next, seen', hnext, hlt, hle, hge, hmax, hl', hdealt''⟩
  · refine ⟨later ++ moments, sink', p, hl.trans hl', hp, ?_⟩
    rw [List.append_assoc]
    exact hdealt''
  · have hgives' : ∀ history, ∃ page,
        w.reply history (.events (poll.request.continued cursor)) = .ok page ∧
          s.Gives overlap ledger next a.config.pageSize.toNat page := by
      intro history
      rw [hcontinued]
      exact h.continues history ledger cursor next hstart hstop hnext
    obtain ⟨later, sink', p, hl'', hp, hdealt'''⟩ := ih _ (by omega) _ s'
      { poll with request := poll.request.continued cursor } hledger hcontinued hgives' hle hge
      hdealt'' rfl
    refine ⟨later ++ pause ++ moments, sink', p, hl.trans (hl'.trans hl''), hp, ?_⟩
    simpa using hdealt'''

end World
end LedgerFeed
