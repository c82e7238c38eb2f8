import LedgerFeed.Proofs.Offering

/-! Live sources, and runs that nobody disturbs. The poll of a ledger is paged from a list that is
sorted by ledger and may hold the events of other ledgers; a page may send the end of the one before
it again. The events that such a run has dealt with, filtered, are those that its handler got. -/

namespace LedgerFeed

structure Source where
  listing : LedgerNumber → List RawEvent
  place : LedgerNumber → String → Option Nat

namespace Source

def events (s : Source) (ledger : LedgerNumber) : List RawEvent :=
  (s.listing ledger).filter fun e => e.ledger = ledger

def run (s : Source) (first count : Nat) : List RawEvent :=
  (List.range' first count).flatMap fun n => s.events (UInt32.ofNat n)

def below (s : Source) (first ledger : LedgerNumber) : List RawEvent :=
  s.run first.toNat (ledger.toNat - first.toNat)

def between (s : Source) (first last : LedgerNumber) : List RawEvent :=
  s.run first.toNat (last.toNat + 1 - first.toNat)

/-- A page from a place of a listing. A cursor leads behind that place, and stands at most so many
events before the end of its page. -/
structure Gives (s : Source) (overlap : Nat) (ledger : LedgerNumber) (place limit : Nat)
    (page : EventsPage) : Prop where
  events : page.events = ((s.listing ledger).drop place).take limit
  last : page.cursor = none → (s.listing ledger).length ≤ place + limit
  more : ∀ cursor, page.cursor = some cursor → page.events ≠ [] →
    ∃ next, s.place ledger cursor = some next ∧ place < next ∧
      next ≤ place + page.events.length ∧ place + page.events.length ≤ next + overlap

theorem run_append (s : Source) (first m n : Nat) :
    s.run first (m + n) = s.run first m ++ s.run (first + m) n := by
  rw [run, ← List.range'_append_1, List.flatMap_append]
  rfl

@[simp] theorem run_one (s : Source) (ledger : LedgerNumber) :
    s.run ledger.toNat 1 = s.events ledger := by
  simp [run]

@[simp] theorem below_self (s : Source) (first : LedgerNumber) : s.below first first = [] := by
  simp [below, run]

theorem below_append (s : Source) {first ledger : LedgerNumber} (h : first ≤ ledger) (n : Nat) :
    s.below first ledger ++ s.run ledger.toNat n =
      s.run first.toNat (ledger.toNat + n - first.toNat) := by
  have hle := UInt32.le_iff_toNat_le.mp h
  rw [below, Nat.sub_add_comm hle, run_append, Nat.add_sub_cancel' hle]

theorem below_append_sublist (s : Source) {first ledger last : LedgerNumber} (h : first ≤ ledger)
    {n : Nat} (hn : ledger.toNat + n ≤ last.toNat + 1) :
    (s.below first ledger ++ s.run ledger.toNat n).Sublist (s.between first last) := by
  have hle := UInt32.le_iff_toNat_le.mp h
  have hsplit : last.toNat + 1 - first.toNat =
      ledger.toNat + n - first.toNat + (last.toNat + 1 - (ledger.toNat + n)) := by
    omega
  rw [below_append s h, between, hsplit, run_append]
  exact List.sublist_append_left ..

theorem between_append (s : Source) {start stop ledger : LedgerNumber} (hstart : start ≤ ledger)
    (hstop : ledger ≤ stop) :
    s.between start stop = s.below start ledger ++ s.between ledger stop := by
  have hle := UInt32.le_iff_toNat_le.mp hstop
  rw [between, between, s.below_append hstart]
  congr 2
  omega

theorem events_prefix_between (s : Source) {ledger stop : LedgerNumber} (hstop : ledger ≤ stop) :
    s.events ledger <+: s.between ledger stop := by
  have hle := UInt32.le_iff_toNat_le.mp hstop
  have hsplit : stop.toNat + 1 - ledger.toNat = 1 + (stop.toNat - ledger.toNat) := by omega
  rw [between, hsplit, run_append, run_one]
  exact List.prefix_append ..

end Source

theorem filter_takeWhile_of_sorted {events : List RawEvent} (ledger : LedgerNumber)
    (h : events.Pairwise fun e e' => e.ledger ≤ e'.ledger) :
    (events.takeWhile fun e => e.ledger ≤ ledger).filter (fun e => e.ledger = ledger) =
      events.filter fun e => e.ledger = ledger := by
  induction events with
  | nil => rfl
  | cons e events ih =>
    obtain ⟨he, h⟩ := List.pairwise_cons.mp h
    rw [List.takeWhile_cons]
    by_cases hle : e.ledger ≤ ledger
    · simp only [hle, decide_true, if_true, List.filter_cons, ih h]
    · -- everything from here on lies above the polled ledger
      have hne : ∀ e' ∈ e :: events, ¬e'.ledger = ledger := by
        intro e' he' heq
        rcases List.mem_cons.mp he' with rfl | he'
        · exact hle (UInt32.le_of_eq heq)
        · exact hle (heq ▸ he e' he')
      rw [(List.filter_eq_nil_iff (l := e :: events)).mpr (by simpa using hne)]
      simp [hle]

theorem EventsPage.ofLedger_eq_filter {page : EventsPage} (ledger : LedgerNumber)
    (h : page.events.Pairwise fun e e' => e.ledger ≤ e'.ledger) :
    page.ofLedger ledger = page.events.filter fun e => e.ledger = ledger :=
  filter_takeWhile_of_sorted ledger h

theorem filter_drop_of_runsPast {listing : List RawEvent} {ledger : LedgerNumber}
    {place limit : Nat} (hs : listing.Pairwise fun e e' => e.ledger ≤ e'.ledger) {e : RawEvent}
    (he : e ∈ (listing.drop place).take limit) (hlt : ledger < e.ledger) :
    (listing.drop (place + limit)).filter (fun e => e.ledger = ledger) = [] := by
  rw [List.filter_eq_nil_iff]
  intro e' he'
  rw [← List.drop_drop] at he'
  have hsorted := hs.sublist (List.drop_sublist place listing)
  rw [← List.take_append_drop limit (listing.drop place), List.pairwise_append] at hsorted
  have hle := hsorted.2.2 e he e' he'
  have hne : e'.ledger ≠ ledger := fun heq => by
    rw [heq] at hle
    exact UInt32.lt_irrefl _ (UInt32.lt_of_lt_of_le hlt hle)
  simpa using hne

/-- Nobody stops the run or changes its filters, and the handler accepts what it gets. -/
structure World.Undisturbed {a : Assignment} (w : World a) (filters : List EventFilter) : Prop where
  signals : ∀ history, w.signals history = ⟨false, filters⟩
  accepts : ∀ history event, w.reply history (.handle event) = .accepted

structure Source.Sound (s : Source) (decoder : Decoder) (start stop : LedgerNumber) : Prop where
  decodes : ∀ raw ∈ s.between start stop, ∃ event, decoder.decode raw = .ok event
  distinct : ((s.between start stop).map RawEvent.id).Nodup

/-- The live node serves a source over a range of ledgers, to a run that nobody disturbs and that
can tell the events sent again. -/
structure World.Serves {a : Assignment} (w : World a) (s : Source) (filters : List EventFilter)
    (overlap : Nat) (start stop : LedgerNumber) : Prop
    extends w.Undisturbed filters, s.Sound a.decoder start stop where
  opens : ∀ history ledger, start ≤ ledger → ledger ≤ stop →
    ∃ page, w.reply history (.events (.ofLedger ledger filters a.config.pageSize)) = .ok page ∧
      s.Gives overlap ledger 0 a.config.pageSize.toNat page
  continues : ∀ history ledger cursor place, start ≤ ledger → ledger ≤ stop →
    s.place ledger cursor = some place →
    ∃ page, w.reply history
        (.events ((EventsRequest.ofLedger ledger filters a.config.pageSize).continued cursor)) =
          .ok page ∧
      s.Gives overlap ledger place a.config.pageSize.toNat page
  sorted : ∀ ledger, start ≤ ledger → ledger ≤ stop →
    (s.listing ledger).Pairwise fun e e' => e.ledger ≤ e'.ledger
  overlap_lt : overlap < a.config.pageSize.toNat
  overlap_le : overlap ≤ a.config.dedupCapacity.toNat

structure World.Reports {a : Assignment} (w : World a) (health : Nat → Health) : Prop where
  healthy : ∀ n, (health n).healthy = true
  reply : ∀ history, w.reply history (.health .live) = .ok (health (healthAsked history))

structure Assignment.Dealt (a : Assignment) (filters : List EventFilter) (history : List (Moment a))
    (sink : Sink) (done : List RawEvent) : Prop where
  received : LedgerFeed.received history = a.decoder.selected filters done
  delivered : sink.delivered = .ofNat (a.decoder.selected filters done).length
  recent : sink.recent.Holds (done.map RawEvent.id)
  capacity : a.config.dedupCapacity.toNat ≤ sink.recent.capacity

variable {a : Assignment} {w : World a} {filters : List EventFilter}

namespace Assignment.Dealt

variable {history moments : List (Moment a)} {sink sink' : Sink} {done raws : List RawEvent}
  {events : List ContractEvent}

theorem begin (a : Assignment) (filters : List EventFilter) (feed : Feed) (s : Source)
    (start : LedgerNumber) :
    a.Dealt filters [] (.ofCapacity a.config.dedupCapacity feed) (s.below start start) := by
  rw [s.below_self]
  refine ⟨rfl, rfl, RecentIds.holds_ofCapacity _, ?_⟩
  exact Nat.le_max_left ..

theorem quiet (h : a.Dealt filters history sink done) (moments : List (Moment a))
    (hm : LedgerFeed.received moments = []) (hd : sink'.delivered = sink.delivered)
    (hr : sink'.recent = sink.recent) : a.Dealt filters (moments ++ history) sink' done := by
  refine ⟨?_, hd ▸ h.delivered, hr ▸ h.recent, hr ▸ h.capacity⟩
  rw [received_append, hm, List.append_nil, h.received]

theorem take (h : a.Dealt filters history sink done)
    (ht : sink.Takes a.decoder filters raws events sink')
    (ha : LedgerFeed.received moments = events) (hn : ((done ++ raws).map RawEvent.id).Nodup) :
    a.Dealt filters (moments ++ history) sink' (done ++ raws) := by
  obtain ⟨rfl, hrecent⟩ := ht.of_nodup h.recent hn
  refine ⟨?_, ?_, hrecent, ht.capacity ▸ h.capacity⟩
  · rw [received_append, ha, h.received, Decoder.selected_append]
  · rw [ht.delivered, h.delivered, Decoder.selected_append, List.length_append,
      UInt64.ofNat_add]

/-- Some of the latest events may come again before new ones. -/
theorem retake {older latest : List RawEvent} (h : a.Dealt filters history sink (older ++ latest))
    (ht : sink.Takes a.decoder filters (latest ++ raws) events sink')
    (ha : LedgerFeed.received moments = events)
    (hle : latest.length ≤ a.config.dedupCapacity.toNat)
    (hn : ((older ++ latest ++ raws).map RawEvent.id).Nodup) :
    a.Dealt filters (moments ++ history) sink' (older ++ latest ++ raws) := by
  obtain ⟨s, again, fresh, hagain, hfresh, rfl⟩ := Sink.takes_append ht
  have hc := h.recent.contains_latest (Nat.le_trans hle h.capacity)
  obtain ⟨rfl, hs⟩ := hagain.of_contains hc
  have hdelivered : s.delivered = sink.delivered := by
    simpa using hagain.delivered
  have h' := h.quiet [] rfl hdelivered hs
  exact h'.take hfresh (by simpa using ha) hn

end Assignment.Dealt

namespace World.Undisturbed

theorem unhindered (h : w.Undisturbed filters) : w.Unhindered :=
  ⟨fun history => congrArg Signals.stop (h.signals history), h.accepts⟩

theorem not_fault (h : w.Undisturbed filters) {before moments : List (Moment a)} {p q : Progress}
    (hl : w.Leads before p moments q) {raw : RawEvent} {event : ContractEvent}
    (hd : a.decoder.decode raw = .ok event) (error : IngestError) : ¬a.Fault moments raw error := by
  intro hf
  obtain ⟨cause, hcause, -⟩ := h.unhindered.cause_of_fault hl hf
  rw [hd] at hcause
  cases hcause

theorem offerThen_leads (h : w.Undisturbed filters) {ledger : LedgerNumber}
    {origin : List RawEvent → Origin} {go : Signals → Sink → Progress}
    (hc : a.Continues filters ledger origin go) {raws : List RawEvent}
    (hd : ∀ raw ∈ raws, ∃ event, a.decoder.decode raw = .ok event) (before : List (Moment a))
    (sink : Sink) :
    ∃ moments sink' events,
      w.Leads before (a.offerThen ⟨false, filters⟩ sink filters ledger origin raws
        (go ⟨false, filters⟩)) moments (go ⟨false, filters⟩ sink') ∧
      sink.Takes a.decoder filters raws events sink' ∧ received moments = events := by
  rcases LedgerFeed.offerThen_leads (P := (· = ⟨false, filters⟩)) (fun h => h ▸ rfl) h.signals hc
    raws before rfl sink with
    ⟨moments, signals, sink', events, rfl, hl, ht, ha⟩ | ⟨moments, sink', error, events, hl, hf, -⟩
  · exact ⟨moments, sink', events, hl, ht, received_of_handle ha⟩
  · obtain ⟨taken, raw, rest, rfl, -, hfault⟩ := hf
    obtain ⟨event, hdecode⟩ := hd raw (by simp)
    exact absurd hfault (h.not_fault hl hdecode error)

end World.Undisturbed
end LedgerFeed
