import LedgerFeed.Proofs.Live
import LedgerFeed.Proofs.Placed

/-! Runs over sources that do not change. Whatever becomes of a run, its nodes and its handler, the
events that its handler accepted are those of the ledgers that the run has left behind, and the
first ones of the ledger that it is at. -/

namespace LedgerFeed

namespace Source

variable {start stop ledger : LedgerNumber}

theorem append_prefix_between (s : Source) (hstart : start ≤ ledger) (hstop : ledger ≤ stop)
    {part : List RawEvent} (hpart : part <+: s.events ledger) :
    s.below start ledger ++ part <+: s.between start stop := by
  rw [s.between_append hstart hstop]
  exact (List.prefix_append_right_inj _).mpr (hpart.trans (s.events_prefix_between hstop))

theorem part_prefix (s : Source) (ledger : LedgerNumber) (j : Nat) :
    s.part ledger 0 j <+: s.events ledger := by
  rw [part, events, List.drop_zero]
  exact (List.take_prefix ..).filter _

/-- The listings of a range are sorted, the ids of its events differ, and a run can tell what is
sent again. -/
structure Orderly (s : Source) (config : EngineConfig) (overlap : Nat)
    (start stop : LedgerNumber) : Prop where
  sorted : ∀ ledger, start ≤ ledger → ledger ≤ stop →
    (s.listing ledger).Pairwise fun e e' => e.ledger ≤ e'.ledger
  distinct : ((s.between start stop).map RawEvent.id).Nodup
  overlap_lt : overlap < config.pageSize.toNat
  overlap_le : overlap ≤ config.dedupCapacity.toNat

end Source

variable {a : Assignment} {w : World a} {history : List (Moment a)} {s : Source}
  {filters : List EventFilter} {overlap : Nat} {start stop ledger next target : LedgerNumber}
  {sink sink' : Sink} {done part : List RawEvent} {raw : RawEvent} {event : ContractEvent}

/-- Whatever pages and ledgers of a range the nodes return, they are those of a source. Nothing is
said of when they return any, of what they report, and of what the handler does; but the filters
stay. -/
structure World.Draws (w : World a) (s : Source) (filters : List EventFilter) (overlap : Nat)
    (start stop : LedgerNumber) : Prop where
  keeps : ∀ history, (w.signals history).filters = filters
  opens : ∀ history ledger page, start ≤ ledger → ledger ≤ stop →
    w.reply history (.events (.ofLedger ledger filters a.config.pageSize)) = .ok page →
    s.Gives overlap ledger 0 a.config.pageSize.toNat page
  continues : ∀ history ledger cursor place page, start ≤ ledger → ledger ≤ stop →
    s.place ledger cursor = some place →
    w.reply history
      (.events ((EventsRequest.ofLedger ledger filters a.config.pageSize).continued cursor)) =
        .ok page →
    s.Gives overlap ledger place a.config.pageSize.toNat page
  ledgers : ∀ history request page, w.reply history (.ledgers request) = .ok page →
    ∀ ledger ∈ page.ledgers, start ≤ ledger.sequence → ledger.sequence ≤ stop →
      a.decoder.ledgerEvents ledger = .ok (s.events ledger.sequence)

def Moment.accepted? : Moment a → Option ContractEvent
  | ⟨.verdict _ event _, _, .accepted⟩ => some event
  | _ => none

def accepted (history : List (Moment a)) : List ContractEvent :=
  history.reverse.filterMap Moment.accepted?

theorem accepted_cons (m : Moment a) (earlier : List (Moment a)) :
    accepted (m :: earlier) = accepted earlier ++ m.accepted?.toList := by
  rw [accepted, List.reverse_cons, List.filterMap_append]
  cases h : m.accepted? <;> simp [accepted, h]

theorem accepted_cons_of_none {m : Moment a} (hm : m.accepted? = none) :
    accepted (m :: history) = accepted history := by
  rw [accepted_cons, hm]
  exact List.append_nil _

namespace Assignment

structure Ranges (a : Assignment) (start stop : LedgerNumber) : Prop where
  starts : a.request.start? = some start
  stops : a.request.stop? = some stop
  le : start ≤ stop
  ne : stop ≠ .last

structure Took (a : Assignment) (filters : List EventFilter) (history : List (Moment a))
    (sink : Sink) (done : List RawEvent) : Prop where
  accepted : LedgerFeed.accepted history = a.decoder.selected filters done
  recent : sink.recent.Holds (done.map RawEvent.id)
  capacity : a.config.dedupCapacity.toNat ≤ sink.recent.capacity
  decodes : ∀ raw ∈ done, ∃ event, a.decoder.decode raw = .ok event

structure Upto (a : Assignment) (s : Source) (filters : List EventFilter) (start : LedgerNumber)
    (history : List (Moment a)) (sink : Sink) (ledger : LedgerNumber) (part : List RawEvent) :
    Prop where
  ge : start ≤ ledger
  took : a.Took filters history sink (s.below start ledger ++ part)

theorem Ranges.of_archive (h : a.Ranges start stop) (hr : a.request = .archive next target) :
    next = start ∧ target = stop := by
  have hstart := h.starts
  have hstop := h.stops
  rw [hr] at hstart hstop
  exact ⟨Option.some.inj hstart, Option.some.inj hstop⟩

theorem Ranges.last_not_le (h : a.Ranges start stop) : ¬ LedgerNumber.last ≤ stop := by
  intro hle
  exact absurd (UInt32.le_iff_toNat_le.mp hle) (Nat.not_le.mpr (LedgerNumber.toNat_lt_last h.ne))

theorem Ranges.le_stop (h : a.Ranges start stop) (hwithin : a.pastStop ledger = false) :
    ledger ≤ stop :=
  pastStop_eq_false_iff.mp hwithin stop h.stops

theorem Ranges.stop_eq (h : a.Ranges start stop) (hstop : a.request.stop? = some ledger) :
    stop = ledger :=
  Option.some.inj (h.stops.symm.trans hstop)

theorem Ranges.stop_lt (h : a.Ranges start stop) (hpast : a.pastStop ledger = true) :
    stop < ledger := by
  obtain ⟨last, hlast, hlt⟩ := pastStop_eq_true_iff.mp hpast
  rwa [h.stop_eq hlast]

theorem Took.quiet (h : a.Took filters history sink done) {m : Moment a}
    (hm : m.accepted? = none) (hs : sink'.recent = sink.recent) :
    a.Took filters (m :: history) sink' done :=
  ⟨(accepted_cons_of_none hm).trans h.accepted, hs ▸ h.recent, hs ▸ h.capacity, h.decodes⟩

theorem Took.same (h : a.Took filters history sink done) (hs : sink'.recent = sink.recent) :
    a.Took filters history sink' done :=
  ⟨h.accepted, hs ▸ h.recent, hs ▸ h.capacity, h.decodes⟩

theorem Took.record (h : a.Took filters history sink done)
    (hn : ((done ++ [raw]).map RawEvent.id).Nodup) (hd : a.decoder.decode raw = .ok event)
    (hs : sink'.recent = sink.recent.record raw.id) {history' : List (Moment a)}
    (ha : LedgerFeed.accepted history' = LedgerFeed.accepted history ++
      if wanted filters event then [event] else []) :
    a.Took filters history' sink' (done ++ [raw]) := by
  refine ⟨?_, ?_, ?_, fun r hr => ?_⟩
  · rw [ha, h.accepted, Decoder.selected_append]
    cases hw : wanted filters event with
    | true => rw [Decoder.selected_cons_of_wanted hd hw]; rfl
    | false => rw [Decoder.selected_cons_of_not_wanted hd hw]; rfl
  · exact hs ▸ Sink.holds_record_of_nodup h.recent hn
  · rw [hs, RecentIds.capacity_record]
    exact h.capacity
  · rcases List.mem_append.mp hr with hr | hr
    · exact h.decodes r hr
    · exact List.mem_singleton.mp hr ▸ ⟨event, hd⟩

theorem Upto.quiet (h : a.Upto s filters start history sink ledger part) {m : Moment a}
    (hm : m.accepted? = none) (hs : sink'.recent = sink.recent) :
    a.Upto s filters start (m :: history) sink' ledger part :=
  ⟨h.ge, h.took.quiet hm hs⟩

theorem Upto.same (h : a.Upto s filters start history sink ledger part)
    (hs : sink'.recent = sink.recent) : a.Upto s filters start history sink' ledger part :=
  ⟨h.ge, h.took.same hs⟩

theorem Upto.following (h : a.Upto s filters start history sink ledger (s.events ledger))
    (hne : ledger ≠ .last) : a.Upto s filters start history sink ledger.following [] := by
  refine ⟨UInt32.le_trans h.ge (LedgerNumber.le_following ledger), ?_⟩
  rw [below_following s h.ge hne, List.append_nil]
  exact h.took

def Asks (a : Assignment) (s : Source) (filters : List EventFilter) (poll : Poll) (place : Nat) :
    Prop :=
  poll.request = .ofLedger poll.ledger filters a.config.pageSize ∧ place = 0 ∨
  ∃ cursor, s.place poll.ledger cursor = some place ∧
    poll.request = (EventsRequest.ofLedger poll.ledger filters a.config.pageSize).continued cursor

/-- The run asks for a page that goes on where it has come to, or that sends some events again. -/
def Pages (a : Assignment) (s : Source) (filters : List EventFilter) (overlap : Nat)
    (start : LedgerNumber) (history : List (Moment a)) (sink : Sink) (poll : Poll) : Prop :=
  ∃ place seen, a.Asks s filters poll place ∧ place ≤ seen ∧ seen ≤ place + overlap ∧
    a.Upto s filters start history sink poll.ledger (s.part poll.ledger 0 seen)

/-- All that an origin gives of its ledger together with what was taken of it before. -/
inductive Lists (a : Assignment) (s : Source) (filters : List EventFilter) (overlap : Nat)
    (start stop : LedgerNumber) : Origin → List RawEvent → Prop
  | page {poll : Poll} {page : EventsPage} {rest : List RawEvent} {place : Nat}
      (ha : a.Asks s filters poll place)
      (hg : s.Gives overlap poll.ledger place a.config.pageSize.toNat page) :
      Lists a s filters overlap start stop (.page poll page rest)
        (s.part poll.ledger 0 (place + a.config.pageSize.toNat))
  | batch {b : Batch} {rest : List RawEvent} {ledgers : List RawLedger}
      (hf : b.filters = filters)
      (hl : ∀ ledger ∈ ledgers, start ≤ ledger.sequence → ledger.sequence ≤ stop →
        a.decoder.ledgerEvents ledger = .ok (s.events ledger.sequence)) :
      Lists a s filters overlap start stop (.batch b rest ledgers) (s.events b.expected)

/-- Of the events that are offered, some may come again, and the others are due. -/
structure Offered (a : Assignment) (s : Source) (filters : List EventFilter) (overlap : Nat)
    (start stop : LedgerNumber) (history : List (Moment a)) (sink : Sink) (origin : Origin)
    (again fresh : List RawEvent) : Prop where
  rest : origin.rest = again ++ fresh
  remembered : ∀ raw ∈ again, sink.recent.contains raw.id = true
  due : ∃ total done, a.Lists s filters overlap start stop origin total ∧ total = done ++ fresh ∧
    a.Upto s filters start history sink origin.ledger done

structure Halts (a : Assignment) (s : Source) (filters : List EventFilter)
    (start stop : LedgerNumber) (history : List (Moment a)) (ledger : LedgerNumber) : Prop where
  ge : start ≤ ledger
  le : ledger ≤ stop
  accepted : ∃ part, part <+: s.events ledger ∧
    accepted history = a.decoder.selected filters (s.below start ledger ++ part)

def Kept (a : Assignment) (s : Source) (filters : List EventFilter)
    (start stop : LedgerNumber) (history : List (Moment a)) : Prop :=
  ∃ done, done <+: s.between start stop ∧ accepted history = a.decoder.selected filters done

structure Finishes (a : Assignment) (s : Source) (filters : List EventFilter)
    (start stop : LedgerNumber) (history : List (Moment a)) : Prop where
  accepted : accepted history = a.decoder.selected filters (s.between start stop)
  decodes : ∀ raw ∈ s.between start stop, ∃ event, a.decoder.decode raw = .ok event

section

variable (a : Assignment) (s : Source) (filters : List EventFilter) (overlap : Nat)
  (start stop : LedgerNumber) (history : List (Moment a)) (sink : Sink)

def DrawnAfter : Wait → Prop
  | .atTip ledger _ => a.Upto s filters start history sink ledger []
  | .betweenPages poll => a.Pages s filters overlap start history sink poll
  | .betweenBatches next target => next ≤ target ∧ a.Upto s filters start history sink next []

def DrawnAt : Pending → Prop
  | .liveHealth (.choosing none) => False
  | .liveHealth (.choosing (some ledger)) => a.Upto s filters start history sink ledger []
  | .liveHealth (.following ledger) => a.Upto s filters start history sink ledger []
  | .archiveHealth next _ => a.Upto s filters start history sink next []
  | .ledgers next _ => a.Upto s filters start history sink next []
  | .events poll => a.Pages s filters overlap start history sink poll
  | .verdict raw event origin => wanted filters event = true ∧
      a.Offered s filters overlap start stop history sink (origin.withRest (raw :: origin.rest)) []
        (raw :: origin.rest)
  | .pause _ wait => DrawnAfter a s filters overlap start history sink wait

def Drawn : Point → Prop
  | .choosing none => False
  | .choosing (some ledger) =>
    ledger.toNat ≤ stop.toNat + 1 ∧ a.Upto s filters start history sink ledger []
  | .backfilling next target =>
    next.toNat ≤ target.toNat + 1 ∧ a.Upto s filters start history sink next []
  | .backfilled target => a.Upto s filters start history sink target.following []
  | .taking b ledgers => b.filters = filters ∧ a.Upto s filters start history sink b.expected [] ∧
      ∀ ledger ∈ ledgers, start ≤ ledger.sequence → ledger.sequence ≤ stop →
        a.decoder.ledgerEvents ledger = .ok (s.events ledger.sequence)
  | .taken b => a.Upto s filters start history sink b.expected []
  | .following ledger _ => a.Upto s filters start history sink ledger []
  | .requesting poll => a.Pages s filters overlap start history sink poll
  | .offering origin =>
    ∃ again fresh, a.Offered s filters overlap start stop history sink origin again fresh
  | .paged poll page => ∃ place, a.Asks s filters poll place ∧
      s.Gives overlap poll.ledger place a.config.pageSize.toNat page ∧
      a.Upto s filters start history sink poll.ledger
        (s.part poll.ledger 0 (place + a.config.pageSize.toNat))
  | .polled poll _ => a.Upto s filters start history sink poll.ledger.following []
  | .resting _ wait => DrawnAfter a s filters overlap start history sink wait
  | .asking pending => DrawnAt a s filters overlap start stop history sink pending
  | .ended (.ok ⟨.completed, _⟩) => a.Finishes s filters start stop history
  | .ended (.ok ⟨.stopped, ledger⟩) => a.Halts s filters start stop history ledger
  | .ended (.error _) => a.Kept s filters start stop history

end

theorem Asks.filters_eq {poll : Poll} {place : Nat} (h : a.Asks s filters poll place) :
    poll.request.filters = filters := by
  rcases h with ⟨hrequest, -⟩ | ⟨_, -, hrequest⟩
  · exact hrequest ▸ rfl
  · exact hrequest ▸ rfl

theorem Asks.continued {poll : Poll} {place : Nat} (h : a.Asks s filters poll place)
    (cursor : String) : poll.request.continued cursor =
      (EventsRequest.ofLedger poll.ledger filters a.config.pageSize).continued cursor := by
  rcases h with ⟨hrequest, -⟩ | ⟨_, -, hrequest⟩
  · exact hrequest ▸ rfl
  · exact hrequest ▸ rfl

section

variable {origin : Origin} {total again fresh rest : List RawEvent}

theorem Lists.prefix_events (h : a.Lists s filters overlap start stop origin total) :
    total <+: s.events origin.ledger := by
  cases h with
  | page => exact s.part_prefix ..
  | batch => exact List.prefix_rfl

theorem Lists.filters_eq (h : a.Lists s filters overlap start stop origin total) :
    origin.filters = filters := by
  cases h with
  | page ha => exact ha.filters_eq
  | batch hf => exact hf

theorem Lists.withRest (h : a.Lists s filters overlap start stop origin total)
    (rest : List RawEvent) : a.Lists s filters overlap start stop (origin.withRest rest) total := by
  cases h with
  | page ha hg => exact .page ha hg
  | batch hf hl => exact .batch hf hl

theorem Upto.kept (h : a.Upto s filters start history sink ledger part)
    (hpart : part <+: s.events ledger) (hle : ledger ≤ stop) :
    a.Kept s filters start stop history :=
  ⟨_, s.append_prefix_between h.ge hle hpart, h.took.accepted⟩

theorem Upto.halts (h : a.Upto s filters start history sink ledger part)
    (hpart : part <+: s.events ledger) (hle : ledger ≤ stop) :
    a.Halts s filters start stop history ledger :=
  ⟨h.ge, hle, part, hpart, h.took.accepted⟩

theorem Upto.finishes (h : a.Upto s filters start history sink stop.following [])
    (hr : a.Ranges start stop) : a.Finishes s filters start stop history := by
  have hall : s.below start stop.following ++ [] = s.between start stop := by
    rw [List.append_nil, below_following s hr.le hr.ne, ← between_eq s hr.le]
  exact ⟨hall ▸ h.took.accepted, hall ▸ h.took.decodes⟩

theorem Upto.finishes_of_lt (h : a.Upto s filters start history sink ledger [])
    (hr : a.Ranges start stop) (hlt : stop < ledger) (hle : ledger.toNat ≤ stop.toNat + 1) :
    a.Finishes s filters start stop history := by
  obtain rfl := LedgerNumber.eq_following_of_lt hlt hle
  exact h.finishes hr

theorem Finishes.kept (h : a.Finishes s filters start stop history) :
    a.Kept s filters start stop history :=
  ⟨_, List.prefix_rfl, h.accepted⟩

theorem Upto.kept_nil (h : a.Upto s filters start history sink ledger [])
    (hr : a.Ranges start stop) (hle : ledger.toNat ≤ stop.toNat + 1) :
    a.Kept s filters start stop history := by
  by_cases hlt : ledger ≤ stop
  · exact h.kept List.nil_prefix hlt
  · exact (h.finishes_of_lt hr (UInt32.not_le.mp hlt) hle).kept

theorem Offered.same
    (h : a.Offered s filters overlap start stop history sink origin again fresh)
    (hs : sink'.recent = sink.recent) :
    a.Offered s filters overlap start stop history sink' origin again fresh := by
  obtain ⟨total, done, hl, htotal, htook⟩ := h.due
  exact ⟨h.rest, hs ▸ h.remembered, total, done, hl, htotal, htook.same hs⟩

theorem Offered.ledger_le (hp : a.Offers origin) (hr : a.Ranges start stop) :
    origin.ledger ≤ stop :=
  hr.le_stop hp.within

theorem Offered.filters_eq
    (h : a.Offered s filters overlap start stop history sink origin again fresh) :
    origin.filters = filters := by
  obtain ⟨total, done, hl, -⟩ := h.due
  exact hl.filters_eq

theorem Offered.kept (h : a.Offered s filters overlap start stop history sink origin again fresh)
    (hle : origin.ledger ≤ stop) : a.Kept s filters start stop history := by
  obtain ⟨total, done, hl, rfl, htook⟩ := h.due
  exact htook.kept ((List.prefix_append ..).trans hl.prefix_events) hle

theorem Offered.halts (h : a.Offered s filters overlap start stop history sink origin again fresh)
    (hle : origin.ledger ≤ stop) : a.Halts s filters start stop history origin.ledger := by
  obtain ⟨total, done, hl, rfl, htook⟩ := h.due
  exact htook.halts ((List.prefix_append ..).trans hl.prefix_events) hle

theorem Offered.all_taken
    (h : a.Offered s filters overlap start stop history sink origin again fresh)
    (hrest : origin.rest = []) :
    ∃ total, a.Lists s filters overlap start stop origin total ∧
      a.Upto s filters start history sink origin.ledger total := by
  obtain ⟨total, done, hl, htotal, htook⟩ := h.due
  obtain ⟨-, rfl⟩ := List.append_eq_nil_iff.mp (h.rest.symm.trans hrest)
  rw [List.append_nil] at htotal
  exact ⟨total, hl, htotal ▸ htook⟩

theorem Offered.skip
    (h : a.Offered s filters overlap start stop history sink origin (raw :: again) fresh)
    (hrest : origin.rest = raw :: rest) (hs : sink'.recent = sink.recent) :
    a.Offered s filters overlap start stop history sink' (origin.withRest rest) again fresh := by
  obtain ⟨total, done, hl, htotal, htook⟩ := h.due
  refine ⟨?_, fun r hr => ?_, total, done, hl.withRest rest, htotal, ?_⟩
  · rw [origin.rest_withRest]
    exact (List.cons.inj (hrest.symm.trans h.rest)).2
  · rw [hs]
    exact h.remembered r (List.mem_cons_of_mem _ hr)
  · rw [origin.ledger_withRest]
    exact htook.same hs

theorem Upto.nodup (htook : a.Upto s filters start history sink origin.ledger done)
    (ho : s.Orderly a.config overlap start stop) (hle : origin.ledger ≤ stop)
    (hl : a.Lists s filters overlap start stop origin (done ++ raw :: fresh)) :
    ((s.below start origin.ledger ++ done ++ [raw]).map RawEvent.id).Nodup := by
  have hprefix : done ++ [raw] <+: s.events origin.ledger := by
    refine List.IsPrefix.trans ?_ hl.prefix_events
    exact ⟨fresh, by simp⟩
  rw [List.append_assoc]
  exact ho.distinct.sublist
    ((s.append_prefix_between htook.ge hle hprefix).sublist.map RawEvent.id)

theorem Offered.not_contains
    (h : a.Offered s filters overlap start stop history sink origin [] (raw :: fresh))
    (ho : s.Orderly a.config overlap start stop) (hle : origin.ledger ≤ stop) :
    sink.recent.contains raw.id = false := by
  obtain ⟨total, done, hl, rfl, htook⟩ := h.due
  exact htook.took.recent.not_contains (Sink.id_not_mem_of_nodup (htook.nodup ho hle hl))

theorem Offered.take
    (h : a.Offered s filters overlap start stop history sink origin [] (raw :: fresh))
    (ho : s.Orderly a.config overlap start stop) (hle : origin.ledger ≤ stop)
    (hrest : origin.rest = raw :: rest) (hd : a.decoder.decode raw = .ok event)
    (hs : sink'.recent = sink.recent.record raw.id) {history' : List (Moment a)}
    (ha : accepted history' = accepted history ++ if wanted filters event then [event] else []) :
    a.Offered s filters overlap start stop history' sink' (origin.withRest rest) [] fresh := by
  obtain ⟨total, done, hl, rfl, htook⟩ := h.due
  have htaken := htook.took.record (htook.nodup ho hle hl) hd hs ha
  refine ⟨?_, fun r hr => absurd hr List.not_mem_nil, _, done ++ [raw], hl.withRest rest, ?_, ?_⟩
  · rw [origin.rest_withRest]
    exact (List.cons.inj (hrest.symm.trans h.rest)).2
  · simp
  · rw [origin.ledger_withRest]
    exact ⟨htook.ge, by rwa [← List.append_assoc]⟩

theorem Offered.head_cases
    (h : a.Offered s filters overlap start stop history sink origin again fresh)
    (hrest : origin.rest = raw :: rest) :
    (∃ others, again = raw :: others) ∨ again = [] ∧ fresh = raw :: rest := by
  have hsplit := hrest.symm.trans h.rest
  cases again with
  | nil => exact .inr ⟨rfl, hsplit.symm⟩
  | cons r others => exact .inl ⟨others, by rw [(List.cons.inj hsplit).1]⟩

theorem Offered.due_of_not_contains
    (h : a.Offered s filters overlap start stop history sink origin again fresh)
    (hrest : origin.rest = raw :: rest) (hn : sink.recent.contains raw.id = false) :
    a.Offered s filters overlap start stop history sink origin [] (raw :: rest) := by
  rcases h.head_cases hrest with ⟨others, rfl⟩ | ⟨rfl, rfl⟩
  · rw [h.remembered raw (List.mem_cons_self ..)] at hn
    cases hn
  · exact h

theorem Pages.offered {poll : Poll} {page : EventsPage}
    (h : a.Pages s filters overlap start history sink poll)
    (ho : s.Orderly a.config overlap start stop) (hd : w.Draws s filters overlap start stop)
    (hle : poll.ledger ≤ stop) (hreply : w.reply history (.events poll.request) = .ok page)
    {m : Moment a} (hm : m.accepted? = none) (hs : sink'.recent = sink.recent) :
    ∃ again fresh, a.Offered s filters overlap start stop (m :: history) sink'
      (.page poll page (page.ofLedger poll.ledger)) again fresh := by
  obtain ⟨place, seen, hasks, hplace, hseen, htook⟩ := h
  have hg : s.Gives overlap poll.ledger place a.config.pageSize.toNat page := by
    rcases hasks with ⟨hrequest, rfl⟩ | ⟨cursor, hcursor, hrequest⟩
    · exact hd.opens history poll.ledger page htook.ge hle (hrequest ▸ hreply)
    · exact hd.continues history poll.ledger cursor place page htook.ge hle hcursor
        (hrequest ▸ hreply)
  have hlimit : seen ≤ place + a.config.pageSize.toNat := by
    have := ho.overlap_lt
    omega
  have hsplit := s.part_append poll.ledger (Nat.zero_le place) hplace
  refine ⟨s.part poll.ledger place seen,
    s.part poll.ledger seen (place + a.config.pageSize.toNat), ?_, fun raw hraw => ?_,
    _, s.part poll.ledger 0 seen, .page hasks hg, ?_, htook.quiet hm hs⟩
  · have hofLedger := hg.ofLedger (ho.sorted poll.ledger htook.ge hle)
    exact hofLedger.trans (s.part_append poll.ledger hplace hlimit).symm
  · -- what is sent again was recorded last, and there is room for it
    rw [hs]
    have htaken := htook.took
    rw [← hsplit, ← List.append_assoc] at htaken
    refine htaken.recent.contains_latest (Nat.le_trans ?_ htaken.capacity) raw hraw
    have := ho.overlap_le
    have := s.length_part_le poll.ledger place seen
    omega
  · exact (s.part_append poll.ledger (Nat.zero_le _) hlimit).symm

end

section

variable {signals : Signals} {pending : Pending} {point point' : Point}

theorem Halts.kept (h : a.Halts s filters start stop history ledger) :
    a.Kept s filters start stop history := by
  obtain ⟨part, hpart, haccepted⟩ := h.accepted
  exact ⟨_, s.append_prefix_between h.ge h.le hpart, haccepted⟩

theorem Kept.quiet (h : a.Kept s filters start stop history) {m : Moment a}
    (hm : m.accepted? = none) : a.Kept s filters start stop (m :: history) := by
  obtain ⟨done, hdone, haccepted⟩ := h
  exact ⟨done, hdone, (accepted_cons_of_none hm).trans haccepted⟩

theorem Halts.quiet (h : a.Halts s filters start stop history ledger) {m : Moment a}
    (hm : m.accepted? = none) : a.Halts s filters start stop (m :: history) ledger := by
  obtain ⟨part, hpart, haccepted⟩ := h.accepted
  exact ⟨h.ge, h.le, part, hpart, (accepted_cons_of_none hm).trans haccepted⟩

theorem Pages.halts {poll : Poll} (h : a.Pages s filters overlap start history sink poll)
    (hle : poll.ledger ≤ stop) : a.Halts s filters start stop history poll.ledger := by
  obtain ⟨place, seen, -, -, -, htook⟩ := h
  exact htook.halts (s.part_prefix ..) hle

theorem Pages.quiet {poll : Poll} (h : a.Pages s filters overlap start history sink poll)
    {m : Moment a} (hm : m.accepted? = none) (hs : sink'.recent = sink.recent) :
    a.Pages s filters overlap start (m :: history) sink' poll := by
  obtain ⟨place, seen, hasks, hplace, hseen, htook⟩ := h
  exact ⟨place, seen, hasks, hplace, hseen, htook.quiet hm hs⟩

theorem DrawnAfter.halts {wait : Wait} (h : a.DrawnAfter s filters overlap start history sink wait)
    (hp : a.PlacedAfter wait) (hr : a.Ranges start stop) :
    a.Halts s filters start stop history wait.ledger := by
  cases wait with
  | atTip => exact Upto.halts h List.nil_prefix (hr.le_stop hp.within)
  | betweenPages => exact Pages.halts h (hr.le_stop hp.within)
  | betweenBatches =>
    have hle := hr.le_stop hp.1.within
    exact Upto.halts h.2 List.nil_prefix (UInt32.le_trans h.1 hle)

theorem DrawnAfter.quiet {wait : Wait} (h : a.DrawnAfter s filters overlap start history sink wait)
    {m : Moment a} (hm : m.accepted? = none) :
    a.DrawnAfter s filters overlap start (m :: history) sink wait := by
  cases wait with
  | atTip => exact Upto.quiet h hm rfl
  | betweenPages => exact Pages.quiet h hm rfl
  | betweenBatches => exact ⟨h.1, h.2.quiet hm rfl⟩

theorem DrawnAt.kept (h : a.DrawnAt s filters overlap start stop history sink pending)
    (hp : a.PlacedAt pending) (hr : a.Ranges start stop) :
    a.Kept s filters start stop history := by
  cases pending with
  | liveHealth use =>
    cases use with
    | choosing first =>
      cases first with
      | none => exact h.elim
      | some ledger =>
        exact Upto.kept h List.nil_prefix
          (hr.le_stop (hp.2 ledger rfl))
    | following =>
      exact Upto.kept h List.nil_prefix (hr.le_stop hp.within)
  | archiveHealth next target =>
    obtain ⟨rfl, -⟩ := hr.of_archive hp
    exact Upto.kept h List.nil_prefix hr.le
  | ledgers next target =>
    have hle := hr.le_stop hp.1.within
    exact Upto.kept h List.nil_prefix (UInt32.le_trans hp.2 hle)
  | events =>
    exact (Pages.halts h (hr.le_stop hp.within)).kept
  | verdict => exact h.2.kept (Offered.ledger_le hp.2 hr)
  | pause => exact (DrawnAfter.halts h hp hr).kept

theorem accepted?_of_failure? {reply : (pending.question a).Reply} {error : IngestError}
    (h : a.failure? sink pending reply = some error) :
    (⟨pending, signals, reply⟩ : Moment a).accepted? = none := by
  cases pending with
  | verdict =>
    cases reply with
    | accepted => cases h
    | failed | panicked => rfl
  | liveHealth | archiveHealth | ledgers | events | pause => rfl

theorem Hears.drawn (hr : a.Ranges start stop) (ho : s.Orderly a.config overlap start stop)
    (hd : w.Draws s filters overlap start stop) {reply : (pending.question a).Reply}
    (h : a.Hears signals sink pending reply sink' point) (hp : a.PlacedAt pending)
    (hsignals : signals.filters = filters) (hreply : w.reply history (pending.question a) = reply)
    (hdrawn : a.DrawnAt s filters overlap start stop history sink pending) :
    a.Drawn s filters overlap start stop (⟨pending, signals, reply⟩ :: history) sink' point := by
  cases h with
  | failed h => exact (hdrawn.kept hp hr).quiet (accepted?_of_failure? h)
  | tipPast => exact hdrawn.elim
  | @stopped first =>
    cases first with
    | none => exact hdrawn.elim
    | some ledger =>
      have hle := hr.le_stop (hp.2 ledger rfl)
      exact (Upto.halts hdrawn List.nil_prefix hle).quiet rfl
  | ahead | refused | archiveAhead => exact (hdrawn.kept hp hr).quiet rfl
  | @within first health ledger ha =>
    cases first with
    | none => exact hdrawn.elim
    | some first =>
      obtain rfl := ha.eq
      exact Upto.quiet hdrawn rfl rfl
  | @below first health ledger ha hlt =>
    cases first with
    | none => exact hdrawn.elim
    | some first =>
      obtain ⟨-, hle⟩ := targets_targetBelow hp.1.kind (ha.pastStop hp.2) hlt
      obtain rfl := ha.eq
      exact ⟨Nat.le_succ_of_le (UInt32.le_iff_toNat_le.mp hle), Upto.quiet hdrawn rfl rfl⟩
  | unclosed => exact Upto.quiet hdrawn rfl rfl
  | @closed ledger =>
    refine ⟨0, 0, .inl ⟨by rw [hsignals], rfl⟩, Nat.le_refl 0, Nat.zero_le _, ?_⟩
    exact Upto.quiet hdrawn rfl rfl
  | @archiveReady next target =>
    obtain ⟨rfl, rfl⟩ := hr.of_archive hp
    exact ⟨Nat.le_succ_of_le (UInt32.le_iff_toNat_le.mp hr.le), Upto.quiet hdrawn rfl rfl⟩
  | @ledgers next target page =>
    refine ⟨hsignals, Upto.quiet hdrawn rfl rfl, ?_⟩
    exact hd.ledgers history _ page hreply
  | @events poll page =>
    exact Pages.offered hdrawn ho hd (hr.le_stop hp.within) hreply rfl
      rfl
  | @accepted raw event origin =>
    obtain ⟨hwanted, hoffered⟩ := hdrawn
    have haccepted :
        LedgerFeed.accepted (⟨.verdict raw event origin, signals, .accepted⟩ :: history) =
          LedgerFeed.accepted history ++ if wanted filters event then [event] else [] := by
      rw [hwanted]
      exact accepted_cons ..
    have htaken := hoffered.take ho (Offered.ledger_le hp.2 hr) (origin.rest_withRest _) hp.1
      (Sink.recent_deliver sink raw) haccepted
    rw [origin.withRest_withRest, origin.withRest_rest] at htaken
    exact ⟨[], origin.rest, htaken⟩
  | rested => exact DrawnAfter.quiet hdrawn rfl

theorem Upto.polled {poll : Poll} {page : EventsPage} {place : Nat}
    (h : a.Upto s filters start history sink poll.ledger
      (s.part poll.ledger 0 (place + a.config.pageSize.toNat)))
    (hr : a.Ranges start stop) (ho : s.Orderly a.config overlap start stop)
    (hg : s.Gives overlap poll.ledger place a.config.pageSize.toNat page)
    (hle : poll.ledger ≤ stop)
    (hend : page.runsPast poll.ledger = true ∨ page.nextCursor? = none) :
    a.Upto s filters start history sink poll.ledger.following [] := by
  have hne : poll.ledger ≠ .last := fun heq => hr.last_not_le (heq ▸ hle)
  have hlimit : 0 < a.config.pageSize.toNat := Nat.zero_lt_of_lt ho.overlap_lt
  have hall : s.part poll.ledger 0 (place + a.config.pageSize.toNat) = s.events poll.ledger := by
    rcases hend with hpast | hnext
    · exact hg.part_eq_events_of_runsPast (ho.sorted poll.ledger h.ge hle) hpast
    · exact hg.part_eq_events_of_nextCursor? hlimit hnext
  rw [hall] at h
  exact h.following hne

theorem Drawn.stopped {point : Point}
    (h : a.Drawn s filters overlap start stop history sink point) (hp : a.Placed point)
    (hr : a.Ranges start stop) (hc : a.checkpoint? point = some ledger) :
    a.Halts s filters start stop history ledger := by
  cases checkpoint_cases hc with
  | backfilling hle =>
    exact h.2.halts List.nil_prefix (UInt32.le_trans hle (hr.le_stop hp.1.within))
  | following => exact Upto.halts h List.nil_prefix (hr.le_stop hp.within)
  | requesting => exact Pages.halts h (hr.le_stop hp.within)
  | offering =>
    obtain ⟨again, fresh, h⟩ := h
    exact h.halts (Offered.ledger_le hp hr)
  | resting => exact DrawnAfter.halts h hp hr

/-! What the longer steps do. -/

theorem Drawn.read {b : Batch} {ledger : RawLedger} {ledgers : List RawLedger}
    {raws : List RawEvent}
    (h : a.Drawn s filters overlap start stop history sink (.taking b (ledger :: ledgers)))
    (hexpected : ledger.sequence = b.expected) (hle : b.expected ≤ stop)
    (hread : a.decoder.ledgerEvents ledger = .ok raws) :
    a.Drawn s filters overlap start stop history sink (.offering (.batch b raws ledgers)) := by
  obtain ⟨hfilters, htook, hledgers⟩ := h
  have hevents := hledgers ledger (List.mem_cons_self ..) (hexpected ▸ htook.ge) (hexpected ▸ hle)
  rw [hread, hexpected] at hevents
  obtain rfl := Except.ok.inj hevents
  exact ⟨[], s.events b.expected, rfl, fun r hr => absurd hr List.not_mem_nil, _, [],
    .batch hfilters fun l hl => hledgers l (List.mem_cons_of_mem _ hl), rfl, htook⟩

/-- An event that is due has a new id, so a duplicate was sent again. -/
theorem Drawn.duplicate {origin : Origin} {rest : List RawEvent}
    (h : a.Drawn s filters overlap start stop history sink (.offering origin))
    (ho : s.Orderly a.config overlap start stop) (hle : origin.ledger ≤ stop)
    (hrest : origin.rest = raw :: rest)
    (hj : sink.judge a.decoder origin.filters raw = .duplicate) :
    a.Drawn s filters overlap start stop history (sink.note raw .duplicate).skipDuplicate
      (.offering (origin.withRest rest)) := by
  obtain ⟨again, fresh, hoffered⟩ := h
  rcases hoffered.head_cases hrest with ⟨others, rfl⟩ | ⟨rfl, rfl⟩
  · exact ⟨others, fresh, hoffered.skip hrest rfl⟩
  · have hknown := Sink.judge_eq_duplicate_iff.mp hj
    rw [hoffered.not_contains ho hle] at hknown
    cases hknown

theorem Drawn.filtered {origin : Origin} {rest : List RawEvent}
    (h : a.Drawn s filters overlap start stop history sink (.offering origin))
    (ho : s.Orderly a.config overlap start stop) (hle : origin.ledger ≤ stop)
    (hrest : origin.rest = raw :: rest)
    (hj : sink.judge a.decoder origin.filters raw = .filtered) :
    a.Drawn s filters overlap start stop history ((sink.note raw .filtered).skipFiltered raw)
      (.offering (origin.withRest rest)) := by
  obtain ⟨again, fresh, hoffered⟩ := h
  obtain ⟨hnew, event, hdecode, hunwanted⟩ := Sink.judge_eq_filtered_iff.mp hj
  have hdue := hoffered.due_of_not_contains hrest hnew
  refine ⟨[], _, hdue.take ho hle hrest hdecode rfl ?_⟩
  rw [← hoffered.filters_eq, hunwanted]
  exact (List.append_nil _).symm

theorem Drawn.nextPage {poll : Poll} {page : EventsPage} {cursor : String}
    (h : a.Drawn s filters overlap start stop history sink (.paged poll page))
    (hcursor : page.nextCursor? = some cursor) :
    a.Pages s filters overlap start history sink
      { poll with request := poll.request.continued cursor } := by
  obtain ⟨place, hasks, hg, htook⟩ := h
  obtain ⟨hgiven, hevents⟩ := EventsPage.cursor_of_nextCursor? _ hcursor
  obtain ⟨next, hnext, -, hle, hge⟩ := hg.more _ hgiven hevents
  rw [hg.part_eq] at htook
  exact ⟨next, _, .inr ⟨_, hnext, hasks.continued _⟩, hle, hge, htook⟩

theorem Drawn.endPolls {poll : Poll} {reported : LedgerNumber}
    (h : a.Drawn s filters overlap start stop history sink (.polled poll reported))
    (hr : a.Ranges start stop) (hle : poll.ledger ≤ stop)
    (hpast : a.pastStop poll.ledger.following = true) :
    a.Finishes s filters start stop history := by
  have hnext := LedgerNumber.toNat_following poll.ledger
  have hle := UInt32.le_iff_toNat_le.mp hle
  exact Upto.finishes_of_lt h hr (hr.stop_lt hpast) (by omega)

theorem Moves.drawn (hr : a.Ranges start stop) (ho : s.Orderly a.config overlap start stop)
    (h : a.Moves signals sink point sink' point') (hp : a.Placed point)
    (hsignals : signals.filters = filters)
    (hdrawn : a.Drawn s filters overlap start stop history sink point) :
    a.Drawn s filters overlap start stop history sink' point' := by
  have hbatch {b : Batch} (h : a.Upto s filters start history sink b.expected [])
      (hb : a.Batches b) : a.Kept s filters start stop history := by
    have hle := UInt32.le_iff_toNat_le.mp (hr.le_stop hb.within)
    exact h.kept_nil hr (Nat.le_trans hb.le (Nat.succ_le_succ hle))
  cases h with
  | stop hs h => exact hdrawn.stopped hp hr h
  | choosePast h =>
    exact hdrawn.2.finishes_of_lt hr (hr.stop_lt h) hdrawn.1
  | @askHealth first h =>
    cases first with
    | none => exact hdrawn.elim
    | some ledger => exact hdrawn.2
  | reachTarget h =>
    obtain rfl := LedgerNumber.eq_following_of_lt h hdrawn.1
    exact hdrawn.2
  | askBatch => exact hdrawn.2
  | endArchive h =>
    obtain rfl := hr.stop_eq (hp.whole h)
    exact Upto.finishes hdrawn hr
  | @chooseAgain target =>
    have hle := UInt32.le_iff_toNat_le.mp (hr.le_stop hp.within)
    have hnext := LedgerNumber.toNat_following target
    exact ⟨by omega, hdrawn⟩
  | skipLedger => exact ⟨hdrawn.1, hdrawn.2.1, fun l hl => hdrawn.2.2 l (List.mem_cons_of_mem _ hl)⟩
  | endLedgers => exact hdrawn.2.1
  | gap => exact hbatch hdrawn.2.1 hp
  | unreadable => exact hbatch hdrawn.2.1 hp
  | read h hle hread => exact hdrawn.read h (UInt32.le_trans hle (hr.le_stop hp.within)) hread
  | duplicate hs h hj => exact hdrawn.duplicate ho (Offered.ledger_le hp hr) h hj
  | filtered hs h hj => exact hdrawn.filtered ho (Offered.ledger_le hp hr) h hj
  | undecodable =>
    obtain ⟨again, fresh, hoffered⟩ := hdrawn
    exact hoffered.kept (Offered.ledger_le hp hr)
  | @askHandler origin raw rest event hs h hj =>
    obtain ⟨again, fresh, hoffered⟩ := hdrawn
    obtain ⟨hnew, -, hwanted⟩ := Sink.judge_eq_wanted_iff.mp hj
    refine ⟨hoffered.filters_eq ▸ hwanted, ?_⟩
    rw [origin.withRest_withRest, origin.rest_withRest, ← h, origin.withRest_rest, h]
    exact (hoffered.due_of_not_contains h hnew).same rfl
  | endPage =>
    obtain ⟨again, fresh, hoffered⟩ := hdrawn
    obtain ⟨total, hl, htook⟩ := hoffered.all_taken rfl
    cases hl with
    | page hasks hg => exact ⟨_, hasks, hg, htook⟩
  | endLedger h =>
    obtain ⟨again, fresh, hoffered⟩ := hdrawn
    obtain ⟨total, hl, htook⟩ := hoffered.all_taken rfl
    cases hl with
    | batch hf hl =>
      refine ⟨hf, ?_, hl⟩
      exact (LedgerNumber.following_eq h).symm ▸ Upto.following htook h
  | endAtLast h =>
    -- the range ends below the last ledger that can be numbered
    have hle := UInt32.le_trans hp.2.1 (hr.le_stop hp.1.within)
    exact absurd (h ▸ hle) hr.last_not_le
  | noProgress h => exact hbatch hdrawn hp
  | @endBatches b h hlt =>
    have htook : a.Upto s filters start history sink b.expected [] := hdrawn
    rw [LedgerNumber.eq_following_of_lt hlt hp.le] at htook
    exact htook.same rfl
  | nextBatch h hle => exact ⟨hle, Upto.same hdrawn rfl⟩
  | followPast h =>
    rw [hp.within] at h
    cases h
  | askTip => exact hdrawn
  | beginPoll =>
    exact ⟨0, 0, .inl ⟨by rw [hsignals], rfl⟩, Nat.le_refl 0, Nat.zero_le _, Upto.same hdrawn rfl⟩
  | askPage => exact hdrawn
  | hitStop h hlast =>
    obtain ⟨place, -, hg, htook⟩ := hdrawn
    have hdone := htook.polled hr ho hg (hr.le_stop hp.within) (.inl h)
    obtain rfl := hr.stop_eq hlast
    exact hdone.finishes hr
  | drained h =>
    obtain ⟨place, -, hg, htook⟩ := hdrawn
    exact htook.polled hr ho hg (hr.le_stop hp.within) (h.imp And.left And.right)
  | nextPage h hc => exact hdrawn.nextPage hc
  | endPolls h => exact hdrawn.endPolls hr (hr.le_stop hp.within) h
  | restAtTip => exact Upto.same hdrawn rfl
  | followOn => exact Upto.same hdrawn rfl
  | @proceed wait =>
    cases wait with
    | atTip => exact hdrawn
    | betweenPages => exact hdrawn
    | betweenBatches =>
      exact ⟨Nat.le_succ_of_le (UInt32.le_iff_toNat_le.mp hdrawn.1), hdrawn.2⟩
  | pause => exact hdrawn

theorem begin_drawn (hr : a.Ranges start stop) :
    a.Drawn s filters overlap start stop [] a.begin.sink a.begin.point := by
  have hupto (feed : Feed) :
      a.Upto s filters start [] (.ofCapacity a.config.dedupCapacity feed) start [] := by
    refine ⟨UInt32.le_refl start, ?_⟩
    rw [s.below_self]
    refine ⟨rfl, RecentIds.holds_ofCapacity _, Nat.le_max_left .., fun raw hraw => ?_⟩
    cases hraw
  rcases begin_cases a with ⟨next, target, hrequest, hbegin⟩ |
    ⟨-, ⟨-, hbegin⟩ | ⟨ledger, hledger, hpast, -⟩⟩
  · rw [hbegin]
    obtain ⟨rfl, -⟩ := hr.of_archive hrequest
    exact hupto .backfill
  · rw [hbegin, hr.starts]
    exact hupto .live
  · obtain rfl := Option.some.inj (hr.starts.symm.trans hledger)
    have hwithin : a.pastStop start = false := by
      simpa [pastStop, hr.stops] using hr.le
    rw [hwithin] at hpast
    cases hpast

theorem Drawn.kept {p : Progress}
    (h : a.Drawn s filters overlap start stop history p.sink p.point) (hp : a.Placed p.point)
    (hr : a.Ranges start stop) : a.Kept s filters start stop history := by
  cases p with
  | waiting => exact DrawnAt.kept h hp hr
  | ended sink result =>
    rcases result with error | ⟨⟨⟩, resume⟩
    · exact h
    · exact Finishes.kept h
    · exact Halts.kept h

/-- Wherever a run gets, what was accepted is what it has taken of the source. -/
theorem Reaches.drawn (hr : a.Ranges start stop) (ho : s.Orderly a.config overlap start stop)
    (hd : w.Draws s filters overlap start stop) {p : Progress} (h : a.Reaches history p)
    (hm : w.Makes history) :
    a.Placed p.point ∧ a.Drawn s filters overlap start stop history p.sink p.point := by
  have hcarried := h.carries
    (I := fun history sink point =>
      w.Makes history → a.Drawn s filters overlap start stop history sink point)
    (fun _ => begin_drawn hr) ?_ ?_
  · exact ⟨hcarried.1, hcarried.2 hm⟩
  · rintro history sink pending reply sink' point signals hp - hdrawn h ⟨hmoment, hm⟩
    simp only [World.moment, Moment.mk.injEq, heq_eq_eq, true_and] at hmoment
    obtain ⟨rfl, rfl⟩ := hmoment
    exact h.drawn hr ho hd hp (hd.keeps history) rfl (hdrawn hm)
  · rintro history m sink point sink' point' hp - hdrawn h ⟨hmoment, hm⟩
    have hsignals : m.signals.filters = filters := by
      rw [hmoment]
      exact hd.keeps history
    exact h.drawn hr ho hp hsignals (hdrawn ⟨hmoment, hm⟩)

end

end Assignment
end LedgerFeed
