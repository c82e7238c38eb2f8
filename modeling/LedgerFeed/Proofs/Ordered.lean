import LedgerFeed.Proofs.Offering
import LedgerFeed.Proofs.Placed

/-! Events reach the handler ledger by ledger, within the range of the run, and in the order in
which a node returned them. Nothing is assumed of the nodes: their pages may mix ledgers, repeat
themselves and ignore bounds. -/

namespace LedgerFeed

variable {a : Assignment} {history : List (Moment a)} {ledger ledger' first : LedgerNumber}
  {due due' : List RawEvent}

def Moment.returned : Moment a → List RawEvent
  | ⟨.events _, _, .ok page⟩ => page.events
  | ⟨.ledgers _ _, _, .ok page⟩ => page.ledgers.flatMap RawLedger.events
  | _ => []

def returned (history : List (Moment a)) : List RawEvent :=
  history.reverse.flatMap Moment.returned

theorem returned_cons (m : Moment a) (earlier : List (Moment a)) :
    returned (m :: earlier) = returned earlier ++ m.returned := by
  simp [returned]

namespace Decoder

variable {decoder : Decoder} {filters : List EventFilter}

theorem selected_sublist {raws raws' : List RawEvent} (h : raws.Sublist raws') :
    (decoder.selected filters raws).Sublist (decoder.selected filters raws') :=
  h.filterMap _

end Decoder

namespace Origin

def later : Origin → List RawEvent
  | page _ _ _ => []
  | batch _ _ ledgers => ledgers.flatMap RawLedger.events

@[simp] theorem later_withRest (origin : Origin) (raws : List RawEvent) :
    (origin.withRest raws).later = origin.later := by
  cases origin <;> rfl

end Origin

namespace Assignment

structure InRange (a : Assignment) (history : List (Moment a)) (ledger : LedgerNumber) : Prop where
  ge : ∃ first, a.firstLedger? history = some first ∧ first ≤ ledger
  le : ∀ stop, a.request.stop? = some stop → ledger ≤ stop

/-- What reached the handler came ledger by ledger, in range, and as the nodes returned it; and some
events may still reach it. -/
structure Delivered (a : Assignment) (history : List (Moment a)) (due : List RawEvent) : Prop where
  sorted : (received history).Pairwise fun e e' => e.ledger ≤ e'.ledger
  inRange : ∀ event ∈ received history, a.InRange history event.ledger
  returned : (received history ++ a.decoder.selected [] due).Sublist
    (a.decoder.selected [] (returned history))

structure Poised (a : Assignment) (history : List (Moment a)) (ledger : LedgerNumber)
    (due : List RawEvent) : Prop extends a.Delivered history due where
  reached : ∀ event ∈ received history, event.ledger ≤ ledger
  first : ∃ first, a.firstLedger? history = some first ∧ first ≤ ledger

theorem InRange.cons (h : a.InRange history ledger) (m : Moment a) :
    a.InRange (m :: history) ledger := by
  obtain ⟨first, hfirst, hle⟩ := h.ge
  exact ⟨⟨first, firstLedger?_cons hfirst m, hle⟩, h.le⟩

theorem delivered_nil (a : Assignment) : a.Delivered [] [] :=
  ⟨.nil, fun _ h => absurd h List.not_mem_nil, .slnil⟩

theorem Delivered.mono (h : a.Delivered history due) (hdue : due'.Sublist due) :
    a.Delivered history due' :=
  ⟨h.sorted, h.inRange,
    ((Decoder.selected_sublist hdue).append_left _).trans h.returned⟩

theorem Delivered.hear (h : a.Delivered history due) (m : Moment a)
    (hm : m.question.event? = none) : a.Delivered (m :: history) (due ++ m.returned) := by
  have hreceived : received (m :: history) = received history := by
    rw [received_cons, hm]
    exact List.append_nil _
  refine ⟨hreceived ▸ h.sorted, fun event hevent => ?_, ?_⟩
  · exact (h.inRange event (hreceived ▸ hevent)).cons m
  · rw [hreceived, returned_cons, Decoder.selected_append, Decoder.selected_append,
      ← List.append_assoc]
    exact h.returned.append_right _

theorem Poised.mono (h : a.Poised history ledger due) (hle : ledger ≤ ledger')
    (hdue : due'.Sublist due) : a.Poised history ledger' due' := by
  obtain ⟨first, hfirst, hfle⟩ := h.first
  exact ⟨h.toDelivered.mono hdue, fun event hevent => UInt32.le_trans (h.reached event hevent) hle,
    first, hfirst, UInt32.le_trans hfle hle⟩

theorem Poised.rest (h : a.Poised history ledger due) (hdue : due'.Sublist due) :
    a.Poised history ledger due' :=
  h.mono (UInt32.le_refl _) hdue

theorem Poised.hear (h : a.Poised history ledger due) (m : Moment a)
    (hm : m.question.event? = none) : a.Poised (m :: history) ledger (due ++ m.returned) := by
  obtain ⟨first, hfirst, hle⟩ := h.first
  refine ⟨h.toDelivered.hear m hm, fun event hevent => h.reached event ?_, first,
    firstLedger?_cons hfirst m, hle⟩
  rw [received_cons, hm] at hevent
  simpa using hevent

theorem Poised.hand {raw : RawEvent} {event : ContractEvent}
    (h : a.Poised history ledger (raw :: due)) (hd : a.decoder.decode raw = .ok event)
    (hevent : event.ledger = ledger) (hpast : a.pastStop ledger = false) {m : Moment a}
    (hm : m.question.event? = some event) (hr : m.returned = []) :
    a.Poised (m :: history) ledger due := by
  obtain ⟨first, hfirst, hle⟩ := h.first
  have hreceived : received (m :: history) = received history ++ [event] := by
    rw [received_cons, hm]
    rfl
  have hstop := pastStop_eq_false_iff.mp hpast
  refine ⟨⟨?_, ?_, ?_⟩, ?_, first, firstLedger?_cons hfirst m, hle⟩
  · rw [hreceived, List.pairwise_append]
    refine ⟨h.sorted, List.pairwise_singleton .., fun e he e' he' => ?_⟩
    obtain rfl := List.mem_singleton.mp he'
    exact hevent ▸ h.reached e he
  · rw [hreceived]
    intro e he
    rcases List.mem_append.mp he with he | he
    · exact (h.inRange e he).cons m
    · obtain rfl := List.mem_singleton.mp he
      rw [hevent]
      exact ⟨⟨first, firstLedger?_cons hfirst m, hle⟩, hstop⟩
  · have hreturned := h.returned
    rw [Decoder.selected_cons_of_wanted hd (wanted_nil event)] at hreturned
    rw [hreceived, returned_cons, hr, List.append_nil, List.append_assoc]
    exact hreturned
  · rw [hreceived]
    intro e he
    rcases List.mem_append.mp he with he | he
    · exact h.reached e he
    · obtain rfl := List.mem_singleton.mp he
      exact UInt32.le_of_eq hevent

def Opens (a : Assignment) (history : List (Moment a)) : Option LedgerNumber → Prop
  | none => history = []
  | some ledger => a.Poised history ledger []

def OrderedAt (a : Assignment) (history : List (Moment a)) : Pending → Prop
  | .liveHealth (.choosing start) => a.Opens history start
  | .liveHealth (.following ledger) => a.Poised history ledger []
  | .archiveHealth start _ => a.Poised history start []
  | .ledgers next _ => a.Poised history next []
  | .events poll => a.Poised history poll.ledger []
  | .verdict raw _ origin => a.Poised history origin.ledger (raw :: (origin.rest ++ origin.later))
  | .pause _ wait => a.Poised history wait.ledger []

def Ordered (a : Assignment) (history : List (Moment a)) : Point → Prop
  | .choosing start => a.Opens history start
  | .backfilling next _ => a.Poised history next []
  | .backfilled target => a.Delivered history [] ∧
      (a.request.kind ≠ .archive → a.Poised history target.following [])
  | .taking b ledgers => a.Poised history b.expected (ledgers.flatMap RawLedger.events)
  | .taken b => a.Poised history b.expected []
  | .following ledger _ => a.Poised history ledger []
  | .requesting poll => a.Poised history poll.ledger []
  | .offering origin => a.Poised history origin.ledger (origin.rest ++ origin.later)
  | .paged poll _ => a.Poised history poll.ledger []
  | .polled poll _ => a.Poised history poll.ledger []
  | .resting _ wait => a.Poised history wait.ledger []
  | .asking pending => a.OrderedAt history pending
  | .ended _ => a.Delivered history []

theorem Poised.delivered (h : a.Poised history ledger due) : a.Delivered history [] :=
  h.toDelivered.mono (List.nil_sublist _)

theorem Poised.offered {origin : Origin} {raw : RawEvent} {rest : List RawEvent}
    (h : a.Poised history origin.ledger (origin.rest ++ origin.later))
    (hrest : origin.rest = raw :: rest) : a.Ordered history (.offering (origin.withRest rest)) := by
  simp only [Ordered, Origin.ledger_withRest, Origin.rest_withRest, Origin.later_withRest]
  refine h.rest ?_
  rw [hrest]
  exact List.sublist_cons_self ..

theorem Opens.delivered {start : Option LedgerNumber} (h : a.Opens history start) :
    a.Delivered history [] := by
  cases start with
  | none =>
    obtain rfl : history = [] := h
    exact delivered_nil a
  | some => exact Poised.delivered h

theorem OrderedAt.delivered {pending : Pending} (h : a.OrderedAt history pending) :
    a.Delivered history [] := by
  cases pending with
  | liveHealth use =>
    cases use with
    | choosing => exact Opens.delivered h
    | following => exact Poised.delivered h
  | archiveHealth | ledgers | events | verdict | pause => exact Poised.delivered h

theorem Ordered.delivered {point : Point} (h : a.Ordered history point) :
    a.Delivered history [] := by
  cases point with
  | choosing => exact Opens.delivered h
  | asking => exact OrderedAt.delivered h
  | backfilled => exact h.1
  | ended => exact h
  | backfilling | taking | taken | following | requesting | offering | paged | polled | resting =>
    exact Poised.delivered h

section

variable {signals : Signals} {sink sink' : Sink} {pending : Pending} {point point' : Point}
  (hkeeps : ∀ raw event, a.decoder.decode raw = .ok event → event.ledger = raw.ledger)
  (hown : a.decoder.ledgerEvents = RawLedger.ownEvents)

include hkeeps hown in
theorem PlacedAt.event_ledger {raw : RawEvent} {event : ContractEvent} {origin : Origin}
    (h : a.PlacedAt (.verdict raw event origin)) : event.ledger = origin.ledger := by
  have hraw : raw ∈ (origin.withRest (raw :: origin.rest)).rest := by simp
  rw [hkeeps raw event h.1, h.2.ledger_eq hown raw hraw, origin.ledger_withRest]

include hkeeps hown in
theorem OrderedAt.handed {raw : RawEvent} {event : ContractEvent} {origin : Origin}
    (h : a.OrderedAt history (.verdict raw event origin))
    (hp : a.PlacedAt (.verdict raw event origin)) (signals : Signals) (verdict : Verdict) :
    a.Poised (⟨.verdict raw event origin, signals, verdict⟩ :: history) origin.ledger
      (origin.rest ++ origin.later) := by
  have hpast : a.pastStop origin.ledger = false := by
    simpa using hp.2.within
  exact Poised.hand h hp.1 (hp.event_ledger hkeeps hown) hpast rfl rfl

include hkeeps hown in
theorem OrderedAt.heard (h : a.OrderedAt history pending) (hp : a.PlacedAt pending)
    (signals : Signals) (reply : (pending.question a).Reply) :
    a.Delivered (⟨pending, signals, reply⟩ :: history) [] := by
  have hquiet (hm : (pending.question a).event? = none) :
      a.Delivered (⟨pending, signals, reply⟩ :: history) [] :=
    (h.delivered.hear ⟨pending, signals, reply⟩ hm).mono (List.nil_sublist _)
  cases pending with
  | verdict => exact (h.handed hkeeps hown hp signals reply).delivered
  | liveHealth | archiveHealth | ledgers | events | pause => exact hquiet rfl

theorem Opens.admits {start : Option LedgerNumber} {health : Health}
    (h : a.Opens history start) (hp : a.Chooses start)
    (ha : a.Admits signals start health first) :
    a.Poised (⟨.liveHealth (.choosing start), signals, .ok health⟩ :: history) first [] := by
  obtain rfl := ha.eq
  cases start with
  | some ledger => exact Poised.hear h ⟨.liveHealth (.choosing (some ledger)), _, _⟩ rfl
  | none =>
    obtain rfl : history = [] := h
    let m : Moment a := ⟨.liveHealth (.choosing none), signals, .ok health⟩
    refine ⟨(delivered_nil a).hear m rfl, fun _ h => absurd h List.not_mem_nil,
      health.latest, ?_, UInt32.le_refl _⟩
    rw [firstLedger?, hp.fresh rfl]
    rfl

include hkeeps hown in
theorem Hears.ordered {reply : (pending.question a).Reply}
    (h : a.Hears signals sink pending reply sink' point) (hp : a.PlacedAt pending)
    (ho : a.OrderedAt history pending) :
    a.Ordered (⟨pending, signals, reply⟩ :: history) point := by
  cases h with
  | failed | tipPast | stopped | ahead | refused | archiveAhead =>
    exact ho.heard hkeeps hown hp signals _
  | within ha => exact Opens.admits ho hp.1 ha
  | below ha => exact Opens.admits ho hp.1 ha
  | @unclosed ledger => exact Poised.hear ho ⟨.liveHealth (.following ledger), _, _⟩ rfl
  | @closed ledger => exact Poised.hear ho ⟨.liveHealth (.following ledger), _, _⟩ rfl
  | @archiveReady start stop => exact Poised.hear ho ⟨.archiveHealth start stop, _, _⟩ rfl
  | @ledgers next target => exact Poised.hear ho ⟨.ledgers next target, _, _⟩ rfl
  | @events poll page =>
    refine (Poised.hear ho ⟨.events poll, signals, .ok page⟩ rfl).rest ?_
    rw [show (Origin.page poll page (page.ofLedger poll.ledger)).later = [] from rfl,
      List.append_nil]
    exact List.filter_sublist.trans (List.takeWhile_sublist _)
  | accepted => exact OrderedAt.handed hkeeps hown ho hp signals .accepted
  | @rested milliseconds wait => exact Poised.hear ho ⟨.pause milliseconds wait, _, _⟩ rfl

include hown in
theorem Moves.ordered (h : a.Moves signals sink point sink' point') (hp : a.Placed point)
    (ho : a.Ordered history point) : a.Ordered history point' := by
  cases h with
  | stop | choosePast | endArchive | gap | unreadable | undecodable | noProgress | followPast
    | hitStop | endPolls => exact ho.delivered
  | askHealth => exact ho
  | reachTarget h =>
    refine ⟨ho.delivered, fun hkind => Poised.mono ho ?_ (List.Sublist.refl _)⟩
    exact LedgerNumber.le_following_of_lt h (hp.2 hkind)
  | askBatch => exact ho
  | chooseAgain hkind => exact ho.2 hkind
  | skipLedger =>
    refine Poised.rest ho ?_
    rw [List.flatMap_cons]
    exact List.sublist_append_right ..
  | endLedgers => exact Poised.rest ho (List.nil_sublist _)
  | @read b ledger ledgers raws h hle hr =>
    rw [hown] at hr
    obtain ⟨rfl, -⟩ := ownEvents_eq_ok hr
    exact ho
  | duplicate hs h => exact Poised.offered ho h
  | filtered hs h => exact Poised.offered ho h
  | @askHandler origin raw rest event hs h =>
    simpa [OrderedAt, Ordered, h] using ho
  | endPage => exact ho
  | endLedger h =>
    refine Poised.mono ho (UInt32.le_iff_toNat_le.mpr ?_) (List.Sublist.refl _)
    rw [LedgerNumber.toNat_add_one h]
    exact Nat.le_succ _
  | @endAtLast b ledgers h =>
    refine ⟨ho.delivered, fun _ => Poised.mono ho ?_ (List.nil_sublist _)⟩
    exact UInt32.le_trans hp.2.1 (LedgerNumber.le_following b.target)
  | endBatches h hlt =>
    refine ⟨ho.delivered, fun _ => Poised.mono ho ?_ (List.Sublist.refl _)⟩
    exact LedgerNumber.le_following_of_lt hlt hp.le
  | nextBatch => exact ho
  | askTip => exact ho
  | beginPoll => exact ho
  | askPage => exact ho
  | drained => exact ho
  | nextPage => exact ho
  | restAtTip => exact Poised.mono ho (LedgerNumber.le_following _) (List.Sublist.refl _)
  | followOn => exact Poised.mono ho (LedgerNumber.le_following _) (List.Sublist.refl _)
  | @proceed wait => cases wait <;> exact ho
  | pause => exact ho

theorem begin_ordered (a : Assignment) : a.Ordered [] a.begin.point := by
  have hstart {ledger : LedgerNumber} (h : a.request.start? = some ledger) :
      a.Poised [] ledger [] := by
    refine ⟨delivered_nil a, fun _ h => absurd h List.not_mem_nil, ledger, ?_, UInt32.le_refl _⟩
    rw [firstLedger?, h]
    rfl
  rcases begin_cases a with ⟨start, stop, hrequest, hbegin⟩ |
    ⟨hkind, ⟨hpast, hbegin⟩ | ⟨ledger, -, -, hbegin⟩⟩
  · rw [hbegin]
    exact hstart (hrequest ▸ rfl)
  · rw [hbegin]
    change a.Opens [] a.request.start?
    cases h : a.request.start? with
    | none => rfl
    | some ledger => exact hstart h
  · rw [hbegin]
    exact delivered_nil a

end

end Assignment

/-- Whatever the nodes answer, events reach the handler ledger by ledger, none below the first
ledger of the run or above its last, and those of a ledger in the order in which they were
returned. -/
theorem delivered_in_order
    (hkeeps : ∀ raw event, a.decoder.decode raw = .ok event → event.ledger = raw.ledger)
    (hown : a.decoder.ledgerEvents = RawLedger.ownEvents) {p : Progress}
    (h : a.Reaches history p) :
    (received history).Pairwise (fun e e' => e.ledger ≤ e'.ledger) ∧
    (∀ event ∈ received history,
      (∃ first, a.firstLedger? history = some first ∧ first ≤ event.ledger) ∧
      ∀ stop, a.request.stop? = some stop → event.ledger ≤ stop) ∧
    (received history).Sublist (a.decoder.selected [] (returned history)) ∧
    ∀ ledger, ((received history).filter fun event => event.ledger = ledger).Sublist
      (a.decoder.selected [] ((returned history).filter fun raw => raw.ledger = ledger)) := by
  have hordered := (h.carries (I := fun history _ point => a.Ordered history point)
    (Assignment.begin_ordered a)
    (fun _ hp _ ho h => h.ordered hkeeps hown hp ho)
    (fun hp _ ho h => h.ordered hown hp ho)).2.delivered
  have hreturned : (received history).Sublist (a.decoder.selected [] (returned history)) := by
    simpa using hordered.returned
  refine ⟨hordered.sorted, fun event hevent => ?_, hreturned, fun ledger => ?_⟩
  · exact ⟨(hordered.inRange event hevent).ge, (hordered.inRange event hevent).le⟩
  · rw [← Decoder.filter_selected hkeeps (fun l => decide (l = ledger))]
    exact hreturned.filter _

def unruly : Assignment where
  request := .live (some 5) (some 5)
  config := { EngineConfig.default with retentionMargin := 0 }
  decoder := .standard
  live := "live"
  archive := none

def unrulyEvent (ledger : LedgerNumber) (id : String) : RawEvent :=
  ⟨"contract", ledger, "", "C", id, [], "", true, ""⟩

def unrulyPage : EventsPage :=
  ⟨[unrulyEvent 5 "a", unrulyEvent 4 "x", unrulyEvent 5 "b", unrulyEvent 6 "y",
    unrulyEvent 5 "z"], 6, none⟩

def unrulyPoll : Poll :=
  ⟨5, 6, .ofLedger 5 [] 100⟩

def unrulyHistory : List (Moment unruly) :=
  [⟨.verdict (unrulyEvent 5 "b") ⟨"b", .contract, 5, "", some "C", [], "", true, ""⟩
      (.page unrulyPoll unrulyPage []), ⟨false, []⟩, .accepted⟩,
    ⟨.verdict (unrulyEvent 5 "a") ⟨"a", .contract, 5, "", some "C", [], "", true, ""⟩
      (.page unrulyPoll unrulyPage [unrulyEvent 5 "b"]), ⟨false, []⟩, .accepted⟩,
    ⟨.events unrulyPoll, ⟨false, []⟩, .ok unrulyPage⟩,
    ⟨.liveHealth (.choosing (some 5)), ⟨false, []⟩, .ok ⟨true, 1, 6, 5⟩⟩]

theorem unruly_reaches :
    ∃ sink, unruly.Reaches unrulyHistory (.ended sink (.ok ⟨.completed, 6⟩)) :=
  ⟨_, .replayed (unrulyHistory.reverse.map Moment.answer) rfl⟩

theorem unruly_delivered_in_order :
    (received unrulyHistory).Pairwise (fun e e' => e.ledger ≤ e'.ledger) ∧
    (received unrulyHistory).Sublist
      (Decoder.standard.selected [] (returned unrulyHistory)) ∧
    (received unrulyHistory).map ContractEvent.id = ["a", "b"] := by
  obtain ⟨sink, h⟩ := unruly_reaches
  obtain ⟨hsorted, -, hreturned, -⟩ :=
    delivered_in_order (fun _ _ => Decoder.ledger_of_standard) rfl h
  exact ⟨hsorted, hreturned, rfl⟩

end LedgerFeed
