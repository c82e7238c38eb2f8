import LedgerFeed.Proofs.Passing
import LedgerFeed.Proofs.Stopping

/-! The filters of a run while others change them. A poll keeps the filters that were active when it
began, for its requests and for its events, and a batch those that were active when it arrived. -/

namespace LedgerFeed

section

variable {a : Assignment}

/-- The ledger of the latest poll that has asked for a page, and the filters that were active when
it began. A poll begins with a request without cursor, right after the answer before. -/
def begun? : List (Moment a) → Option (LedgerNumber × List EventFilter)
  | [] => none
  | ⟨.events poll, _, _⟩ :: before =>
    match poll.request.cursor with
    | none => before.head?.map fun m => (poll.ledger, m.signals.filters)
    | some _ => begun? before
  | _ :: before => begun? before

def arrived? : List (Moment a) → Option (List EventFilter)
  | [] => none
  | ⟨.ledgers .., signals, _⟩ :: _ => some signals.filters
  | _ :: before => arrived? before

def Screens (history : List (Moment a)) : Origin → List EventFilter → Prop
  | .page poll _ _, filters => begun? history = some (poll.ledger, filters)
  | .batch .., filters => arrived? history = some filters

def Moment.poll? : Moment a → Option Poll
  | ⟨.events poll, _, _⟩ => some poll
  | _ => none

def polls (history : List (Moment a)) : List Poll :=
  history.filterMap Moment.poll?

end

variable {a : Assignment} {signals : Signals} {sink sink' : Sink} {point point' : Point}
  {pending : Pending} {history : List (Moment a)} {origin : Origin} {raw : RawEvent}
  {rest : List RawEvent} {event : ContractEvent}

theorem Screens.withRest {filters : List EventFilter}
    (h : Screens history origin filters) (rest : List RawEvent) :
    Screens history (origin.withRest rest) filters := by
  cases origin <;> exact h

namespace Assignment

/-- A poll asks for a page: for the first one with the filters that are active, for a later one with
those that were active at its first. -/
inductive Carries (a : Assignment) : List (Moment a) → Poll → Prop
  | first {m : Moment a} {before : List (Moment a)} {poll : Poll}
      (h : poll.request = .ofLedger poll.ledger m.signals.filters a.config.pageSize) :
      Carries a (m :: before) poll
  | next {history : List (Moment a)} {poll : Poll} {cursor : String}
      (hc : poll.request.cursor = some cursor)
      (h : begun? history = some (poll.ledger, poll.request.filters)) : Carries a history poll

theorem Carries.begun {poll : Poll} (h : a.Carries history poll)
    {reply : ((Pending.events poll).question a).Reply} :
    begun? (⟨.events poll, signals, reply⟩ :: history) =
      some (poll.ledger, poll.request.filters) := by
  cases h with
  | first h =>
    have hcursor : poll.request.cursor = none := congrArg (·.cursor) h
    have hfilters : poll.request.filters = _ := congrArg (·.filters) h
    simp [begun?, hcursor, hfilters, EventsRequest.ofLedger]
  | next hc h => simpa [begun?, hc] using h

def ScreenedAfter (a : Assignment) (history : List (Moment a)) : Wait → Prop
  | .betweenPages poll => (∃ cursor, poll.request.cursor = some cursor) ∧
      begun? history = some (poll.ledger, poll.request.filters)
  | .atTip .. | .betweenBatches .. => True

def Screened (a : Assignment) (history : List (Moment a)) : Point → Prop
  | .requesting poll => a.Carries history poll
  | .offering origin => Screens history origin origin.filters
  | .paged poll _ => begun? history = some (poll.ledger, poll.request.filters)
  | .taking b _ => arrived? history = some b.filters
  | .resting _ wait => a.ScreenedAfter history wait
  | .asking (.events poll) => a.Carries history poll
  | .asking (.verdict _ event origin) =>
    Screens history origin origin.filters ∧ wanted origin.filters event = true
  | .asking (.pause _ wait) => a.ScreenedAfter history wait
  | _ => True

theorem Hears.screened {reply : (pending.question a).Reply}
    (h : a.Hears signals sink pending reply sink' point)
    (hs : a.Screened history (.asking pending)) :
    a.Screened (⟨pending, signals, reply⟩ :: history) point := by
  cases h with
  | failed | tipPast | stopped | ahead | within | refused | below | unclosed | archiveAhead
    | archiveReady => exact trivial
  | closed => exact .first rfl
  | ledgers => exact rfl
  | events => exact hs.begun
  | @accepted raw event origin => cases origin <;> exact hs.1
  | @rested milliseconds wait => cases wait <;> exact hs

theorem Moves.screened {m : Moment a} (h : a.Moves m.signals sink point sink' point')
    (hs : a.Screened (m :: history) point) : a.Screened (m :: history) point' := by
  cases h with
  | skipLedger | read | pause | askPage => exact hs
  | duplicate | filtered =>
    rw [Screened, Origin.filters_withRest]
    exact Screens.withRest hs _
  | askHandler _ _ hj =>
    rw [Screened, Origin.filters_withRest]
    exact ⟨Screens.withRest hs _, (Sink.judge_eq_wanted_iff.mp hj).2.2⟩
  | endPage | endLedger => exact hs
  | beginPoll => exact .first rfl
  | nextPage h hc => exact ⟨⟨_, rfl⟩, hs⟩
  | @proceed wait =>
    cases wait with
    | betweenPages poll =>
      obtain ⟨⟨cursor, hc⟩, hbegun⟩ := hs
      exact .next hc hbegun
    | atTip | betweenBatches => exact trivial
  | _ => exact trivial

theorem begin_screened (a : Assignment) : a.Screened [] a.begin.point := by
  rcases begin_cases a with ⟨_, _, -, hbegin⟩ | ⟨-, ⟨-, hbegin⟩ | ⟨_, -, -, hbegin⟩⟩
  all_goals exact hbegin ▸ trivial

theorem Passes.screened (h : a.Passes history sink point) : a.Screened history point := by
  induction h with
  | begin => exact begin_screened a
  | hear _ _ hh ih => exact hh.screened ih
  | move _ hm ih => exact hm.screened ih

end Assignment

/-! A ledger below the last one is polled once. -/

def Beyond (history : List (Moment a)) (ledger : LedgerNumber) : Prop :=
  ∀ poll ∈ polls history, poll.ledger < ledger ∨ poll.ledger = .last

def Within (history : List (Moment a)) (poll : Poll) : Prop :=
  ∀ poll' ∈ polls history, poll'.ledger < poll.ledger ∨ poll'.ledger = .last ∨
    poll'.ledger = poll.ledger ∧ poll'.request.filters = poll.request.filters

def Steady (history : List (Moment a)) : Prop :=
  ∀ poll ∈ polls history, ∀ poll' ∈ polls history, poll.ledger = poll'.ledger →
    poll.ledger ≠ .last → poll.request.filters = poll'.request.filters

theorem polls_cons_of_none {m : Moment a} (h : m.poll? = none) :
    polls (m :: history) = polls history :=
  List.filterMap_cons_none h

theorem polls_cons_events {poll : Poll} {reply : ((Pending.events poll).question a).Reply} :
    polls (⟨.events poll, signals, reply⟩ :: history) = poll :: polls history := rfl

theorem Beyond.within {poll : Poll} (h : Beyond history poll.ledger) : Within history poll :=
  fun poll' hpoll' => (h poll' hpoll').imp_right .inl

theorem Within.beyond {poll : Poll} (h : Within history poll) :
    Beyond history poll.ledger.following := by
  intro poll' hpoll'
  rcases h poll' hpoll' with hlt | hlast | ⟨heq, -⟩
  · exact .inl (UInt32.lt_of_lt_of_le hlt (LedgerNumber.le_following _))
  · exact .inr hlast
  · by_cases hlast : poll'.ledger = .last
    · exact .inr hlast
    · rw [heq] at hlast ⊢
      exact .inl (LedgerNumber.lt_following hlast)

theorem Within.cons {poll : Poll} (h : Within history poll)
    {reply : ((Pending.events poll).question a).Reply} :
    Within (⟨.events poll, signals, reply⟩ :: history) poll := by
  intro poll' hpoll'
  rcases List.mem_cons.mp hpoll' with rfl | hpoll'
  · exact .inr (.inr ⟨rfl, rfl⟩)
  · exact h poll' hpoll'

theorem Steady.cons (h : Steady history) {poll : Poll} (hw : Within history poll)
    {reply : ((Pending.events poll).question a).Reply} :
    Steady (⟨.events poll, signals, reply⟩ :: history) := by
  -- an earlier poll of the same ledger is this one, unless the ledger numbers have run out
  have hsame {poll' : Poll} (hpoll' : poll' ∈ polls history) (heq : poll'.ledger = poll.ledger)
      (hne : poll'.ledger ≠ .last) : poll'.request.filters = poll.request.filters := by
    rcases hw poll' hpoll' with hlt | hlast | ⟨-, hfilters⟩
    · exact absurd (heq ▸ hlt) (UInt32.lt_irrefl _)
    · exact absurd hlast hne
    · exact hfilters
  intro poll₁ h₁ poll₂ h₂ heq hne
  rw [polls_cons_events, List.mem_cons] at h₁ h₂
  rcases h₁ with rfl | h₁ <;> rcases h₂ with rfl | h₂
  · rfl
  · exact (hsame h₂ heq.symm (heq ▸ hne)).symm
  · exact hsame h₁ heq hne
  · exact h poll₁ h₁ poll₂ h₂ heq hne

namespace Assignment

def AdvancesAfter (history : List (Moment a)) : Wait → Prop
  | .atTip ledger _ => Beyond history ledger
  | .betweenPages poll => Within history poll
  | .betweenBatches .. => polls history = []

def AdvancesFrom (history : List (Moment a)) : Origin → Prop
  | .page poll _ _ => Within history poll
  | .batch .. => polls history = []

def Advances (history : List (Moment a)) : Point → Prop
  | .following ledger _ => Beyond history ledger
  | .requesting poll | .paged poll _ | .polled poll _ => Within history poll
  | .offering origin => AdvancesFrom history origin
  | .resting _ wait => AdvancesAfter history wait
  | .asking (.liveHealth (.following ledger)) => Beyond history ledger
  | .asking (.events poll) => Within history poll
  | .asking (.verdict _ _ origin) => AdvancesFrom history origin
  | .asking (.pause _ wait) => AdvancesAfter history wait
  | .ended _ => True
  | _ => polls history = []

theorem Hears.advances {reply : (pending.question a).Reply}
    (h : a.Hears signals sink pending reply sink' point)
    (ho : Advances history (.asking pending)) :
    Advances (⟨pending, signals, reply⟩ :: history) point := by
  cases h with
  | failed | tipPast | stopped | ahead | refused | archiveAhead => exact trivial
  | within =>
    intro poll hpoll
    rw [polls_cons_of_none rfl, show polls history = [] from ho] at hpoll
    cases hpoll
  | below | archiveReady | ledgers => exact ho
  | unclosed => exact ho
  | closed => exact Beyond.within ho
  | events => exact Within.cons ho
  | @accepted raw event origin => cases origin <;> exact ho
  | @rested milliseconds wait => cases wait <;> exact ho

theorem Moves.advances (h : a.Moves signals sink point sink' point') (ho : Advances history point) :
    Advances history point' := by
  cases h with
  | stop | choosePast | endArchive | gap | unreadable | undecodable | noProgress | followPast
    | hitStop | endPolls => exact trivial
  | @duplicate origin | @filtered origin | @askHandler origin => cases origin <;> exact ho
  | beginPoll => exact Beyond.within ho
  | restAtTip | followOn => exact Within.beyond ho
  | @proceed wait => cases wait <;> exact ho
  | askHealth | reachTarget | askBatch | chooseAgain | skipLedger | endLedgers | read | endPage
    | endLedger | endAtLast | endBatches | nextBatch | askTip | askPage | drained | nextPage
    | pause => exact ho

theorem begin_advances (a : Assignment) : Advances ([] : List (Moment a)) a.begin.point := by
  rcases begin_cases a with ⟨_, _, -, hbegin⟩ | ⟨-, ⟨-, hbegin⟩ | ⟨_, -, -, hbegin⟩⟩
  · exact hbegin ▸ rfl
  · exact hbegin ▸ rfl
  · exact hbegin ▸ trivial

theorem Hears.steady {reply : (pending.question a).Reply}
    (h : a.Hears signals sink pending reply sink' point)
    (ho : Advances history (.asking pending)) (hs : Steady history) :
    Steady (⟨pending, signals, reply⟩ :: history) := by
  cases pending with
  | events poll => exact hs.cons ho
  | liveHealth | archiveHealth | ledgers | verdict | pause => exact hs

theorem Reaches.steady {p : Progress} (h : a.Reaches history p) : Steady history :=
  (h.invariant (I := fun history _ point => Advances history point ∧ Steady history)
    ⟨begin_advances a, fun _ h => by cases h⟩
    (fun _ hi h => ⟨h.advances hi.1, h.steady hi.1 hi.2⟩)
    fun hi h => ⟨h.advances hi.1, hi.2⟩).2

/-- What becomes of an event that is offered, is not remembered and can be decoded: the filters of
its origin decide. -/
theorem Passes.offers (h : a.Passes history sink (.offering origin))
    (hrest : origin.rest = raw :: rest) (hs : ∀ m ∈ history.head?, m.signals.stop = false)
    (hnew : sink.recent.contains raw.id = false) (hd : a.decoder.decode raw = .ok event) :
    (wanted origin.filters event = true → a.Reaches history
      (.waiting (sink.note raw (.wanted event)) (.verdict raw event (origin.withRest rest)))) ∧
    (wanted origin.filters event = false → a.Passes history
      ((sink.note raw .filtered).skipFiltered raw) (.offering (origin.withRest rest))) := by
  obtain ⟨m, before, rfl⟩ := h.eq_cons (by simp) (by simp)
  refine ⟨fun hw => ?_, fun hw => ?_⟩
  · have hj := Sink.judge_eq_wanted_iff.mpr ⟨hnew, hd, hw⟩
    exact (h.move (.askHandler (hs m rfl) hrest hj)).reaches_asking
  · have hj := Sink.judge_eq_filtered_iff.mpr ⟨hnew, event, hd, hw⟩
    exact h.move (.filtered (hs m rfl) hrest hj)

end Assignment

namespace Scene

theorem Later.answered {s₀ s : Scene a} (h : Later s₀ s) (h₀ : s₀.history = [])
    {later before : List (Moment a)} {m : Moment a} (hm : s.history = later ++ m :: before) :
    ∃ s' sink, Later s₀ s' ∧ Later s' s ∧ s'.history = before ∧
      s'.progress = .waiting sink m.pending ∧ s'.engine.signals = m.signals := by
  induction h generalizing later with
  | refl => simp [h₀] at hm
  | tail h step ih =>
    cases step with
    | operate hw op =>
      obtain ⟨s', sink, hs', hlater, hrest⟩ := ih hm
      exact ⟨s', sink, hs', hlater.tail (.operate hw op), hrest⟩
    | pause hw hs time =>
      obtain ⟨s', sink, hs', hlater, hrest⟩ := ih hm
      exact ⟨s', sink, hs', hlater.tail (.pause hw hs time), hrest⟩
    | @reply sink pending hw reply =>
      -- the moment is the one of this answer, or it was there before
      cases later with
      | nil =>
        obtain ⟨rfl, rfl⟩ := List.cons.inj hm
        exact ⟨_, sink, h, .single (.reply hw reply), rfl, hw, rfl⟩
      | cons _ later =>
        obtain ⟨s', sink, hs', hlater, hrest⟩ := ih (List.cons.inj hm).2
        exact ⟨s', sink, hs', hlater.tail (.reply hw reply), hrest⟩

/-- What the filters of a run have to do with those that were active, from the opening of the run up
to a scene. -/
structure Keeps (opening s : Scene a) : Prop where
  answered : ∀ later m before, s.history = later ++ m :: before → ∃ s' sink, Later opening s' ∧
    Later s' s ∧ s'.history = before ∧ s'.progress = .waiting sink m.pending ∧
    s'.engine.signals = m.signals
  requests : ∀ sink poll, s.progress = .waiting sink (.events poll) → a.Carries s.history poll
  offered : ∀ sink origin raw rest event, a.Passes s.history sink (.offering origin) →
    origin.rest = raw :: rest → (∀ m ∈ s.history.head?, m.signals.stop = false) →
    sink.recent.contains raw.id = false → a.decoder.decode raw = .ok event →
    ∃ filters, Screens s.history origin filters ∧
      (wanted filters event = true → s.progress =
        .waiting (sink.note raw (.wanted event)) (.verdict raw event (origin.withRest rest))) ∧
      (wanted filters event = false → a.Passes s.history
        ((sink.note raw .filtered).skipFiltered raw) (.offering (origin.withRest rest)))
  delivered : ∀ sink raw event origin, s.progress = .waiting sink (.verdict raw event origin) →
    ∃ filters, Screens s.history origin filters ∧ wanted filters event = true
  steady : Steady s.history

end Scene

/-- Whatever is done with the filters during a run, a change takes effect only when the next poll
begins or the next batch arrives. -/
theorem filters_change_between_fetches {e : Engine} {request : RunRequest} {flight : Flight}
    (hstart : (e.start request).2 = .ok flight) {s : Scene (e.assign request)}
    (hlater : Scene.Later (.opening e request) s) : Scene.Keeps (.opening e request) s := by
  have hreaches := (hlater.sound (Scene.opening_sound hstart)).reaches
  have hscreened := hreaches.passes.screened
  refine ⟨fun later m before => hlater.answered rfl, fun sink poll hw => ?_,
    fun sink origin raw rest event hp hrest hs hnew hd => ?_, fun sink raw event origin hw => ?_,
    hreaches.steady⟩
  · rw [hw] at hscreened
    exact hscreened
  · obtain ⟨hwanted, hfiltered⟩ := hp.offers hrest hs hnew hd
    exact ⟨origin.filters, hp.screened, fun hw => hreaches.unique (hwanted hw), hfiltered⟩
  · rw [hw] at hscreened
    exact ⟨origin.filters, hscreened⟩

def systemFilters : List EventFilter :=
  [⟨some .system, [], []⟩]

def screenedRequest : RunRequest :=
  .live (some 4) (some 4)

def screenedPoll : Poll :=
  ⟨4, 5, .ofLedger 4 [] 100⟩

def screenedScene : Scene (crossingEngine.assign screenedRequest) :=
  let sink := Sink.ofCapacity crossing.config.dedupCapacity .live
  let asking := (Scene.opening crossingEngine screenedRequest).answer sink
    (.liveHealth (.choosing (some 4))) (.ok ⟨true, 4, 5, 4⟩)
  let set := { asking with engine := asking.engine.operate (.setFilters systemFilters) }
  set.answer (sink.measure .poll) (.events screenedPoll) (.ok ⟨[sampleEvent 4 "a"], 5, none⟩)

theorem screened_filters_change :
    ∃ (flight : Flight) (sink : Sink) (event : ContractEvent) (origin : Origin),
      (crossingEngine.start screenedRequest).2 = .ok flight ∧
      Scene.Later (.opening crossingEngine screenedRequest) screenedScene ∧
      Scene.Keeps (.opening crossingEngine screenedRequest) screenedScene ∧
      screenedScene.progress = .waiting sink (.verdict (sampleEvent 4 "a") event origin) ∧
      screenedScene.engine.filters = systemFilters ∧ wanted systemFilters event = false := by
  have hlater : Scene.Later (.opening crossingEngine screenedRequest) screenedScene :=
    ((Relation.ReflTransGen.single (.reply rfl _)).tail
      (.operate rfl (.setFilters systemFilters))).tail (.reply rfl _)
  exact ⟨_, _, _, _, rfl, hlater, filters_change_between_fetches rfl hlater, rfl, rfl, rfl⟩

def lastEngine : Engine :=
  { crossingEngine with
    config := { crossing.config with dedupCapacity := 1 }
    filters := systemFilters }

def lastRequest : RunRequest :=
  .live (some .last) (some .last)

def lastPage : EventsPage :=
  ⟨[sampleEvent .last "a", sampleEvent .last "b"], .last, none⟩

/-- The last ledger is polled again. -/
theorem last_ledger_screened_twice :
    ∃ (flight : Flight) (s : Scene (lastEngine.assign lastRequest)) (sink : Sink)
      (event : ContractEvent) (origin : Origin),
      (lastEngine.start lastRequest).2 = .ok flight ∧
      Scene.Later (.opening lastEngine lastRequest) s ∧
      (polls s.history).map (fun poll => (poll.ledger, poll.request.filters)) =
        [(.last, []), (.last, systemFilters)] ∧
      s.progress = .waiting sink (.verdict (sampleEvent .last "a") event origin) ∧
      (sampleEvent .last "a", .filtered) ∈ sink.offers := by
  have hhealth := Relation.ReflTransGen.single
    (@Scene.Step.reply _ (.opening lastEngine lastRequest) _ (.liveHealth (.choosing (some .last)))
      rfl (.ok ⟨true, 4294967290, .last, 5⟩))
  have hpage := hhealth.tail (@Scene.Step.reply _ _ _ (.events _) rfl (.ok lastPage))
  have hcleared := hpage.tail (.operate rfl .clearFilters)
  have hrested := hcleared.tail (@Scene.Step.reply _ _ _ (.pause ..) rfl ())
  have hagain := hrested.tail (@Scene.Step.reply _ _ _ (.events _) rfl (.ok lastPage))
  exact ⟨_, _, _, _, _, rfl, hagain, rfl, rfl, by decide⟩

end LedgerFeed
