import LedgerFeed.Proofs.Live
import LedgerFeed.Proofs.Passing
import LedgerFeed.Proofs.Scene

/-! The pace of a run makes no difference to what it does. A run that waits passes the points of one
that never does, and its history is the same but for the pauses, as long as nobody looks at the
time and nobody asks for a stop. -/

namespace LedgerFeed

/-- The configuration without any waits: the same for all that differ in their waits only. -/
def EngineConfig.rushed (c : EngineConfig) : EngineConfig :=
  { c with liveWait := 0, pagingWait := 0, archivalWait := 0, skipWaitIfBehind := true }

def Assignment.rushed (a : Assignment) : Assignment :=
  { a with config := a.config.rushed }

structure Contact where
  question : Question
  reply : question.Reply

/-- Nodes, a handler and others who go by what was exchanged before, latest first, and not by the
time. Nobody of them asks for a stop. -/
structure Company where
  reply : List Contact → (q : Question) → q.Reply
  filters : List Contact → List EventFilter

def Pending.calls : Pending → Bool
  | pause .. => false
  | liveHealth _ | archiveHealth .. | ledgers .. | events _ | verdict .. => true

/-- A run that never waits is at once where the wait leads. -/
def Point.rushed : Point → Point
  | resting _ wait => wait.point
  | asking (.pause _ wait) => wait.point
  | point => point

@[simp] theorem Wait.rushed_point (wait : Wait) : wait.point.rushed = wait.point := by
  cases wait <;> rfl

theorem Point.rushed_asking {pending : Pending} (h : pending.calls = true) :
    (Point.asking pending).rushed = .asking pending := by
  cases pending with
  | pause => cases h
  | liveHealth | archiveHealth | ledgers | events | verdict => rfl

section

variable {a : Assignment}

def Moment.contact? : Moment a → Option Contact
  | ⟨.pause .., _, _⟩ => none
  | m => some ⟨m.question, m.reply⟩

def contacts (history : List (Moment a)) : List Contact :=
  history.filterMap Moment.contact?

def Moment.rushed? : Moment a → Option (Moment a.rushed)
  | ⟨.pause .., _, _⟩ => none
  | ⟨pending, signals, reply⟩ => some ⟨pending, signals, reply⟩

def rushed (history : List (Moment a)) : List (Moment a.rushed) :=
  history.filterMap Moment.rushed?

def Company.Makes (c : Company) : List (Moment a) → Prop
  | [] => True
  | m :: before => m.signals = ⟨false, c.filters (contacts (m :: before))⟩ ∧
      (∀ x, m.contact? = some x → x.reply = c.reply (contacts before) x.question) ∧
      c.Makes before

end

variable {a : Assignment} {c : Company} {signals : Signals} {sink sink' : Sink}
  {point point' : Point} {pending : Pending} {history : List (Moment a)}

theorem rushed_cons (h : pending.calls = true) (reply : (pending.question a).Reply)
    (history : List (Moment a)) :
    rushed (⟨pending, signals, reply⟩ :: history) =
      (⟨pending, signals, reply⟩ : Moment a.rushed) :: rushed history := by
  cases pending with
  | pause => cases h
  | liveHealth | archiveHealth | ledgers | events | verdict => rfl

theorem contacts_rushed (history : List (Moment a)) :
    contacts (rushed history) = contacts history := by
  induction history with
  | nil => rfl
  | cons m history ih =>
    obtain ⟨pending, signals, reply⟩ := m
    cases pending with
    | pause => exact ih
    | liveHealth | archiveHealth | ledgers | events | verdict =>
      exact congrArg (List.cons _) ih

namespace Company.Makes

theorem rushed (h : c.Makes history) : c.Makes (LedgerFeed.rushed history) := by
  induction history with
  | nil => exact trivial
  | cons m history ih =>
    obtain ⟨hsignals, hreply, hbefore⟩ := h
    have hmakes := ih hbefore
    rw [← contacts_rushed] at hsignals hreply
    obtain ⟨pending, signals, reply⟩ := m
    cases pending with
    | pause => exact hmakes
    | liveHealth | archiveHealth | ledgers | events | verdict => exact ⟨hsignals, hreply, hmakes⟩

theorem signals_eq (h : c.Makes history) :
    ∀ m ∈ (LedgerFeed.rushed history).head?,
      m.signals = ⟨false, c.filters (contacts history)⟩ := by
  induction history with
  | nil => simp [LedgerFeed.rushed]
  | cons m history ih =>
    obtain ⟨hsignals, -, hbefore⟩ := h
    obtain ⟨pending, signals, reply⟩ := m
    cases pending with
    | pause => exact ih hbefore
    | liveHealth | archiveHealth | ledgers | events | verdict =>
      intro m hm
      obtain rfl := Option.some.inj hm
      exact hsignals

theorem call {m : Moment a} (h : c.Makes history)
    (hsignals : m.signals = ⟨false, c.filters (contacts (m :: history))⟩)
    (hreply : m.reply = c.reply (contacts history) m.question) : c.Makes (m :: history) := by
  obtain ⟨pending, signals, reply⟩ := m
  refine ⟨hsignals, fun x hx => ?_, h⟩
  cases pending with
  | pause => cases hx
  | liveHealth | archiveHealth | ledgers | events | verdict =>
    obtain rfl := Option.some.inj hx
    exact hreply

theorem pause {m : Moment a} (h : c.Makes (m :: history)) (milliseconds : UInt64) (wait : Wait) :
    c.Makes (⟨.pause milliseconds wait, m.signals, ()⟩ :: m :: history) :=
  ⟨h.1, nofun, h⟩

theorem of_rushed (h : c.Makes history) (hcalls : pending.calls = true)
    {reply : (pending.question a).Reply}
    (hr : c.Makes ((⟨pending, signals, reply⟩ : Moment a.rushed) :: LedgerFeed.rushed history)) :
    c.Makes (⟨pending, signals, reply⟩ :: history) := by
  obtain ⟨hsignals, hreply, -⟩ := hr
  rw [← rushed_cons hcalls, contacts_rushed] at hsignals
  rw [contacts_rushed] at hreply
  cases pending with
  | pause => cases hcalls
  | liveHealth | archiveHealth | ledgers | events | verdict => exact ⟨hsignals, hreply, h⟩

end Company.Makes

namespace Assignment

theorem begin_rushed (a : Assignment) : a.rushed.begin = a.begin := rfl

theorem failure?_rushed (reply : (pending.question a).Reply) :
    a.rushed.failure? sink pending reply = a.failure? sink pending reply := by
  cases pending with
  | liveHealth | archiveHealth | ledgers | events => cases reply <;> rfl
  | verdict | pause => rfl

theorem Passes.rushed_hear {before : List (Moment a.rushed)}
    (h : a.rushed.Passes before sink (.asking pending)) (hcalls : pending.calls = true)
    (hs : signals.stop = false) {reply : (pending.question a).Reply}
    (hh : a.Hears signals sink pending reply sink' point) :
    a.rushed.Passes (⟨pending, signals, reply⟩ :: before) sink' point.rushed := by
  have hadmits {start : Option LedgerNumber} {health : Health} {first : LedgerNumber}
      (ha : a.Admits signals start health first) : a.rushed.Admits signals start health first :=
    ⟨ha.healthy, ha.eq, ha.within, ha.running, ha.closed⟩
  cases hh with
  | failed hf => exact .hear h signals (.failed ((failure?_rushed reply).trans hf))
  | tipPast hh hp => exact .hear h signals (.tipPast hh hp)
  | stopped _ _ hs' => simp [hs] at hs'
  | ahead hh hs hlt => exact .hear h signals (.ahead hh hs hlt)
  | within ha hle => exact .hear h signals (.within (hadmits ha) hle)
  | refused ha hlt hn => exact .hear h signals (.refused (hadmits ha) hlt hn)
  | below ha hlt hsome => exact .hear h signals (.below (hadmits ha) hlt hsome)
  | unclosed hh hlt => exact (Passes.hear h signals (.unclosed hh hlt)).move (.proceed hs)
  | closed hh hle => exact .hear h signals (.closed hh hle)
  | archiveAhead hh hlt => exact .hear h signals (.archiveAhead hh hlt)
  | archiveReady hh hle => exact .hear h signals (.archiveReady hh hle)
  | ledgers => exact .hear h signals .ledgers
  | events => exact .hear h signals .events
  | accepted => exact .hear h signals .accepted
  | rested => cases hcalls

theorem Passes.rushed_move {m : Moment a.rushed} {before : List (Moment a.rushed)}
    (h : a.rushed.Passes (m :: before) sink point.rushed) (hs : m.signals.stop = false)
    (hm : a.Moves m.signals sink point sink' point') :
    a.rushed.Passes (m :: before) sink' point'.rushed := by
  cases hm with
  | stop hs' => simp [hs] at hs'
  | @restAtTip poll reported hpast hrest =>
    by_cases hle : max poll.latest reported ≤ poll.ledger
    · exact (h.move (.restAtTip hpast (.inl hle))).move (.proceed hs)
    · exact h.move (.followOn hpast (UInt32.not_le.mp hle) rfl)
  | followOn hpast hlt => exact h.move (.followOn hpast hlt rfl)
  | nextBatch hne hle => exact (h.move (.nextBatch hne hle)).move (.proceed hs)
  | nextPage hpast hcursor => exact (h.move (.nextPage hpast hcursor)).move (.proceed hs)
  | proceed => rwa [Wait.rushed_point]
  | pause => exact h
  | _ => exact h.move (by constructor <;> assumption)

theorem Moves.rushed_between (h : a.Moves signals sink point sink' point')
    (hs : signals.stop = false) : (∀ pending, point.rushed ≠ .asking pending) ∧
      ∀ result, point.rushed ≠ .ended result := by
  cases h with
  | stop hs' => simp [hs] at hs'
  | @proceed wait | @pause _ wait => cases wait <;> simp [Point.rushed, Wait.point]
  | _ => simp [Point.rushed]

/-- What a run passes the run that never waits passes as well, after the same calls. -/
theorem Reaches.rushed {p : Progress} (h : a.Reaches history p) (hc : c.Makes history) :
    a.rushed.Passes (LedgerFeed.rushed history) p.sink p.point.rushed := by
  revert hc
  refine h.invariant (I := fun history sink point => c.Makes history →
    a.rushed.Passes (LedgerFeed.rushed history) sink point.rushed) ?_ ?_ ?_
  · intro _
    have hpoint : a.begin.point.rushed = a.begin.point := by
      rcases begin_cases a with ⟨_, _, -, hbegin⟩ | ⟨-, ⟨-, hbegin⟩ | ⟨_, -, -, hbegin⟩⟩
      all_goals exact hbegin ▸ rfl
    rw [hpoint, ← begin_rushed]
    exact .begin
  · rintro history sink pending reply sink' point signals ih hh hc
    have hbefore := ih hc.2.2
    cases hcalls : pending.calls with
    | true =>
      rw [Point.rushed_asking hcalls] at hbefore
      rw [rushed_cons hcalls]
      exact hbefore.rushed_hear hcalls (congrArg Signals.stop hc.1) hh
    | false =>
      cases pending with
      | pause =>
        cases hh with
        | failed hf => cases hf
        | rested => exact hbefore
      | liveHealth | archiveHealth | ledgers | events | verdict => cases hcalls
  · rintro history m sink point sink' point' ih hm hc
    have hs : m.signals.stop = false := congrArg Signals.stop hc.1
    have hpasses := ih hc
    obtain ⟨hasking, hended⟩ := hm.rushed_between hs
    obtain ⟨m₀, before, hrushed⟩ := hpasses.eq_cons hasking hended
    have hsignals : m₀.signals = m.signals := (hc.signals_eq m₀ (by simp [hrushed])).trans hc.1.symm
    rw [hrushed] at hpasses ⊢
    rw [← hsignals] at hm hs
    exact hpasses.rushed_move hs hm

theorem proceed_ne_pause (signals : Signals) (sink s : Sink) (wait w : Wait)
    (milliseconds : UInt64) : a.proceed signals sink wait ≠ .waiting s (.pause milliseconds w) := by
  have hrequest (sink : Sink) (poll : Poll) :
      requestPage signals sink poll ≠ .waiting s (.pause milliseconds w) := by
    unfold requestPage stopped
    split <;> simp
  cases wait with
  | betweenPages poll => exact hrequest sink poll
  | atTip ledger latest =>
    change a.follow signals sink ledger latest ≠ _
    unfold follow completed stopped
    split
    · simp
    split
    · simp
    split
    · simp
    · exact hrequest _ _
  | betweenBatches next target =>
    change a.backfill signals sink next target ≠ _
    unfold backfill endBackfill choose completed stopped
    repeat' split
    all_goals simp

theorem proceed_rushed (signals : Signals) (sink : Sink) (wait : Wait) :
    a.rushed.proceed signals sink wait = a.proceed signals sink wait := by
  cases wait <;> rfl

/-- Wherever a run gets that never waits, a run gets that waits, after the same calls. -/
theorem Reaches.of_rushed {before : List (Moment a.rushed)} {p : Progress}
    (h : a.rushed.Reaches before p) (hc : c.Makes before) :
    (∀ s milliseconds wait, p ≠ .waiting s (.pause milliseconds wait)) ∧
      ∃ history, a.Reaches history p ∧ c.Makes history ∧ LedgerFeed.rushed history = before := by
  induction h with
  | begin =>
    refine ⟨fun s milliseconds wait heq => ?_, [], .begin, trivial, rfl⟩
    rw [begin_rushed] at heq
    rcases begin_cases a with ⟨_, _, -, hbegin⟩ | ⟨-, ⟨-, hbegin⟩ | ⟨_, -, -, hbegin⟩⟩
    all_goals cases hbegin.symm.trans heq
  | @resume before sink pending h signals reply ih =>
    obtain ⟨hpause, history, hreaches, hmakes, rfl⟩ := ih hc.2.2
    have hcalls : pending.calls = true := by
      cases pending with
      | pause milliseconds wait => exact absurd rfl (hpause sink milliseconds wait)
      | liveHealth | archiveHealth | ledgers | events | verdict => rfl
    have hnext := hreaches.resume signals reply
    have hmakes' := hmakes.of_rushed hcalls hc
    have hpasses := hnext.rushed hmakes'
    have hrushed := @rushed_cons a signals pending hcalls reply history
    generalize a.resume signals sink pending reply = p at hnext hpasses
    rw [hrushed] at hpasses
    have heq := (h.resume signals reply).unique hpasses.reaches
    -- where the run waits in a pause, the next answer ends it
    rcases p with ⟨s, result⟩ | ⟨s, pending'⟩
    · rw [heq]
      exact ⟨nofun, _, hnext, hmakes', hrushed⟩
    cases hcalls' : pending'.calls with
    | true =>
      rw [heq]
      simp only [Progress.point, Point.rushed_asking hcalls']
      refine ⟨fun s' milliseconds wait hwaiting => ?_, _, hnext, hmakes', hrushed⟩
      cases hwaiting
      cases hcalls'
    | false =>
      cases pending' with
      | pause milliseconds wait =>
        have hs : signals.stop = false := congrArg Signals.stop hc.1
        have hproceed : a.rushed.resume signals sink pending reply = a.proceed signals s wait :=
          heq.trans ((goOn_wait wait).trans (proceed_rushed ..))
        have hresume : a.resume signals s (.pause milliseconds wait) () =
            a.proceed signals s wait := if_neg (by simp [hs])
        rw [hproceed]
        exact ⟨fun _ _ _ => proceed_ne_pause _ _ _ _ _ _, _, hresume ▸ hnext.resume signals (),
          hmakes'.pause milliseconds wait, hrushed⟩
      | liveHealth | archiveHealth | ledgers | events | verdict => cases hcalls'

theorem Passes.reaches_point {p : Progress} (h : a.Passes history p.sink p.point) :
    a.Reaches history p := by
  cases history with
  | nil => exact @goOn_point a ⟨false, []⟩ p ▸ h.placed_reaches.2 _ (by simp)
  | cons m _ => exact @goOn_point a m.signals p ▸ h.reaches

end Assignment

namespace Company

def Asks (c : Company) (a : Assignment) (calls : List Contact) (call : Question) : Prop :=
  ∃ (history : List (Moment a)) (sink : Sink) (pending : Pending),
    a.Reaches history (.waiting sink pending) ∧ c.Makes history ∧ contacts history = calls ∧
      pending.calls = true ∧ pending.question a = call

def Ends (c : Company) (a : Assignment) (calls : List Contact) (finished : Finished) : Prop :=
  ∃ (history : List (Moment a)) (sink : Sink) (result : Except IngestError Exit),
    a.Reaches history (.ended sink result) ∧ c.Makes history ∧ contacts history = calls ∧
      Engine.finish a.request.kind sink result = finished

variable {calls : List Contact}

theorem asks_rushed {call : Question} : c.Asks a.rushed calls call ↔ c.Asks a calls call := by
  constructor
  · rintro ⟨_, sink, pending, hfast, hc, rfl, hcalls, rfl⟩
    obtain ⟨-, history, hreaches, hmakes, rfl⟩ := hfast.of_rushed hc
    exact ⟨history, sink, pending, hreaches, hmakes, (contacts_rushed history).symm, hcalls,
      by cases pending <;> rfl⟩
  · rintro ⟨history, sink, pending, hreaches, hmakes, rfl, hcalls, rfl⟩
    have hpasses := hreaches.rushed hmakes
    simp only [Progress.point, Point.rushed_asking hcalls] at hpasses
    exact ⟨rushed history, sink, pending, hpasses.reaches_asking, hmakes.rushed,
      contacts_rushed history, hcalls, by cases pending <;> rfl⟩

theorem ends_rushed {finished : Finished} :
    c.Ends a.rushed calls finished ↔ c.Ends a calls finished := by
  constructor
  · rintro ⟨_, sink, result, hfast, hc, rfl, rfl⟩
    obtain ⟨-, history, hreaches, hmakes, rfl⟩ := hfast.of_rushed hc
    exact ⟨history, sink, result, hreaches, hmakes, (contacts_rushed history).symm, rfl⟩
  · rintro ⟨history, sink, result, hreaches, hmakes, rfl, rfl⟩
    have hpasses := hreaches.rushed hmakes
    exact ⟨rushed history, sink, result, @Assignment.Passes.reaches_point _ _ (.ended ..) hpasses,
      hmakes.rushed, contacts_rushed history, rfl⟩

end Company

theorem Engine.assign_rushed {e : Engine} {config : EngineConfig}
    (h : config.rushed = e.config.rushed) (request : RunRequest) :
    (Engine.assign { e with config } request).rushed = (e.assign request).rushed := by
  simp only [Assignment.rushed, Engine.assign, h]

/-- An engine that is configured with other waits refuses the same runs. One that it lets in makes
the same calls in the same order, and ends, if it does, with the same calls and the same outcome. -/
theorem pacing_is_unobservable (e : Engine) {config : EngineConfig}
    (h : config.rushed = e.config.rushed) (request : RunRequest) (c : Company) :
    (∀ error, (Engine.start { e with config } request).2 = .error error ↔
      (e.start request).2 = .error error) ∧
    (∀ calls call, c.Asks (Engine.assign { e with config } request) calls call ↔
      c.Asks (e.assign request) calls call) ∧
    ∀ calls finished, c.Ends (Engine.assign { e with config } request) calls finished ↔
      c.Ends (e.assign request) calls finished := by
  refine ⟨e.start_eq_error_iff config request, fun calls call => ?_, fun calls finished => ?_⟩
  · rw [← Company.asks_rushed, Engine.assign_rushed h, Company.asks_rushed]
  · rw [← Company.ends_rushed, Engine.assign_rushed h, Company.ends_rushed]

def leisurely : Engine where
  config := .default
  urls := .ofList []
  decoder := .standard
  live := "live"
  archive := none
  filters := []
  control := .initial

def hurried : EngineConfig :=
  { EngineConfig.default with
    liveWait := 0
    pagingWait := 0
    archivalWait := 0
    skipWaitIfBehind := false }

def risingCompany : Company where
  reply calls
    | .health _ => .ok ⟨true, 1, if calls.isEmpty then 15 else 16, 15⟩
    | .events request =>
      .ok ⟨if request.start = some 15 then [sampleEvent 15 "a"] else [], 15, none⟩
    | .ledgers _ => .error (.http 404)
    | .handle _ => .accepted
    | .pause _ => ()
  filters _ := []

def hurriedRun : Assignment :=
  Engine.assign { leisurely with config := hurried } (.live (some 15) (some 16))

theorem hurried_ends : ∃ calls finished, risingCompany.Ends hurriedRun calls finished ∧
    calls.length = 5 ∧ finished.result = .ok ⟨.completed, 1, 17⟩ := by
  have hempty := Assignment.Reaches.replayed (a := hurriedRun) (quietly
    [.health (.ok ⟨true, 1, 15, 15⟩), .events (.ok ⟨[sampleEvent 15 "a"], 15, none⟩),
      .verdict .accepted, .health (.ok ⟨true, 1, 16, 15⟩), .events (.ok ⟨[], 15, none⟩)]) rfl
  refine ⟨_, _, ⟨_, _, _, hempty, ?_, rfl, rfl⟩, rfl, rfl⟩
  exact .call (.call (.call (.call (.call trivial rfl rfl) rfl rfl) rfl rfl) rfl rfl) rfl rfl

theorem hurried_pacing_is_unobservable : hurried.rushed = leisurely.config.rushed ∧
    ∃ calls finished, risingCompany.Ends hurriedRun calls finished ∧
      risingCompany.Ends (leisurely.assign (.live (some 15) (some 16))) calls finished ∧
      calls.length = 5 ∧ finished.result = .ok ⟨.completed, 1, 17⟩ := by
  have hrushed : hurried.rushed = leisurely.config.rushed := rfl
  obtain ⟨calls, finished, hends, hlength, hresult⟩ := hurried_ends
  have hslow := ((pacing_is_unobservable leisurely hrushed _ risingCompany).2.2 calls finished).mp
    hends
  exact ⟨hrushed, calls, finished, hends, hslow, hlength, hresult⟩

end LedgerFeed
