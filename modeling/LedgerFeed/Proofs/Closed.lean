import Mathlib.Data.List.Chain
import LedgerFeed.Proofs.Failing
import LedgerFeed.Proofs.Resume

/-! No ledger is polled before it is known to be closed: the live node has reported a tip that
reaches it. As long as it has not, the run takes turns between a wait and a look at the tip. -/

namespace LedgerFeed

inductive Moment.Closes {a : Assignment} : Moment a → LedgerNumber → Prop
  | health {use : HealthUse} {signals : Signals} {health : Health} {ledger : LedgerNumber}
      (hh : health.healthy = true) (h : ledger ≤ health.latest) :
      Closes ⟨.liveHealth use, signals, .ok health⟩ ledger
  | page {poll : Poll} {signals : Signals} {page : EventsPage} {ledger : LedgerNumber}
      (h : ledger ≤ page.latest) : Closes ⟨.events poll, signals, .ok page⟩ ledger

section

variable {a : Assignment}

def Closed (history : List (Moment a)) (ledger : LedgerNumber) : Prop :=
  ∃ m ∈ history, m.Closes ledger

theorem Moment.closes_of_tip? {m : Moment a} {tip ledger : LedgerNumber} (h : m.tip? = some tip)
    (hle : ledger ≤ tip) (hhealthy : ∀ health, m.health? = some health → health.healthy = true) :
    m.Closes ledger := by
  obtain ⟨pending, signals, reply⟩ := m
  cases pending with
  | liveHealth use =>
    cases reply with
    | error failure => cases h
    | ok health =>
      obtain rfl := Option.some.inj h
      exact .health (hhealthy health rfl) hle
  | events poll =>
    cases reply with
    | error failure => cases h
    | ok page =>
      obtain rfl := Option.some.inj h
      exact .page hle
  | archiveHealth | ledgers | verdict | pause => cases h

theorem Assignment.Known.closed {history : List (Moment a)} {ledger : LedgerNumber}
    (h : Known history ledger) (hhealthy : ∀ health ∈ healths history, health.healthy = true) :
    Closed history ledger := by
  obtain ⟨tip, htip, hle⟩ := h
  obtain ⟨m, hm, htip⟩ := List.mem_filterMap.mp htip
  refine ⟨m, hm, Moment.closes_of_tip? htip hle fun health hhealth => hhealthy health ?_⟩
  exact List.mem_filterMap.mpr ⟨m, hm, hhealth⟩

theorem Closed.mono {history : List (Moment a)} {ledger ledger' : LedgerNumber}
    (h : Closed history ledger) (hle : ledger' ≤ ledger) : Closed history ledger' := by
  obtain ⟨m, hm, hcloses⟩ := h
  refine ⟨m, hm, ?_⟩
  cases hcloses with
  | health hh h => exact .health hh (UInt32.le_trans hle h)
  | page h => exact .page (UInt32.le_trans hle h)

end

def Pending.current? : Pending → Option LedgerNumber
  | liveHealth (.following ledger) => some ledger
  | events poll => some poll.ledger
  | verdict _ _ (.page poll _ _) => some poll.ledger
  | pause _ (.atTip ledger _) => some ledger
  | pause _ (.betweenPages poll) => some poll.ledger
  | _ => none

def Poll.Named (poll : Poll) : Prop :=
  ∀ ledger, poll.request.start = some ledger → ledger = poll.ledger

def Wait.Named : Wait → Prop
  | betweenPages poll => poll.Named
  | atTip .. | betweenBatches .. => True

variable {a : Assignment} {signals : Signals} {sink sink' : Sink} {point point' : Point}
  {pending : Pending} {history : List (Moment a)} {ledger latest : LedgerNumber}

namespace Assignment

def lengthOf (a : Assignment) : Wait → UInt64
  | .atTip .. => a.config.liveWait
  | .betweenPages _ => a.config.pagingWait
  | .betweenBatches .. => a.config.archivalWait

def Regular (a : Assignment) : Point → Prop
  | .requesting poll => poll.Named
  | .resting milliseconds wait =>
    (milliseconds = 0 ∨ milliseconds = a.lengthOf wait) ∧ wait.Named
  | .asking (.events poll) => poll.Named
  | .asking (.pause milliseconds wait) =>
    milliseconds ≠ 0 ∧ milliseconds = a.lengthOf wait ∧ wait.Named
  | _ => True

theorem Hears.regular {reply : (pending.question a).Reply}
    (h : a.Hears signals sink pending reply sink' point) (hr : a.Regular (.asking pending)) :
    a.Regular point := by
  cases h with
  | unclosed => exact ⟨.inr rfl, trivial⟩
  | closed => exact fun ledger h => (Option.some.inj h).symm
  | rested => exact ⟨.inl rfl, hr.2.2⟩
  | failed | tipPast | stopped | ahead | within | refused | below | archiveAhead | archiveReady
    | ledgers | events | accepted => exact trivial

theorem Moves.regular (h : a.Moves signals sink point sink' point') (hr : a.Regular point) :
    a.Regular point' := by
  cases h with
  | nextBatch | restAtTip => exact ⟨.inr rfl, trivial⟩
  | nextPage => exact ⟨.inr rfl, fun ledger h => by cases h⟩
  | beginPoll => exact fun ledger h => (Option.some.inj h).symm
  | askPage => exact hr
  | @proceed wait =>
    cases wait with
    | betweenPages poll => exact hr.2
    | atTip | betweenBatches => exact trivial
  | pause _ hne => exact ⟨hne, hr.1.resolve_left hne, hr.2⟩
  | _ => exact trivial

theorem Reaches.regular {p : Progress} (h : a.Reaches history p) : a.Regular p.point := by
  refine h.invariant (I := fun _ _ point => a.Regular point) ?_ (fun _ hr h => h.regular hr)
    fun hr h => h.regular hr
  rcases begin_cases a with ⟨_, _, -, hbegin⟩ | ⟨-, ⟨-, hbegin⟩ | ⟨_, -, -, hbegin⟩⟩
  all_goals exact hbegin ▸ trivial

/-- What a run waits for while a ledger is not known to be closed: the end of a wait, or the live
node's health. -/
inductive Lingers (a : Assignment) (ledger : LedgerNumber) : Pending → Prop
  | resting {latest : LedgerNumber} (h : latest < ledger) (hne : a.config.liveWait ≠ 0) :
      Lingers a ledger (.pause a.config.liveWait (.atTip ledger latest))
  | looking : Lingers a ledger (.liveHealth (.following ledger))

theorem Lingers.current? (h : a.Lingers ledger pending) : pending.current? = some ledger := by
  cases h <;> rfl

/-- Every other answer that a run waits for at a ledger shows that the ledger is closed. -/
theorem Reaches.lingers (hkind : a.request.kind ≠ .archive)
    (h : a.Reaches history (.waiting sink pending)) (hcurrent : pending.current? = some ledger)
    (hopen : ¬Closed history ledger) : a.Lingers ledger pending := by
  have hstands := h.stands hkind
  have hhealthy := (h.healths hkind (by simp [failed])).2
  have hpolls {poll : Poll} (hp : a.Polls history poll) (heq : poll.ledger = ledger) : False :=
    hopen ((hp.known.closed hhealthy).mono (heq ▸ hp.closed))
  cases pending with
  | liveHealth use =>
    cases use with
    | choosing => cases hcurrent
    | following => exact Option.some.inj hcurrent ▸ .looking
  | events => exact (hpolls hstands (Option.some.inj hcurrent)).elim
  | verdict raw event origin =>
    cases origin with
    | page => exact (hpolls hstands.1 (Option.some.inj hcurrent)).elim
    | batch => cases hcurrent
  | pause milliseconds wait =>
    cases wait with
    | atTip next latest =>
      obtain rfl := Option.some.inj hcurrent
      obtain ⟨hne, rfl, -⟩ := h.regular
      refine .resting (UInt32.not_le.mp fun hle => hopen ?_) hne
      exact (hstands.2.closed hhealthy).mono hle
    | betweenPages => exact (hpolls hstands (Option.some.inj hcurrent)).elim
    | betweenBatches => cases hcurrent
  | archiveHealth | ledgers => cases hcurrent

end Assignment

def turn (wait : UInt64) : Question → Question
  | .health .live => if wait = 0 then .health .live else .pause wait
  | _ => .health .live

/-- The questions take turns: one live wait, one look at the live node's health. -/
structure TakesTurns (wait : UInt64) (questions : List Question) : Prop where
  each : ∀ q ∈ questions, q = .health .live ∨ q = .pause wait
  next : questions.IsChain fun q q' => q' = turn wait q

theorem TakesTurns.snoc {wait : UInt64} {questions : List Question} {q q' : Question}
    (h : TakesTurns wait (questions ++ [q])) (hnext : q' = turn wait q)
    (hq' : q' = .health .live ∨ q' = .pause wait) : TakesTurns wait (questions ++ [q] ++ [q']) := by
  refine ⟨fun x hx => ?_, ?_⟩
  · rcases List.mem_append.mp hx with hx | hx
    · exact h.each x hx
    · exact List.mem_singleton.mp hx ▸ hq'
  · refine List.isChain_append.mpr ⟨h.next, List.isChain_singleton _, fun x hx y hy => ?_⟩
    obtain rfl : q = x := by simpa using hx
    obtain rfl : q' = y := by simpa using hy
    exact hnext

namespace Assignment

theorem follow_lingers (hin : a.pastStop ledger = false) (hs : signals.stop = false)
    (hlt : latest < ledger) (sink : Sink) :
    a.follow signals sink ledger latest = .waiting sink (.liveHealth (.following ledger)) := by
  rw [follow, if_neg (by simp [hin]), if_neg (by simp [hs]), if_pos hlt]

theorem Lingers.resume (h : a.Lingers ledger pending) (hin : a.pastStop ledger = false)
    (hs : signals.stop = false) {reply : (pending.question a).Reply}
    (hopen : ¬Moment.Closes ⟨pending, signals, reply⟩ ledger)
    (hfails : ∀ error, ¬Moment.Fails ⟨pending, signals, reply⟩ error) (sink : Sink) :
    ∃ pending', a.resume signals sink pending reply = .waiting sink pending' ∧
      a.Lingers ledger pending' ∧
      pending'.question a = turn a.config.liveWait (pending.question a) := by
  cases h with
  | @resting latest hlt hne =>
    have hfollow := follow_lingers hin hs hlt sink
    refine ⟨_, ?_, .looking, rfl⟩
    rw [Assignment.resume, if_neg (by simp [hs])]
    exact hfollow
  | looking =>
    cases reply with
    | error failure => exact absurd .live (hfails _)
    | ok health =>
      have hhealthy : health.healthy = true := by
        cases hh : health.healthy with
        | true => rfl
        | false => exact absurd (.liveUnhealthy hh) (hfails _)
      have hlt : health.latest < ledger :=
        UInt32.not_le.mp fun hle => hopen (.health hhealthy hle)
      have hresume : a.resume signals sink (.liveHealth (.following ledger)) (.ok health) =
          a.wait signals sink a.config.liveWait (.atTip ledger health.latest) := by
        simp [Assignment.resume, withHealth, followTo, hhealthy, hlt]
      rw [hresume, Assignment.wait, if_neg (by simp [hs])]
      split
      · rename_i hzero
        exact ⟨_, follow_lingers hin hs hlt sink, .looking, (if_pos hzero).symm⟩
      · rename_i hne
        exact ⟨_, rfl, .resting hlt hne, (if_neg hne).symm⟩

theorem Lingers.turn (h : a.Lingers ledger pending) :
    pending.question a = .health .live ∨ pending.question a = .pause a.config.liveWait := by
  cases h with
  | resting => exact .inr rfl
  | looking => exact .inl rfl

/-- Until a ledger is closed, an answer fails or a stop is asked for, the run takes turns. -/
theorem Lingers.takes_turns (h : a.Lingers ledger pending)
    (hw : a.Reaches history (.waiting sink pending)) {later : List (Moment a)} {p : Progress}
    (hp : a.Reaches (later ++ history) p)
    (hlater : ∀ m ∈ later, m.signals.stop = false ∧ ¬m.Closes ledger ∧ ∀ error, ¬m.Fails error) :
    ∃ pending', p = .waiting sink pending' ∧ a.Lingers ledger pending' ∧
      TakesTurns a.config.liveWait (asked later ++ [pending'.question a]) := by
  induction later generalizing p with
  | nil =>
    refine ⟨pending, hp.unique hw, h, ?_, List.isChain_singleton _⟩
    simpa using h.turn
  | cons m later ih =>
    cases hp with
    | @resume _ _ pending' hp signals reply =>
      obtain ⟨hs, hopen, hfails⟩ := hlater _ (List.mem_cons_self ..)
      obtain ⟨_, heq, hlingers, hturns⟩ := ih hp fun m hm => hlater m (List.mem_cons_of_mem _ hm)
      obtain ⟨rfl, rfl⟩ := Progress.waiting.inj heq
      have hin : a.pastStop ledger = false := by
        have hplaced := hp.placed
        cases hlingers with
        | resting => exact hplaced.within
        | looking => exact hplaced.within
      obtain ⟨pending'', hresume, hlingers', hquestion⟩ :=
        hlingers.resume hin hs hopen hfails _
      refine ⟨pending'', hresume, hlingers', ?_⟩
      rw [asked_cons]
      exact hturns.snoc hquestion hlingers'.turn

end Assignment

/-- A ledger is asked for by its number only after the live node has reported that it is closed.
Until then the run at that ledger takes turns between one live wait and one look at the tip, as long
as nothing fails and no stop is asked for. -/
theorem polled_once_closed (hkind : a.request.kind ≠ .archive)
    (h : a.Reaches history (.waiting sink pending)) :
    (∀ request ledger, pending.question a = .events request → request.start = some ledger →
      Closed history ledger) ∧
    ∀ ledger, pending.current? = some ledger → ¬Closed history ledger →
      ∀ later p, a.Reaches (later ++ history) p →
        (∀ m ∈ later, m.signals.stop = false ∧ ¬m.Closes ledger ∧ ∀ error, ¬m.Fails error) →
        ∃ pending', p = .waiting sink pending' ∧ pending'.current? = some ledger ∧
          TakesTurns a.config.liveWait (asked later ++ [pending'.question a]) := by
  refine ⟨fun request ledger hquestion hstart => ?_,
    fun ledger hcurrent hopen later p hp hlater => ?_⟩
  · cases pending with
    | events poll =>
      obtain rfl := Question.events.inj hquestion
      obtain rfl := h.regular ledger hstart
      have hpolls : a.Polls history poll := h.stands hkind
      exact (hpolls.known.closed (h.healths hkind (by simp [Assignment.failed])).2).mono
        hpolls.closed
    | liveHealth | archiveHealth | ledgers | verdict | pause => cases hquestion
  · obtain ⟨pending', rfl, hlingers, hturns⟩ :=
      (h.lingers hkind hcurrent hopen).takes_turns h hp hlater
    exact ⟨pending', rfl, hlingers.current?, hturns⟩

def stalled : Assignment where
  request := .live (some 5) none
  config := { EngineConfig.default with retentionMargin := 0 }
  decoder := .standard
  live := "live"
  archive := none

def stalledHistory : List (Moment stalled) :=
  [⟨.events ⟨5, 5, .ofLedger 5 [] 100⟩, ⟨false, []⟩, .ok ⟨[], 5, none⟩⟩,
    ⟨.liveHealth (.choosing (some 5)), ⟨false, []⟩, .ok ⟨true, 1, 5, 4⟩⟩]

def stalledLater : List (Moment stalled) :=
  [⟨.liveHealth (.following 6), ⟨false, []⟩, .ok ⟨true, 1, 4, 3⟩⟩,
    ⟨.pause 5000 (.atTip 6 5), ⟨false, []⟩, ()⟩]

theorem stalled_polled_once_closed :
    ∃ (sink : Sink) (pending : Pending), stalled.request.kind ≠ .archive ∧
      stalled.Reaches stalledHistory (.waiting sink (.pause 5000 (.atTip 6 5))) ∧
      ¬Closed stalledHistory 6 ∧
      stalled.Reaches (stalledLater ++ stalledHistory) (.waiting sink pending) ∧
      TakesTurns 5000 (asked stalledLater ++ [pending.question stalled]) := by
  have hpage := Assignment.Reaches.replayed (a := stalled)
    (stalledHistory.reverse.map Moment.answer) rfl
  have hlook := Assignment.Reaches.replayed (a := stalled)
    ((stalledLater ++ stalledHistory).reverse.map Moment.answer) rfl
  have hopen : ¬Closed stalledHistory 6 := by
    rintro ⟨m, hm, hcloses⟩
    rcases List.mem_pair.mp hm with rfl | rfl
    · cases hcloses with
      | page h => exact absurd h (by decide)
    · cases hcloses with
      | health _ h => exact absurd h (by decide)
  have hlater : ∀ m ∈ stalledLater,
      m.signals.stop = false ∧ ¬m.Closes 6 ∧ ∀ error, ¬m.Fails error := by
    intro m hm
    rcases List.mem_pair.mp hm with rfl | rfl
    · refine ⟨rfl, fun h => ?_, fun error h => ?_⟩
      · cases h with
        | health _ h => exact absurd h (by decide)
      · cases h with
        | liveUnhealthy h => cases h
    · refine ⟨rfl, fun h => ?_, fun error h => ?_⟩
      · cases h
      · cases h
  obtain ⟨pending, hp, -, hturns⟩ :=
    (polled_once_closed (by decide) hpage).2 6 rfl hopen stalledLater _ hlook hlater
  exact ⟨_, pending, by decide, hpage, hopen, hp ▸ hlook, hturns⟩

end LedgerFeed
