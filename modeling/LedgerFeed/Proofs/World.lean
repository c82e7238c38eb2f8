import LedgerFeed.Engine.Basic
import LedgerFeed.Run.History

/-! Worlds that a run can find itself in: how the signals stand and what is answered at every point
of its history. A world leads a run on from wherever it stands, and a run that ends in a world has
one history there. -/

namespace LedgerFeed

structure World (a : Assignment) where
  signals : List (Moment a) → Signals
  reply : List (Moment a) → (q : Question) → q.Reply

variable {a : Assignment}

def asked (history : List (Moment a)) : List Question :=
  history.reverse.map Moment.question

@[simp] theorem asked_nil : asked ([] : List (Moment a)) = [] := rfl

@[simp] theorem asked_append (later earlier : List (Moment a)) :
    asked (later ++ earlier) = asked earlier ++ asked later := by
  simp [asked]

@[simp] theorem asked_cons (m : Moment a) (earlier : List (Moment a)) :
    asked (m :: earlier) = asked earlier ++ [m.question] := by
  simp [asked]

def Question.event? : Question → Option ContractEvent
  | handle event => some event
  | _ => none

def Question.ledgers? : Question → Option LedgersRequest
  | ledgers request => some request
  | _ => none

def received (history : List (Moment a)) : List ContractEvent :=
  (asked history).filterMap Question.event?

def healthAsked (history : List (Moment a)) : Nat :=
  (asked history).count (.health .live)

def ledgersAsked (history : List (Moment a)) : List LedgersRequest :=
  (asked history).filterMap Question.ledgers?

@[simp] theorem received_append (later earlier : List (Moment a)) :
    received (later ++ earlier) = received earlier ++ received later := by
  simp [received]

theorem received_cons (m : Moment a) (earlier : List (Moment a)) :
    received (m :: earlier) = received earlier ++ m.question.event?.toList := by
  rw [received, asked_cons, List.filterMap_append]
  cases h : m.question.event? <;> simp [received, h]

@[simp] theorem healthAsked_append (later earlier : List (Moment a)) :
    healthAsked (later ++ earlier) = healthAsked earlier + healthAsked later := by
  simp [healthAsked]

@[simp] theorem ledgersAsked_append (later earlier : List (Moment a)) :
    ledgersAsked (later ++ earlier) = ledgersAsked earlier ++ ledgersAsked later := by
  simp [ledgersAsked]

def Idle (moments : List (Moment a)) : Prop :=
  ∀ q ∈ asked moments, ∃ milliseconds, q = .pause milliseconds

theorem idle_nil : Idle ([] : List (Moment a)) := by
  simp [Idle]

theorem Idle.received {moments : List (Moment a)} (h : Idle moments) : received moments = [] := by
  apply List.filterMap_eq_nil_iff.mpr
  intro q hq
  obtain ⟨_, rfl⟩ := h q hq
  rfl

theorem Idle.ledgersAsked {moments : List (Moment a)} (h : Idle moments) :
    ledgersAsked moments = [] := by
  apply List.filterMap_eq_nil_iff.mpr
  intro q hq
  obtain ⟨_, rfl⟩ := h q hq
  rfl

theorem Idle.healthAsked {moments : List (Moment a)} (h : Idle moments) :
    healthAsked moments = 0 := by
  apply List.count_eq_zero.mpr
  intro hq
  obtain ⟨_, hp⟩ := h _ hq
  cases hp

def paused (milliseconds : UInt64) : List Question :=
  if milliseconds = 0 then [] else [.pause milliseconds]

theorem idle_of_paused {moments : List (Moment a)} {milliseconds : UInt64}
    (h : asked moments = paused milliseconds) : Idle moments := by
  intro q hq
  rw [h, paused] at hq
  split at hq
  · cases hq
  · exact ⟨milliseconds, List.mem_singleton.mp hq⟩

def errands (history : List (Moment a)) : List Question :=
  (asked history).filter fun q => q.event?.isNone

@[simp] theorem errands_append (later earlier : List (Moment a)) :
    errands (later ++ earlier) = errands earlier ++ errands later := by
  simp [errands]

theorem errands_of_handle {moments : List (Moment a)} {events : List ContractEvent}
    (h : asked moments = events.map .handle) : errands moments = [] := by
  simp [errands, h, Question.event?]

theorem Idle.errands {moments : List (Moment a)} (h : Idle moments) :
    errands moments = asked moments := by
  refine List.filter_eq_self.mpr fun q hq => ?_
  obtain ⟨_, rfl⟩ := h q hq
  rfl

theorem received_of_handle {moments : List (Moment a)} {events : List ContractEvent}
    (h : asked moments = events.map .handle) : received moments = events := by
  rw [received, h, List.filterMap_map]
  exact List.filterMap_some

theorem ledgersAsked_of_handle {moments : List (Moment a)} {events : List ContractEvent}
    (h : asked moments = events.map .handle) : ledgersAsked moments = [] := by
  simp [ledgersAsked, h, Question.ledgers?]

namespace World

def moment (w : World a) (before : List (Moment a)) (pending : Pending) : Moment a :=
  ⟨pending, w.signals before, w.reply before (pending.question a)⟩

def Makes (w : World a) : List (Moment a) → Prop
  | [] => True
  | m :: before => m = w.moment before m.pending ∧ w.Makes before

/-- The world leads a run with a history from one point to another by further moments, latest
first. -/
inductive Leads (w : World a) : List (Moment a) → Progress → List (Moment a) → Progress → Prop
  | refl (before : List (Moment a)) (p : Progress) : Leads w before p [] p
  | step {before moments : List (Moment a)} {sink : Sink} {pending : Pending} {p : Progress}
      (h : Leads w (w.moment before pending :: before)
        (a.resume (w.signals before) sink pending (w.reply before (pending.question a)))
        moments p) :
      Leads w before (.waiting sink pending) (moments ++ [w.moment before pending]) p

variable {w : World a} {before moments later : List (Moment a)} {p q r : Progress}

theorem leads_moment (w : World a) (before : List (Moment a)) (sink : Sink) (pending : Pending) :
    w.Leads before (.waiting sink pending) [w.moment before pending]
      (a.resume (w.signals before) sink pending (w.reply before (pending.question a))) := by
  simpa using Leads.step (.refl ..)

theorem Leads.trans (h : w.Leads before p moments q) (h' : w.Leads (moments ++ before) q later r) :
    w.Leads before p (later ++ moments) r := by
  induction h with
  | refl => simpa using h'
  | step _ ih =>
    rw [← List.append_assoc]
    exact .step (ih (by simpa using h'))

theorem Leads.reaches (h : w.Leads before p moments q) (hp : a.Reaches before p) :
    a.Reaches (moments ++ before) q := by
  induction h with
  | refl => exact hp
  | step _ ih => simpa using ih (hp.resume _ _)

theorem Leads.makes (h : w.Leads before p moments q) (hb : w.Makes before) :
    w.Makes (moments ++ before) := by
  induction h with
  | refl => exact hb
  | step _ ih => simpa using ih ⟨rfl, hb⟩

theorem Leads.of_mem (h : w.Leads before p moments q) {m : Moment a} (hm : m ∈ moments) :
    ∃ history, m.signals = w.signals history ∧ m.reply = w.reply history m.question := by
  induction h with
  | refl => cases hm
  | @step before _ _ _ _ _ ih =>
    rcases List.mem_append.mp hm with hm | hm
    · exact ih hm
    · obtain rfl := List.mem_singleton.mp hm
      exact ⟨before, rfl, rfl⟩

theorem suffix_of_length_le {history history' : List (Moment a)}
    (h : a.Reaches history p) (hm : w.Makes history) (h' : a.Reaches history' q)
    (hm' : w.Makes history') (hle : history.length ≤ history'.length) : history <:+ history' := by
  -- the longer history is taken apart; if it is not longer, both end with the same moment
  induction h' generalizing history p with
  | begin =>
    obtain rfl : history = [] := by simpa using hle
    exact List.suffix_rfl
  | @resume before' _ _ hb signals reply ih =>
    obtain ⟨hmoment, hmb⟩ := hm'
    rcases Nat.lt_or_ge before'.length history.length with hlt | hge
    · cases h with
      | begin => simp at hlt
      | @resume before _ _ hc =>
        obtain ⟨hmoment', hmc⟩ := hm
        have hlen : before.length = before'.length := by
          simp only [List.length_cons] at hle hlt
          omega
        obtain rfl := (ih hc hmc hmb (Nat.le_of_eq hlen)).eq_of_length hlen
        obtain ⟨rfl, rfl⟩ := Progress.waiting.inj (hc.unique hb)
        exact hmoment.trans hmoment'.symm ▸ List.suffix_rfl
    · exact (ih h hm hmb hge).trans (List.suffix_cons _ _)

theorem eq_of_ended {history history' : List (Moment a)} {sink : Sink}
    {result : Except IngestError Exit} (h : a.Reaches history (.ended sink result))
    (hm : w.Makes history) (h' : a.Reaches history' q) (hm' : w.Makes history')
    (hle : history.length ≤ history'.length) : history = history' := by
  obtain ⟨later, rfl⟩ := suffix_of_length_le h hm h' hm' hle
  rcases List.eq_nil_or_concat later with rfl | ⟨earlier, m, rfl⟩
  · rfl
  · rw [List.concat_eq_append, List.append_assoc, List.singleton_append] at h'
    obtain ⟨_, hm⟩ := h'.of_append
    exact absurd hm (h.not_cons_of_ended m _)

def Ends (w : World a) (history : List (Moment a)) (summary : Summary) : Prop :=
  ∃ sink exit, w.Makes history ∧ a.Reaches history (.ended sink (.ok exit)) ∧
    (Engine.finish a.request.kind sink (.ok exit)).result = .ok summary

theorem ends_of_leads {sink : Sink} {exit : Exit}
    (h : w.Leads [] a.begin moments (.ended sink (.ok exit))) :
    w.Ends moments ⟨exit.outcome, sink.delivered, exit.resume⟩ := by
  refine ⟨sink, exit, ?_, ?_, rfl⟩
  · simpa using h.makes trivial
  · simpa using h.reaches .begin

theorem history_eq_of_ended {history history' : List (Moment a)} {sink sink' : Sink}
    {result result' : Except IngestError Exit} (h : a.Reaches history (.ended sink result))
    (hm : w.Makes history) (h' : a.Reaches history' (.ended sink' result'))
    (hm' : w.Makes history') : history = history' := by
  rcases Nat.le_total history.length history'.length with hle | hle
  · exact eq_of_ended h hm h' hm' hle
  · exact (eq_of_ended h' hm' h hm hle).symm

section

variable {sink : Sink}

theorem leads_ledgers {next target : LedgerNumber} {page : LedgersPage}
    (hr : w.reply before (.ledgers (a.batchRequest next target)) = .ok page)
    (h : w.Leads (w.moment before (.ledgers next target) :: before)
      (a.offerBatch (w.signals before) (sink.measure (.page .backfill))
        ⟨next, target, next, page.latest, (w.signals before).filters⟩ page.ledgers) moments p) :
    w.Leads before (.waiting sink (.ledgers next target))
      (moments ++ [w.moment before (.ledgers next target)]) p := by
  refine .step ?_
  rw [show w.reply before ((Pending.ledgers next target).question a) = .ok page from hr]
  exact h

theorem leads_of_ledgers_error {next target : LedgerNumber} {failure : NodeFailure}
    (hr : w.reply before (.ledgers (a.batchRequest next target)) = .error failure) :
    w.Leads before (.waiting sink (.ledgers next target)) [w.moment before (.ledgers next target)]
      (Assignment.failed sink (.node a.archiveEndpoint failure)) := by
  refine @Leads.step a w before [] _ _ _ ?_
  rw [show w.reply before ((Pending.ledgers next target).question a) = .error failure from hr]
  exact .refl ..

theorem leads_events {poll : Poll} {page : EventsPage}
    (hr : w.reply before (.events poll.request) = .ok page)
    (h : w.Leads (w.moment before (.events poll) :: before)
      (a.offerPage (w.signals before) (sink.measure (.page .live)) poll page
        (page.ofLedger poll.ledger)) moments p) :
    w.Leads before (.waiting sink (.events poll))
      (moments ++ [w.moment before (.events poll)]) p := by
  refine .step ?_
  rw [show w.reply before ((Pending.events poll).question a) = .ok page from hr]
  exact h

theorem leads_archive {start stop : LedgerNumber} (hrequest : a.request = .archive start stop)
    {health : Health} (hr : w.reply [] (.health .archive) = .ok health)
    (hhealthy : health.healthy = true) (hlatest : start ≤ health.latest)
    (h : w.Leads [w.moment [] (.archiveHealth start stop)]
      (a.backfill (w.signals []) (.ofCapacity a.config.dedupCapacity .backfill) start stop)
      moments p) :
    w.Leads [] a.begin (moments ++ [w.moment [] (.archiveHealth start stop)]) p := by
  rw [Assignment.begin, hrequest]
  refine .step ?_
  rw [show w.reply [] ((Pending.archiveHealth start stop).question a) = .ok health from hr]
  change w.Leads _ (Assignment.withHealth _ _ (a.beginArchive _ _ _ _) (.ok _)) _ _
  rw [Assignment.withHealth, if_pos hhealthy, Assignment.beginArchive,
    if_neg (UInt32.not_lt.mpr hlatest)]
  exact h

theorem endBackfill_of_archive {start stop : LedgerNumber}
    (hrequest : a.request = .archive start stop) (target : LedgerNumber) :
    a.endBackfill sink target = Assignment.completed sink target.following := by
  rw [Assignment.endBackfill, hrequest]

theorem wait_leads_paused {P : Signals → Prop} (hP : ∀ {signals}, P signals → signals.stop = false)
    (hw : ∀ history, P (w.signals history)) {signals : Signals} (hs : P signals)
    (before : List (Moment a)) (sink : Sink) (milliseconds : UInt64) (wait : Wait) :
    ∃ moments signals', P signals' ∧
      w.Leads before (a.wait signals sink milliseconds wait) moments
        (a.proceed signals' sink wait) ∧ asked moments = paused milliseconds := by
  rw [Assignment.wait, if_neg (by simp [hP hs]), paused]
  split
  · exact ⟨[], signals, hs, .refl .., rfl⟩
  · refine ⟨[w.moment before (.pause milliseconds wait)], w.signals before, hw before, ?_, rfl⟩
    have h := leads_moment w before sink (.pause milliseconds wait)
    simpa only [Assignment.resume, Reckoning.of_progress, hP (hw before), Bool.false_eq_true,
      if_false] using h

theorem wait_leads {P : Signals → Prop} (hP : ∀ {signals}, P signals → signals.stop = false)
    (hw : ∀ history, P (w.signals history)) {signals : Signals} (hs : P signals)
    (before : List (Moment a)) (sink : Sink) (milliseconds : UInt64) (wait : Wait) :
    ∃ moments signals', P signals' ∧
      w.Leads before (a.wait signals sink milliseconds wait) moments
        (a.proceed signals' sink wait) ∧ Idle moments := by
  obtain ⟨moments, signals', hs', hl, ha⟩ :=
    wait_leads_paused hP hw hs before sink milliseconds wait
  exact ⟨moments, signals', hs', hl, idle_of_paused ha⟩

end

end World
end LedgerFeed
