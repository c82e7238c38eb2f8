import LedgerFeed.Run.History

/-! Where a run that uses the live node can stand. It never goes back behind its start, it follows
the tip at most one ledger ahead of what the live node reported, and it backfills up to the window
of a health that was reported. -/

namespace LedgerFeed

variable {a : Assignment}

def Moment.health? : Moment a → Option Health
  | ⟨.liveHealth _, _, .ok health⟩ => some health
  | _ => none

def Moment.tip? : Moment a → Option LedgerNumber
  | ⟨.liveHealth _, _, .ok health⟩ => some health.latest
  | ⟨.events _, _, .ok page⟩ => some page.latest
  | _ => none

def healths (history : List (Moment a)) : List Health :=
  history.filterMap Moment.health?

def tips (history : List (Moment a)) : List LedgerNumber :=
  history.filterMap Moment.tip?

theorem healths_cons (m : Moment a) (earlier : List (Moment a)) :
    healths (m :: earlier) = m.health?.toList ++ healths earlier := by
  rw [healths, List.filterMap_cons]
  cases m.health? <;> rfl

namespace Assignment

/-- The first ledger of a run: its start, or else the tip that was reported first. -/
def firstLedger? (a : Assignment) (history : List (Moment a)) : Option LedgerNumber :=
  a.request.start?.or ((healths history).getLast?.map Health.latest)

theorem firstLedger?_cons {history : List (Moment a)} {first : LedgerNumber}
    (h : a.firstLedger? history = some first) (m : Moment a) :
    a.firstLedger? (m :: history) = some first := by
  unfold firstLedger? at h ⊢
  rw [healths_cons]
  cases hstart : a.request.start? with
  | some start => rwa [hstart] at h
  | none =>
    rw [hstart, Option.none_or, Option.map_eq_some_iff] at h
    obtain ⟨health, hlast, hfirst⟩ := h
    rw [Option.none_or, List.getLast?_append, hlast]
    exact congrArg some hfirst

def Known (history : List (Moment a)) (ledger : LedgerNumber) : Prop :=
  ∃ tip ∈ tips history, ledger ≤ tip

/-- A ledger at which the run may be resumed. -/
structure Standing (a : Assignment) (history : List (Moment a)) (ledger : LedgerNumber) : Prop where
  ge : ∀ start, a.request.start? = some start → start ≤ ledger
  le : a.request.start? = some ledger ∨ (∃ tip ∈ tips history, ledger.toNat ≤ tip.toNat + 1) ∨
    a.archive.isSome = true ∧
      ∃ health ∈ healths history, ledger ≤ health.oldestAvailable a.config.retentionMargin

structure Chosen (a : Assignment) (history : List (Moment a)) (ledger : LedgerNumber) : Prop where
  ge : ∀ start, a.request.start? = some start → start ≤ ledger
  within : a.pastStop ledger = false
  origin : a.request.start? = some ledger ∨ a.archive.isSome = true ∧
    ∃ health ∈ healths history, ledger = health.oldestAvailable a.config.retentionMargin

structure Backfills (a : Assignment) (history : List (Moment a)) (next target : LedgerNumber) :
    Prop where
  ge : ∀ start, a.request.start? = some start → start ≤ next ∧ start ≤ target
  le : next.toNat ≤ target.toNat + 1
  archive : a.archive.isSome = true
  window : ∃ health ∈ healths history, target < health.oldestAvailable a.config.retentionMargin ∧
    (target.following = health.oldestAvailable a.config.retentionMargin ∨
      a.pastStop target.following = true)

structure Polls (a : Assignment) (history : List (Moment a)) (poll : Poll) : Prop where
  standing : a.Standing history poll.ledger
  closed : poll.ledger ≤ poll.latest
  known : Known history poll.latest

def Awaits (a : Assignment) (history : List (Moment a)) : Pending → Prop
  | .liveHealth (.choosing none) => a.request.start? = none
  | .liveHealth (.choosing (some ledger)) => a.Chosen history ledger
  | .liveHealth (.following ledger) => a.Standing history ledger
  | .archiveHealth .. => False
  | .ledgers next target => a.Backfills history next target
  | .events poll => a.Polls history poll
  | .verdict _ _ (.page poll page _) => a.Polls history poll ∧ Known history page.latest
  | .verdict _ _ (.batch b _ _) => a.Backfills history b.expected b.target ∧ b.expected ≤ b.target
  | .pause _ (.atTip ledger latest) => a.Standing history ledger ∧ Known history latest
  | .pause _ (.betweenPages poll) => a.Polls history poll
  | .pause _ (.betweenBatches next target) => a.Backfills history next target

def Refused (a : Assignment) (history : List (Moment a)) : IngestError → Prop
  | .aheadOfTip first latest => latest < first ∧
      (∃ health ∈ healths history, latest = health.latest) ∧
      (a.request.start? = some first ∨ a.archive.isSome = true ∧
        ∃ health ∈ healths history, first = health.oldestAvailable a.config.retentionMargin)
  | .notRetained first oldest latest => a.archive = none ∧
      (∀ start, a.request.start? = some start → start = first) ∧
      ∃ health ∈ healths history, oldest = health.oldestAvailable a.config.retentionMargin ∧
        latest = health.latest ∧ first < oldest ∧ first ≤ latest
  | _ => True

/-- The invariant of a run, wherever it is. -/
def Stands (a : Assignment) (history : List (Moment a)) : Progress → Prop
  | .ended _ (.ok exit) => a.Standing history exit.resume
  | .ended _ (.error error) => a.Refused history error
  | .waiting _ pending => a.Awaits history pending

variable {history : List (Moment a)} {ledger next target latest : LedgerNumber} {poll : Poll}

theorem Known.cons (h : Known history ledger) (m : Moment a) : Known (m :: history) ledger := by
  obtain ⟨tip, htip, hle⟩ := h
  exact ⟨tip, ((List.sublist_cons_self m history).filterMap _).subset htip, hle⟩

theorem mem_healths_cons {health : Health} (h : health ∈ healths history) (m : Moment a) :
    health ∈ healths (m :: history) :=
  ((List.sublist_cons_self m history).filterMap _).subset h

theorem Standing.cons (h : a.Standing history ledger) (m : Moment a) :
    a.Standing (m :: history) ledger := by
  refine ⟨h.ge, ?_⟩
  rcases h.le with hstart | ⟨tip, htip, hle⟩ | ⟨ha, health, hh, hle⟩
  · exact .inl hstart
  · exact .inr (.inl ⟨tip, ((List.sublist_cons_self m history).filterMap _).subset htip, hle⟩)
  · exact .inr (.inr ⟨ha, health, mem_healths_cons hh m, hle⟩)

theorem Backfills.cons (h : a.Backfills history next target) (m : Moment a) :
    a.Backfills (m :: history) next target := by
  obtain ⟨health, hh, hwindow⟩ := h.window
  exact ⟨h.ge, h.le, h.archive, health, mem_healths_cons hh m, hwindow⟩

theorem Polls.cons (h : a.Polls history poll) (m : Moment a) : a.Polls (m :: history) poll :=
  ⟨h.standing.cons m, h.closed, h.known.cons m⟩

theorem Chosen.cons (h : a.Chosen history ledger) (m : Moment a) :
    a.Chosen (m :: history) ledger := by
  refine ⟨h.ge, h.within, ?_⟩
  rcases h.origin with hstart | ⟨ha, health, hh, heq⟩
  · exact .inl hstart
  · exact .inr ⟨ha, health, mem_healths_cons hh m, heq⟩

theorem Chosen.standing (h : a.Chosen history ledger) : a.Standing history ledger := by
  refine ⟨h.ge, ?_⟩
  rcases h.origin with hstart | ⟨ha, health, hh, rfl⟩
  · exact .inl hstart
  · exact .inr (.inr ⟨ha, health, hh, UInt32.le_refl _⟩)

theorem Backfills.standing (h : a.Backfills history next target) : a.Standing history next := by
  obtain ⟨health, hh, hlt, -⟩ := h.window
  refine ⟨fun start hstart => (h.ge start hstart).1, .inr (.inr ⟨h.archive, health, hh, ?_⟩)⟩
  have hle := h.le
  have hlt := UInt32.lt_iff_toNat_lt.mp hlt
  exact UInt32.le_iff_toNat_le.mpr (by omega)

theorem Awaits.cons {pending : Pending} (h : a.Awaits history pending) (m : Moment a) :
    a.Awaits (m :: history) pending := by
  cases pending with
  | liveHealth use =>
    rcases use with (_ | ledger) | ledger
    · exact h
    · exact Chosen.cons h m
    · exact Standing.cons h m
  | archiveHealth => exact h
  | ledgers => exact Backfills.cons h m
  | events => exact Polls.cons h m
  | verdict _ _ origin =>
    cases origin with
    | page => exact ⟨h.1.cons m, h.2.cons m⟩
    | batch => exact ⟨h.1.cons m, h.2⟩
  | pause _ wait =>
    cases wait with
    | atTip => exact ⟨h.1.cons m, h.2.cons m⟩
    | betweenPages => exact Polls.cons h m
    | betweenBatches => exact Backfills.cons h m

theorem choose_stands (hs : a.Standing history ledger)
    (ho : a.pastStop ledger = false → a.Chosen history ledger) (sink : Sink) :
    a.Stands history (a.choose sink (some ledger)) := by
  rw [choose]
  split
  · exact hs
  · rename_i hpast
    exact ho (by simpa using hpast)

theorem requestPage_stands (h : a.Polls history poll) (signals : Signals) (sink : Sink) :
    a.Stands history (requestPage signals sink poll) := by
  unfold requestPage
  split
  · exact h.standing
  · exact h

theorem beginPoll_stands (hs : a.Standing history ledger) (hle : ledger ≤ latest)
    (hk : Known history latest) (signals : Signals) (sink : Sink) :
    a.Stands history (a.beginPoll signals sink ledger latest) :=
  requestPage_stands ⟨hs, hle, hk⟩ signals _

theorem follow_stands (hs : a.Standing history ledger) (hk : Known history latest)
    (signals : Signals) (sink : Sink) :
    a.Stands history (a.follow signals sink ledger latest) := by
  unfold follow
  split
  · exact hs
  split
  · exact hs
  split
  · exact hs
  · rename_i hlt
    exact beginPoll_stands hs (UInt32.not_lt.mp hlt) hk signals sink

theorem endBackfill_stands (hkind : a.request.kind ≠ .archive) (h : a.Backfills history next target)
    (sink : Sink) : a.Stands history (a.endBackfill sink target) := by
  obtain ⟨health, hh, hlt, hend⟩ := h.window
  have hnext := LedgerNumber.toNat_following_of_ne (LedgerNumber.ne_last_of_lt hlt)
  have hlt' := UInt32.lt_iff_toNat_lt.mp hlt
  have hge : ∀ start, a.request.start? = some start → start ≤ target.following := by
    intro start hstart
    have := UInt32.le_iff_toNat_le.mp (h.ge start hstart).2
    exact UInt32.le_iff_toNat_le.mpr (by omega)
  have hchoose : a.Stands history (a.choose sink (some target.following)) := by
    refine choose_stands ⟨hge, .inr (.inr ⟨h.archive, health, hh, ?_⟩)⟩ (fun hpast => ?_) sink
    · exact UInt32.le_iff_toNat_le.mpr (by omega)
    · refine ⟨hge, hpast, .inr ⟨h.archive, health, hh, ?_⟩⟩
      exact hend.resolve_right (by simp [hpast])
  unfold endBackfill
  split
  · rename_i hrequest
    exact absurd (by rw [hrequest]; rfl) hkind
  · exact hchoose

theorem backfill_stands (hkind : a.request.kind ≠ .archive) (h : a.Backfills history next target)
    (signals : Signals) (sink : Sink) :
    a.Stands history (a.backfill signals sink next target) := by
  unfold backfill
  split
  · exact endBackfill_stands hkind h sink
  split
  · exact h.standing
  · exact h

theorem Awaits.standing_wait {milliseconds : UInt64} {wait : Wait}
    (h : a.Awaits history (.pause milliseconds wait)) : a.Standing history wait.ledger := by
  cases wait with
  | atTip => exact h.1
  | betweenPages => exact Polls.standing h
  | betweenBatches => exact Backfills.standing h

theorem proceed_stands (hkind : a.request.kind ≠ .archive) {milliseconds : UInt64} {wait : Wait}
    (h : a.Awaits history (.pause milliseconds wait)) (signals : Signals) (sink : Sink) :
    a.Stands history (a.proceed signals sink wait) := by
  cases wait with
  | atTip => exact follow_stands h.1 h.2 signals sink
  | betweenPages => exact requestPage_stands h signals sink
  | betweenBatches => exact backfill_stands hkind h signals sink

theorem wait_stands (hkind : a.request.kind ≠ .archive) (milliseconds : UInt64) (wait : Wait)
    (h : a.Awaits history (.pause milliseconds wait)) (signals : Signals) (sink : Sink) :
    a.Stands history (a.wait signals sink milliseconds wait) := by
  unfold Assignment.wait
  split
  · exact h.standing_wait
  split
  · exact proceed_stands hkind h signals sink
  · exact h

theorem Known.sup (h : Known history ledger) (h' : Known history latest) :
    Known history (max ledger latest) := by
  rw [show max ledger latest = if ledger ≤ latest then latest else ledger from rfl]
  split
  · exact h'
  · exact h

theorem Polls.standing_following (h : a.Polls history poll) :
    a.Standing history poll.ledger.following := by
  have hnext := LedgerNumber.toNat_following poll.ledger
  have hsize := poll.ledger.toNat_lt_size
  refine ⟨fun start hstart => ?_, ?_⟩
  · have := UInt32.le_iff_toNat_le.mp (h.standing.ge start hstart)
    exact UInt32.le_iff_toNat_le.mpr (by omega)
  · obtain ⟨tip, htip, hle⟩ := h.known
    have hle := UInt32.le_iff_toNat_le.mp (UInt32.le_trans h.closed hle)
    exact .inr (.inl ⟨tip, htip, by omega⟩)

theorem endPoll_stands (hkind : a.request.kind ≠ .archive) (h : a.Polls history poll)
    (hk : Known history latest) (signals : Signals) (sink : Sink) :
    a.Stands history (a.endPoll signals sink poll latest) := by
  have hnext := h.standing_following
  unfold endPoll
  dsimp only
  split
  · exact hnext
  split
  · exact wait_stands hkind _ (.atTip ..) ⟨hnext, h.known.sup hk⟩ signals _
  · exact follow_stands hnext (h.known.sup hk) signals _

theorem endPage_stands (hkind : a.request.kind ≠ .archive) (h : a.Polls history poll)
    {page : EventsPage} (hk : Known history page.latest) (signals : Signals) (sink : Sink) :
    a.Stands history (a.endPage signals sink poll page) := by
  unfold endPage
  split
  · split
    · exact h.standing_following
    · exact endPoll_stands hkind h hk signals sink
  · split
    · refine wait_stands hkind _ (.betweenPages { poll with request := _ }) ?_ signals sink
      exact ⟨h.standing, h.closed, h.known⟩
    · exact endPoll_stands hkind h hk signals sink

theorem offerThen_stands (hs : a.Standing history ledger) {filters : List EventFilter}
    {origin : List RawEvent → Origin} {events : List RawEvent} {go : Sink → Progress}
    (hw : ∀ raw event rest, a.Awaits history (.verdict raw event (origin rest)))
    (hgo : ∀ sink, a.Stands history (go sink)) (signals : Signals) (sink : Sink) :
    a.Stands history (a.offerThen signals sink filters ledger origin events go) := by
  unfold offerThen
  split
  · exact hgo _
  · exact hw ..
  · exact hs
  · exact trivial

theorem offerPage_stands (hkind : a.request.kind ≠ .archive) (h : a.Polls history poll)
    {page : EventsPage} (hk : Known history page.latest) (rest : List RawEvent) (signals : Signals)
    (sink : Sink) : a.Stands history (a.offerPage signals sink poll page rest) := by
  have hw : ∀ raw event rest, a.Awaits history (.verdict raw event (.page poll page rest)) :=
    fun _ _ _ => ⟨h, hk⟩
  exact offerThen_stands h.standing hw (fun sink => endPage_stands hkind h hk signals sink) signals
    sink

theorem endBatch_stands (hkind : a.request.kind ≠ .archive) {b : Batch}
    (h : a.Backfills history b.expected b.target) (signals : Signals) (sink : Sink) :
    a.Stands history (a.endBatch signals sink b) := by
  unfold endBatch
  split
  · exact trivial
  dsimp only
  split
  · exact endBackfill_stands hkind h _
  · exact wait_stands hkind _ (.betweenBatches ..) h signals _

theorem Backfills.succ (h : a.Backfills history next target) (hle : next ≤ target)
    (hne : next ≠ .last) : a.Backfills history (next + 1) target := by
  have hnext := LedgerNumber.toNat_add_one hne
  have hle' := UInt32.le_iff_toNat_le.mp hle
  refine ⟨fun start hstart => ⟨?_, (h.ge start hstart).2⟩, by omega, h.archive, h.window⟩
  have := UInt32.le_iff_toNat_le.mp (h.ge start hstart).1
  exact UInt32.le_iff_toNat_le.mpr (by omega)

theorem offerBatch_stands (hkind : a.request.kind ≠ .archive) (ledgers : List RawLedger) {b : Batch}
    (h : a.Backfills history b.expected b.target) (signals : Signals) (sink : Sink) :
    a.Stands history (a.offerBatch signals sink b ledgers) := by
  induction ledgers generalizing b sink with
  | nil => exact endBatch_stands hkind h signals sink
  | cons l ledgers ih =>
    unfold offerBatch
    split
    · exact ih h sink
    split
    · exact endBatch_stands hkind h signals sink
    split
    · exact trivial
    -- the ledger is the expected one, and not above the target
    rename_i hmax hne
    rw [Decidable.not_not] at hne
    have hle : b.expected ≤ b.target := hne ▸ UInt32.not_lt.mp hmax
    split
    · exact trivial
    · have hw : ∀ raw event rest, a.Awaits history (.verdict raw event (.batch b rest ledgers)) :=
        fun _ _ _ => ⟨h, hle⟩
      refine offerThen_stands h.standing hw (fun sink => ?_) signals sink
      split
      · exact endBackfill_stands hkind h _
      · rename_i hlast
        exact ih (b := { b with expected := b.expected + 1 }) (h.succ hle hlast) sink

theorem offerLedger_stands (hkind : a.request.kind ≠ .archive) {b : Batch}
    (h : a.Backfills history b.expected b.target) (hle : b.expected ≤ b.target)
    (rest : List RawEvent) (ledgers : List RawLedger) (signals : Signals) (sink : Sink) :
    a.Stands history (a.offerLedger signals sink b rest ledgers) := by
  have hw : ∀ raw event rest, a.Awaits history (.verdict raw event (.batch b rest ledgers)) :=
    fun _ _ _ => ⟨h, hle⟩
  refine offerThen_stands h.standing hw (fun sink => ?_) signals sink
  split
  · exact endBackfill_stands hkind h _
  · rename_i hlast
    exact offerBatch_stands hkind ledgers (b := { b with expected := b.expected + 1 })
      (h.succ hle hlast) signals sink

theorem pastStop_eq_false_iff : a.pastStop ledger = false ↔
    ∀ stop, a.request.stop? = some stop → ledger ≤ stop := by
  unfold pastStop
  cases a.request.stop? <;> simp

theorem backfills_of_lt {first : LedgerNumber} {health : Health}
    (hge : ∀ start, a.request.start? = some start → start ≤ first)
    (hpast : a.pastStop first = false) (harchive : a.archive.isSome = true)
    (hh : health ∈ healths history)
    (hlt : first < health.oldestAvailable a.config.retentionMargin) :
    a.Backfills history first
      (match a.request.stop? with
        | some stop => min (health.oldestAvailable a.config.retentionMargin - 1) stop
        | none => health.oldestAvailable a.config.retentionMargin - 1) := by
  have hlast := LedgerNumber.sub_one_lt hlt
  -- the three targets differ only in how the backfill ends
  have hback {target : LedgerNumber} (hle : first ≤ target)
      (hmax : target < health.oldestAvailable a.config.retentionMargin)
      (hend : target.following = health.oldestAvailable a.config.retentionMargin ∨
        a.pastStop target.following = true) : a.Backfills history first target :=
    ⟨fun start hstart => ⟨hge start hstart, UInt32.le_trans (hge start hstart) hle⟩,
      Nat.le_succ_of_le (UInt32.le_iff_toNat_le.mp hle), harchive, health, hh, hmax, hend⟩
  split
  · rename_i stop hstop
    have hfirst := pastStop_eq_false_iff.mp hpast stop hstop
    rw [Std.min_eq_if]
    split
    · exact hback (LedgerNumber.le_sub_one hlt) hlast (.inl (LedgerNumber.following_sub_one hlt))
    · rename_i hmin
      have hbelow := UInt32.lt_trans (UInt32.not_le.mp hmin) hlast
      have hend : stop < stop.following := by
        have hnext := LedgerNumber.toNat_following_of_ne (LedgerNumber.ne_last_of_lt hbelow)
        exact UInt32.lt_iff_toNat_lt.mpr (by omega)
      exact hback hfirst hbelow (.inr (by simpa [pastStop, hstop] using hend))
  · exact hback (LedgerNumber.le_sub_one hlt) hlast (.inl (LedgerNumber.following_sub_one hlt))

theorem beginAt_stands (hkind : a.request.kind ≠ .archive) {start : Option LedgerNumber}
    {health : Health} (hh : health ∈ healths history) (ht : health.latest ∈ tips history)
    (hstart : match start with
      | none => a.request.start? = none
      | some ledger => a.Chosen history ledger) (signals : Signals) (sink : Sink) :
    a.Stands history (a.beginAt signals sink start health) := by
  have hk : Known history health.latest := ⟨health.latest, ht, UInt32.le_refl _⟩
  have hs : a.Standing history (start.getD health.latest) := by
    cases start with
    | none =>
      refine ⟨fun l hl => ?_, .inr (.inl ⟨health.latest, ht, Nat.le_succ _⟩)⟩
      rw [hstart] at hl
      cases hl
    | some ledger => exact hstart.standing
  unfold beginAt
  dsimp only
  split
  · exact hs
  rename_i hnone
  have hpast : a.pastStop (start.getD health.latest) = false := by
    cases start with
    | none => simpa using hnone
    | some ledger => exact hstart.within
  split
  · exact hs
  split
  · rename_i hlt
    cases start with
    | none => exact absurd hlt (UInt32.lt_irrefl _)
    | some ledger => exact ⟨hlt, ⟨health, hh, rfl⟩, hstart.origin⟩
  split
  · exact follow_stands hs hk signals _
  rename_i hlatest holdest
  split
  · rename_i harchive
    refine ⟨harchive, fun l hl => ?_, health, hh, rfl, rfl, UInt32.not_le.mp holdest,
      UInt32.not_lt.mp hlatest⟩
    cases start with
    | none =>
      rw [hstart] at hl
      cases hl
    | some ledger =>
      -- without an archive nothing was backfilled, so the run is at its start
      rcases hstart.origin with horigin | ⟨hsome, -⟩
      · rw [horigin] at hl
        exact (Option.some.inj hl).symm
      · rw [harchive] at hsome
        cases hsome
  · rename_i harchive
    exact backfill_stands hkind (backfills_of_lt hs.ge hpast (by rw [harchive]; rfl) hh
      (UInt32.not_le.mp holdest)) signals _

theorem followTo_stands (hkind : a.request.kind ≠ .archive) (hs : a.Standing history ledger)
    (hk : Known history latest) (signals : Signals) (sink : Sink) :
    a.Stands history (a.followTo signals sink ledger latest) := by
  unfold followTo
  split
  · exact wait_stands hkind _ (.atTip ..) ⟨hs, hk⟩ signals sink
  · rename_i hlt
    exact beginPoll_stands hs (UInt32.not_lt.mp hlt) hk signals sink

theorem withHealth_stands {go : Health → Progress} {reply : Except NodeFailure Health}
    (h : ∀ health, reply = .ok health → a.Stands history (go health)) (sink : Sink)
    (endpoint : String) : a.Stands history (withHealth sink endpoint go reply) := by
  unfold withHealth
  split
  · exact trivial
  · split
    · exact h _ rfl
    · exact trivial

theorem refused_of_settle {raw : RawEvent} {verdict : Verdict} {error : IngestError} {sink : Sink}
    (h : sink.settle raw verdict = .error error) : a.Refused history error := by
  cases verdict with
  | accepted => cases h
  | failed => cases h; exact trivial
  | panicked => cases h; exact trivial

theorem resume_stands (hkind : a.request.kind ≠ .archive) {pending : Pending}
    (h : a.Awaits history pending) (signals : Signals) (sink : Sink)
    (reply : (pending.question a).Reply) :
    a.Stands (⟨pending, signals, reply⟩ :: history) (a.resume signals sink pending reply) := by
  have hm := h.cons ⟨pending, signals, reply⟩
  cases pending with
  | liveHealth use =>
    cases use with
    | choosing start =>
      refine withHealth_stands (fun health hreply => ?_) sink a.live
      subst hreply
      refine beginAt_stands hkind (List.mem_cons_self ..) (List.mem_cons_self ..) ?_ signals sink
      cases start <;> exact hm
    | following ledger =>
      refine withHealth_stands (fun health hreply => ?_) sink a.live
      subst hreply
      exact followTo_stands hkind hm ⟨health.latest, List.mem_cons_self .., UInt32.le_refl _⟩
        signals sink
  | archiveHealth => exact h.elim
  | ledgers next target =>
    cases reply with
    | error failure => exact trivial
    | ok page =>
      exact offerBatch_stands hkind page.ledgers
        (b := ⟨next, target, next, page.latest, signals.filters⟩) hm signals _
  | events poll =>
    cases reply with
    | error failure => exact trivial
    | ok page =>
      exact offerPage_stands hkind hm ⟨page.latest, List.mem_cons_self .., UInt32.le_refl _⟩ _
        signals _
  | verdict raw event origin =>
    cases origin with
    | page poll page rest =>
      simp only [resume]
      split
      · rename_i hsettle
        exact refused_of_settle hsettle
      · exact offerPage_stands hkind hm.1 hm.2 rest signals _
    | batch b rest ledgers =>
      simp only [resume]
      split
      · rename_i hsettle
        exact refused_of_settle hsettle
      · exact offerLedger_stands hkind hm.1 hm.2 rest ledgers signals _
  | pause milliseconds wait =>
    simp only [resume]
    split
    · exact hm.standing_wait
    · exact proceed_stands hkind hm signals sink

theorem begin_eq_choose (hkind : a.request.kind ≠ .archive) :
    a.begin = a.choose (.ofCapacity a.config.dedupCapacity .live) a.request.start? := by
  unfold Assignment.begin
  cases hrequest : a.request with
  | archive =>
    rw [hrequest] at hkind
    exact absurd rfl hkind
  | live => rfl
  | combined => rfl

/-- A run that uses the live node always stands where it can. -/
theorem Reaches.stands (hkind : a.request.kind ≠ .archive) {p : Progress}
    (h : a.Reaches history p) : a.Stands history p := by
  induction h with
  | begin =>
    rw [begin_eq_choose hkind]
    cases hstart : a.request.start? with
    | none => exact hstart
    | some first =>
      have hge : ∀ start, a.request.start? = some start → start ≤ first := by
        intro start h
        rw [hstart] at h
        exact UInt32.le_of_eq (Option.some.inj h).symm
      exact choose_stands ⟨hge, .inl hstart⟩ (fun hpast => ⟨hge, hpast, .inl hstart⟩) _
  | resume _ signals reply ih => exact resume_stands hkind ih signals _ reply

end Assignment
end LedgerFeed
