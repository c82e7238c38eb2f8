import LedgerFeed.Proofs.Placed
import LedgerFeed.Proofs.Resume

/-! Runs from the tip on. If the tip itself lies in the retention window, less the margin, then the
run follows it at once, and nothing leads it back to an older ledger. If the window is narrower than
the margin, then even the tip counts as not retained. -/

namespace LedgerFeed

variable {a : Assignment} {signals : Signals} {sink sink' : Sink} {point point' : Point}

def Origin.Tails : Origin → Prop
  | page .. => True
  | batch .. => False

def Wait.Tails : Wait → Prop
  | betweenBatches .. => False
  | _ => True

def Pending.Tails : Pending → Prop
  | liveHealth (.following _) => True
  | events _ => True
  | verdict _ _ origin => origin.Tails
  | pause _ wait => wait.Tails
  | _ => False

def Point.Tails : Point → Prop
  | following .. => True
  | requesting _ => True
  | offering origin => origin.Tails
  | paged .. => True
  | polled .. => True
  | resting _ wait => wait.Tails
  | asking pending => pending.Tails
  | ended (.ok _) => True
  | ended (.error error) => error.kind ≠ .range
  | _ => False

namespace Assignment

theorem Hears.tails {pending : Pending} {reply : (pending.question a).Reply}
    (h : a.Hears signals sink pending reply sink' point) (ht : pending.Tails) : point.Tails := by
  cases h with
  | failed h => exact failure?_kind h
  | tipPast | stopped | ahead | within | refused | below | archiveAhead | archiveReady | ledgers =>
    exact ht.elim
  | unclosed | closed | events => exact trivial
  | accepted => exact ht
  | rested => exact ht

theorem Moves.tails (h : a.Moves signals sink point sink' point') (ht : point.Tails) :
    point'.Tails := by
  cases h with
  | stop | followPast | askTip | beginPoll | askPage | hitStop | drained | nextPage | endPolls
    | restAtTip | followOn => exact trivial
  | choosePast | askHealth | reachTarget | askBatch | endArchive | chooseAgain | skipLedger
    | endLedgers | gap | unreadable | read | endLedger | endAtLast | noProgress | endBatches
    | nextBatch => exact ht.elim
  | @duplicate origin => cases origin <;> exact ht
  | @filtered origin => cases origin <;> exact ht
  | undecodable => simp [Point.Tails, IngestError.kind]
  | @askHandler origin => cases origin <;> exact ht
  | endPage => exact trivial
  | @proceed wait =>
    cases wait with
    | atTip | betweenPages => exact trivial
    | betweenBatches => exact ht.elim
  | pause => exact ht

section

variable {health : Health}

theorem reaches_beginAt (hkind : a.request.kind ≠ .archive) (hstart : a.request.start? = none)
    (hhealthy : health.healthy = true) (signals : Signals) :
    a.Reaches [⟨.liveHealth (.choosing none), signals, .ok health⟩]
      (a.beginAt signals (.ofCapacity a.config.dedupCapacity .live) none health) := by
  have hreaches := @Reaches.begin a
  rw [begin_eq_choose hkind, hstart] at hreaches
  have hanswer := hreaches.resume signals (.ok health)
  have hresume : a.resume signals (.ofCapacity a.config.dedupCapacity .live)
      (.liveHealth (.choosing none)) (.ok health) =
        a.beginAt signals (.ofCapacity a.config.dedupCapacity .live) none health :=
    if_pos hhealthy
  rwa [hresume] at hanswer

theorem beginAt_tip (hin : a.pastStop health.latest = false) (hs : signals.stop = false)
    (sink : Sink) : a.beginAt signals sink none health =
      if health.oldestAvailable a.config.retentionMargin ≤ health.latest then
        a.follow signals (sink.withFeed .live) health.latest health.latest
      else
        match a.archive with
        | none => failed sink (.notRetained health.latest
          (health.oldestAvailable a.config.retentionMargin) health.latest)
        | some _ => a.backfill signals (sink.withFeed .backfill) health.latest
          (a.targetBelow health) := by
  have hclosed : ¬health.latest < health.latest := UInt32.lt_irrefl _
  unfold beginAt
  dsimp only [Option.getD_none]
  rw [if_neg (by simp [hin]), if_neg (by simp [hs]), if_neg hclosed]
  rfl

theorem beginAt_within (hin : a.pastStop health.latest = false) (hs : signals.stop = false)
    (hwindow : health.oldestAvailable a.config.retentionMargin ≤ health.latest) (sink : Sink) :
    a.beginAt signals sink none health =
      .waiting ((sink.withFeed .live).measure .poll) (.events ⟨health.latest, health.latest,
        .ofLedger health.latest signals.filters a.config.pageSize⟩) := by
  have hclosed : ¬health.latest < health.latest := UInt32.lt_irrefl _
  rw [beginAt_tip hin hs, if_pos hwindow, follow, if_neg (by simp [hin]), if_neg (by simp [hs]),
    if_neg hclosed, beginPoll, requestPage, if_neg (by simp [hs])]

theorem beginAt_below (hkind : a.request.kind ≠ .archive) (hin : a.pastStop health.latest = false)
    (hs : signals.stop = false)
    (hwindow : health.latest < health.oldestAvailable a.config.retentionMargin) (sink : Sink) :
    (a.archive = none → (a.beginAt signals sink none health).NotRetained) ∧
      (a.archive.isSome = true → a.beginAt signals sink none health =
        .waiting (sink.withFeed .backfill) (.ledgers health.latest (a.targetBelow health))) := by
  obtain ⟨-, htarget⟩ := targets_targetBelow hkind hin hwindow
  rw [beginAt_tip hin hs, if_neg (UInt32.not_le.mpr hwindow)]
  constructor
  · intro hnone
    rw [hnone]
    exact ⟨sink, health.latest, _, health.latest, rfl⟩
  · intro hsome
    obtain ⟨archive, harchive⟩ := Option.isSome_iff_exists.mp hsome
    rw [harchive]
    change a.backfill signals _ _ _ = _
    rw [backfill, if_neg (UInt32.not_lt.mpr htarget), if_neg (by simp [hs])]

end

end Assignment

/-- A run from the tip on asks for the events of the tip right after it has heard of a window that
holds the tip, less the margin. It is never refused as not retained and never sent to the archive,
neither then nor later. -/
theorem tip_is_followed (hkind : a.request.kind ≠ .archive) (hstart : a.request.start? = none)
    {health : Health} (hhealthy : health.healthy = true)
    (hstop : ∀ stop, a.request.stop? = some stop → health.latest ≤ stop)
    (hwindow : health.oldestAvailable a.config.retentionMargin ≤ health.latest)
    {signals : Signals} (hs : signals.stop = false) :
    (∃ sink, a.Reaches [⟨.liveHealth (.choosing none), signals, .ok health⟩]
      (.waiting sink (.events ⟨health.latest, health.latest,
        .ofLedger health.latest signals.filters a.config.pageSize⟩))) ∧
    ∀ later p,
      a.Reaches (later ++ [⟨.liveHealth (.choosing none), signals, .ok health⟩]) p →
        ¬p.NotRetained ∧ ∀ sink next target, p ≠ .waiting sink (.ledgers next target) := by
  have hin := Assignment.pastStop_eq_false_iff.mpr hstop
  have hfirst := Assignment.reaches_beginAt hkind hstart hhealthy signals
  rw [Assignment.beginAt_within hin hs hwindow] at hfirst
  refine ⟨⟨_, hfirst⟩, fun later p h => ?_⟩
  have htails : p.point.Tails := Assignment.Reaches.keeps (I := Point.Tails)
    (fun ht h => h.tails ht) (fun ht h => h.tails ht) hfirst trivial h
  constructor
  · rintro ⟨sink, first, oldest, latest, rfl⟩
    exact htails rfl
  · rintro sink next target rfl
    exact htails

theorem caughtUp_tip_is_followed :
    (∃ sink, (caughtUp.assign (.live none none)).Reaches
      [⟨.liveHealth (.choosing none), ⟨false, []⟩, .ok ⟨true, 1, 5, 4⟩⟩]
      (.waiting sink (.events ⟨5, 5, .ofLedger 5 [] 100⟩))) ∧
    ∀ later p, (caughtUp.assign (.live none none)).Reaches
      (later ++ [⟨.liveHealth (.choosing none), ⟨false, []⟩, .ok ⟨true, 1, 5, 4⟩⟩]) p →
        ¬p.NotRetained := by
  obtain ⟨hfirst, hlater⟩ := @tip_is_followed (caughtUp.assign (.live none none)) (by decide) rfl
    ⟨true, 1, 5, 4⟩ rfl (fun stop h => by cases h) (by decide) ⟨false, []⟩ rfl
  exact ⟨hfirst, fun later p h => (hlater later p h).1⟩

def narrowRun : Assignment :=
  { caughtUp with config := EngineConfig.default }.assign (.live none (some 5))

/-- With a margin that is wider than the window, the tip is refused. -/
theorem tip_not_always_followed :
    ¬∀ (a : Assignment) (health : Health) (signals : Signals) (p : Progress),
      a.request.kind ≠ .archive → a.request.start? = none → health.healthy = true →
      health.oldest ≤ health.latest →
      (∀ stop, a.request.stop? = some stop → health.latest ≤ stop) → signals.stop = false →
      a.Reaches [⟨.liveHealth (.choosing none), signals, .ok health⟩] p → ¬p.NotRetained := by
  intro h
  have hkind : narrowRun.request.kind ≠ .archive := by decide
  have hstop : ∀ stop, narrowRun.request.stop? = some stop → (5 : LedgerNumber) ≤ stop := by
    intro stop hstop
    obtain rfl := Option.some.inj hstop
    exact UInt32.le_refl _
  have hnarrow : (5 : LedgerNumber) <
      (Health.mk true 1 5 4).oldestAvailable narrowRun.config.retentionMargin := by decide
  have hreaches := @Assignment.reaches_beginAt narrowRun ⟨true, 1, 5, 4⟩ hkind rfl rfl ⟨false, []⟩
  have hrefused := @Assignment.beginAt_below narrowRun ⟨false, []⟩ ⟨true, 1, 5, 4⟩ hkind
    (Assignment.pastStop_eq_false_iff.mpr hstop) rfl hnarrow
  exact h narrowRun ⟨true, 1, 5, 4⟩ ⟨false, []⟩ _ hkind rfl rfl (by decide) hstop rfl hreaches
    ((hrefused _).1 rfl)

end LedgerFeed
