import LedgerFeed.Proofs.Batch
import LedgerFeed.Proofs.Scene
import LedgerFeed.Proofs.Summary

/-! A stop ends a run soon and quietly. An answer that comes with a stop leads to the end of the run
at once, or behind a backfill to one more look at the live node, whose answer then ends the run. If
the end is an error, then it is one that the answer shows. -/

namespace LedgerFeed

variable {a : Assignment} {history : List (Moment a)} {m : Moment a} {signals : Signals}

def Pending.target? : Pending → Option LedgerNumber
  | ledgers _ target => some target
  | verdict _ _ (.batch b _ _) => some b.target
  | _ => none

def Moment.hand? : Moment a → Option (Batch × List RawLedger)
  | ⟨.ledgers next target, signals, .ok page⟩ =>
    some (⟨next, target, next, page.latest, signals.filters⟩, page.ledgers)
  | ⟨.verdict _ _ (.batch b _ ledgers), _, .accepted⟩ =>
    some ({ b with expected := b.expected + 1 }, ledgers)
  | _ => none

namespace Assignment

/-- The error that an answer shows by itself: the call failed or the node is unhealthy, the archive
ends below the start, or of the ledgers in hand one cannot be read or the next one is missing. -/
inductive Shows (a : Assignment) (m : Moment a) : IngestError → Prop
  | failed {sink : Sink} {error : IngestError}
      (h : a.failure? sink m.pending m.reply = some error) : Shows a m error
  | ahead {start stop : LedgerNumber} {health : Health}
      (hm : m = ⟨.archiveHealth start stop, m.signals, .ok health⟩) (h : health.latest < start) :
      Shows a m (.aheadOfTip start health.latest)
  | unreadable {b : Batch} {ledgers : List RawLedger} {ledger : RawLedger} {cause : DecodeError}
      (hm : m.hand? = some (b, ledgers)) (hl : ledger ∈ ledgers)
      (hr : a.decoder.ledgerEvents ledger = .error cause) :
      Shows a m (.decode ledger.sequence cause)
  | gap {b : Batch} {ledgers : List RawLedger} {missing : LedgerNumber}
      (hm : m.hand? = some (b, ledgers))
      (hmissing : missing.toNat =
        b.expected.toNat + (LedgerFeed.inSequence b.target b.expected ledgers).length)
      (hle : missing ≤ b.target)
      (h : skipsLedger b.target b.expected ledgers = true ∨
        LedgerFeed.inSequence b.target b.expected ledgers = []) :
      Shows a m (.archiveGap missing b.archiveLatest)

def Left (m : Moment a) (b : Batch) (ledgers : List RawLedger) : Prop :=
  ∃ b' ledgers', m.hand? = some (b', ledgers') ∧ b'.next ≤ b'.expected ∧
    b = { b' with expected := b.expected } ∧ ledgers ⊆ ledgers' ∧
    b.expected.toNat + (LedgerFeed.inSequence b.target b.expected ledgers).length =
      b'.expected.toNat + (LedgerFeed.inSequence b'.target b'.expected ledgers').length ∧
    (skipsLedger b.target b.expected ledgers = true →
      skipsLedger b'.target b'.expected ledgers' = true)

def Hushed (a : Assignment) (m : Moment a) : Point → Prop
  | .choosing none => False
  | .choosing (some ledger) => ∃ target, m.pending.target? = some target ∧ ledger = target.following
  | .backfilling .. => a.request.kind = .archive
  | .backfilled target => a.request.kind = .archive ∨ m.pending.target? = some target
  | .taking b ledgers => m.pending.target? = some b.target ∧ Left m b ledgers
  | .taken b => m.pending.target? = some b.target ∧ Left m b []
  | .offering (.batch b _ ledgers) => m.pending.target? = some b.target ∧
      (b.expected ≠ .last → Left m { b with expected := b.expected + 1 } ledgers)
  | .asking pending => ∃ target, m.pending.target? = some target ∧
      pending = .liveHealth (.choosing (some target.following))
  | .ended (.error error) => a.Shows m error
  | _ => True

section

variable {b : Batch} {ledger : RawLedger} {ledgers : List RawLedger}

theorem left_hand (h : m.hand? = some (b, ledgers)) (hle : b.next ≤ b.expected) :
    Left m b ledgers :=
  ⟨b, ledgers, h, hle, rfl, List.Subset.refl _, rfl, id⟩

theorem Left.skip (h : Left m b (ledger :: ledgers)) (hlt : ledger.sequence < b.expected) :
    Left m b ledgers := by
  obtain ⟨b', ledgers', hhand, hle, heq, hsub, hlen, hskips⟩ := h
  rw [inSequence_cons_of_lt hlt] at hlen
  rw [skipsLedger_cons_of_lt hlt] at hskips
  exact ⟨b', ledgers', hhand, hle, heq, List.subset_of_cons_subset hsub, hlen, hskips⟩

theorem Left.take (h : Left m b (ledger :: ledgers)) (heq : ledger.sequence = b.expected)
    (hle : b.expected ≤ b.target) (hlast : b.expected ≠ .last) :
    Left m { b with expected := b.expected + 1 } ledgers := by
  obtain ⟨b', ledgers', hhand, hle', hb, hsub, hlen, hskips⟩ := h
  rw [inSequence_cons_of_eq heq hle hlast, List.length_cons] at hlen
  rw [skipsLedger_cons_of_eq heq hle hlast] at hskips
  refine ⟨b', ledgers', hhand, hle', by rw [hb], List.subset_of_cons_subset hsub, ?_, hskips⟩
  change (b.expected + 1).toNat +
    (LedgerFeed.inSequence b.target (b.expected + 1) ledgers).length = _
  rw [LedgerNumber.toNat_add_one hlast]
  omega

theorem Left.done (h : Left m b ledgers) (hle : b.expected.toNat ≤ b.target.toNat + 1)
    (hhead : ∀ ledger ∈ ledgers.head?, b.target < ledger.sequence) : Left m b [] := by
  have hnil : LedgerFeed.inSequence b.target b.expected ledgers = [] := by
    cases ledgers with
    | nil => rfl
    | cons ledger ledgers =>
      have hlt := UInt32.lt_iff_toNat_lt.mp (hhead ledger rfl)
      have hge : b.expected ≤ ledger.sequence := UInt32.le_iff_toNat_le.mpr (by omega)
      rw [LedgerFeed.inSequence, if_neg (UInt32.not_lt.mpr hge), if_pos (hhead ledger rfl)]
  obtain ⟨b', ledgers', hhand, hle', hb, -, hlen, -⟩ := h
  rw [hnil] at hlen
  exact ⟨b', ledgers', hhand, hle', hb, List.nil_subset _, hlen, fun hskips => by cases hskips⟩

theorem Left.shows_gap (h : Left m b (ledger :: ledgers)) (hlt : b.expected < ledger.sequence)
    (hle : ledger.sequence ≤ b.target) : a.Shows m (.archiveGap b.expected b.archiveLatest) := by
  obtain ⟨b', ledgers', hhand, -, hb, -, hlen, hskips⟩ := h
  rw [inSequence_cons_of_gt hlt] at hlen
  have hlatest : b.archiveLatest = b'.archiveLatest := by rw [hb]
  have htarget : b.target = b'.target := by rw [hb]
  rw [hlatest]
  refine .gap hhand hlen ?_ (.inl (hskips (skipsLedger_cons_of_gt hlt hle)))
  exact htarget ▸ UInt32.le_trans (UInt32.le_of_lt hlt) hle

theorem Left.shows_none (h : Left m b []) (hnext : b.expected = b.next)
    (hle : b.next ≤ b.target) : a.Shows m (.archiveGap b.next b.archiveLatest) := by
  obtain ⟨b', ledgers', hhand, hge, hb, -, hlen, -⟩ := h
  have hlatest : b.archiveLatest = b'.archiveLatest := by rw [hb]
  have htarget : b.target = b'.target := by rw [hb]
  have hnext' : b.next = b'.next := by rw [hb]
  rw [hnext, LedgerFeed.inSequence, List.length_nil] at hlen
  rw [hlatest]
  refine .gap hhand hlen (htarget ▸ hle) (.inr ?_)
  have hge := UInt32.le_iff_toNat_le.mp hge
  rw [← hnext'] at hge
  exact List.length_eq_zero_iff.mp (by omega)

end

variable {sink sink' : Sink} {point point' : Point} {pending : Pending}

theorem Hears.hushed {reply : (pending.question a).Reply}
    (h : a.Hears signals sink pending reply sink' point) (hs : signals.stop = true)
    (hp : a.PlacedAt pending) (hplaced : a.Placed point) :
    a.Hushed ⟨pending, signals, reply⟩ point := by
  have hgoes {P : Prop} (hrunning : signals.stop = false) : P := by
    rw [hs] at hrunning
    cases hrunning
  cases h with
  | failed h => exact .failed h
  | tipPast | stopped | unclosed | closed | events | rested => exact trivial
  | ahead hh hrunning => exact hgoes hrunning
  | within ha => exact trivial
  | refused ha => exact hgoes ha.running
  | below ha => exact hgoes ha.running
  | archiveAhead hh h => exact .ahead rfl h
  | archiveReady =>
    change a.request.kind = .archive
    rw [show a.request = .archive _ _ from hp]
    rfl
  | ledgers => exact ⟨rfl, left_hand rfl (UInt32.le_refl _)⟩
  | @accepted raw event origin =>
    cases origin with
    | page => exact trivial
    | batch b rest ledgers =>
      refine ⟨rfl, fun hlast => left_hand rfl (UInt32.le_iff_toNat_le.mpr ?_)⟩
      have hge := UInt32.le_iff_toNat_le.mp hplaced.1.ge
      rw [LedgerNumber.toNat_add_one hlast]
      exact Nat.le_succ_of_le hge

theorem Moves.hushed (h : a.Moves m.signals sink point sink' point')
    (hs : m.signals.stop = true) (hp : a.Placed point) (hh : a.Hushed m point) :
    a.Hushed m point' := by
  have hgoes {P : Prop} (hrunning : m.signals.stop = false) : P := by
    rw [hs] at hrunning
    cases hrunning
  cases h with
  | stop | choosePast | endArchive | endPage | nextBatch | followPast | hitStop | drained | nextPage
    | endPolls | restAtTip | followOn => exact trivial
  | askBatch hrunning | duplicate hrunning | filtered hrunning | undecodable hrunning
    | askHandler hrunning | beginPoll _ hrunning | askTip _ hrunning | askPage hrunning
    | proceed hrunning | pause hrunning => exact hgoes hrunning
  | @askHealth start =>
    cases start with
    | none => exact hh.elim
    | some ledger =>
      obtain ⟨target, htarget, rfl⟩ := hh
      exact ⟨target, htarget, rfl⟩
  | reachTarget => exact .inl hh
  | chooseAgain hkind => exact ⟨_, hh.resolve_left hkind, rfl⟩
  | skipLedger h => exact ⟨hh.1, hh.2.skip h⟩
  | endLedgers h => exact ⟨hh.1, hh.2.done hp.le h⟩
  | gap h hle => exact hh.2.shows_gap h hle
  | unreadable h hle hr =>
    obtain ⟨b', ledgers', hhand, -, -, hsub, -⟩ := hh.2
    exact .unreadable hhand (hsub (List.mem_cons_self ..)) hr
  | read h hle hr => exact ⟨hh.1, hh.2.take h hle⟩
  | endLedger hlast => exact ⟨hh.1, hh.2 hlast⟩
  | endAtLast => exact .inr hh.1
  | noProgress h => exact hh.2.shows_none h hp.begun
  | endBatches => exact .inr hh.1

theorem Reaches.hushed {p : Progress} (h : a.Reaches (m :: history) p)
    (hs : m.signals.stop = true) : a.Hushed m p.point := by
  have hcarried := h.carries
    (I := fun history _ point => ∀ m ∈ history.head?, m.signals.stop = true → a.Hushed m point)
    (fun m hm => by cases hm)
    (fun signals hp hplaced _ h m hm hs => by
      obtain rfl := Option.some.inj hm
      exact h.hushed hs hp hplaced)
    (fun hp _ hh h m' hm hs => by
      obtain rfl := Option.some.inj hm
      exact h.hushed hs hp (hh _ rfl hs))
  exact hcarried.2 m rfl hs

def Rejoins (a : Assignment) (history : List (Moment a)) (target : LedgerNumber) : Prop :=
  ∃ sink first,
    a.Reaches history (.waiting sink (.liveHealth (.choosing (some target.following)))) ∧
    a.firstLedger? history = some first ∧
    ∀ ledger, first ≤ ledger → ledger < target.following →
      ∃ raws, a.Processed history ledger raws ∧ raws <:+: sink.offered

/-- An answer that came with a stop ends the run, or leaves it with a question for the live node. -/
theorem Reaches.ended_or_rejoins (hcheck : a.request.check = .ok ()) {p : Progress}
    (h : a.Reaches (m :: history) p) (hs : m.signals.stop = true) :
    (∃ sink result, p = .ended sink result) ∨
      ∃ sink target, m.pending.target? = some target ∧ a.Rejoins (m :: history) target ∧
        p = .waiting sink (.liveHealth (.choosing (some target.following))) := by
  have hhushed := h.hushed hs
  have haccounted := h.accounted hcheck
  cases p with
  | ended sink result => exact .inl ⟨sink, result, rfl⟩
  | waiting sink pending =>
    obtain ⟨target, htarget, rfl⟩ := hhushed
    obtain ⟨first, hfirst, -, hprocessed⟩ := (Due.past haccounted).processed
    exact .inr ⟨sink, target, htarget, ⟨sink, first, h, hfirst, hprocessed⟩, rfl⟩

/-- How a run winds down that waited for an answer: by the answers that came since, and where they
leave it. -/
inductive Winds (a : Assignment) (history : List (Moment a)) (pending : Pending) :
    List (Moment a) → Progress → Prop
  | still {sink : Sink} : Winds a history pending [] (.waiting sink pending)
  | ended {m : Moment a} {sink : Sink} {result : Except IngestError Exit}
      (hm : m.pending = pending) : Winds a history pending [m] (.ended sink result)
  | rejoining {m : Moment a} {sink : Sink} {target : LedgerNumber} (hm : m.pending = pending)
      (ht : pending.target? = some target) (hr : a.Rejoins (m :: history) target) :
      Winds a history pending [m] (.waiting sink (.liveHealth (.choosing (some target.following))))
  | rejoined {m m' : Moment a} {sink : Sink} {result : Except IngestError Exit}
      {target : LedgerNumber} (hm : m.pending = pending) (ht : pending.target? = some target)
      (hr : a.Rejoins (m :: history) target) (hm' : m'.question = .health .live) :
      Winds a history pending [m', m] (.ended sink result)

theorem Reaches.winds (hcheck : a.request.check = .ok ())
    (hw : a.Reaches history (.waiting sink pending)) {later : List (Moment a)} {p : Progress}
    (h : a.Reaches (later ++ history) p) (hs : ∀ m ∈ later, m.signals.stop = true) :
    a.Winds history pending later p := by
  rcases hw.eq_nil_or_next h with ⟨rfl, rfl⟩ | ⟨rest, m, q, hm, rfl, hq, h⟩
  · exact .still
  rcases hq.ended_or_rejoins hcheck (hs m (by simp)) with
    ⟨sink', result, rfl⟩ | ⟨sink', target, htarget, hrejoins, rfl⟩
  · obtain ⟨rfl, rfl⟩ := hq.eq_nil_of_ended h
    exact .ended hm
  rcases hq.eq_nil_or_next h with ⟨rfl, rfl⟩ | ⟨rest, m', q', hm', rfl, hq', h⟩
  · exact .rejoining hm (hm ▸ htarget) hrejoins
  -- the live node's answer is no end of a backfill, so it ends the run
  rcases hq'.ended_or_rejoins hcheck (hs m' (by simp)) with
    ⟨sink'', result, rfl⟩ | ⟨-, target', htarget', -⟩
  · obtain ⟨rfl, rfl⟩ := hq'.eq_nil_of_ended h
    refine .rejoined hm (hm ▸ htarget) hrejoins ?_
    rw [Moment.question, hm']
    rfl
  · rw [hm'] at htarget'
    cases htarget'

end Assignment

namespace Scene

/-- What has become of a run since it was asked to stop while it waited for an answer. It has not
paused. It has asked nothing more, or behind a backfill for the health of the live node. If it is
not over, then it waits for the same answer, or for that health with no other answer since. If it
failed, then an answer shows why. -/
structure WindsDown (s : Scene a) (pending : Pending) (s' : Scene a) : Prop where
  paused : s'.paused = s.paused
  waits : ∀ sink pending', s'.progress = .waiting sink pending' →
    s'.history = s.history ∧ pending' = pending ∨
      ∃ m target, s'.history = m :: s.history ∧ pending.target? = some target ∧
        pending' = .liveHealth (.choosing (some target.following))
  questions : s'.questions = s.questions ∨ s'.questions = s.questions ++ [.health .live] ∧
    ∃ m target, m :: s.history <:+ s'.history ∧ m.pending = pending ∧
      pending.target? = some target ∧ a.Rejoins (m :: s.history) target
  error : ∀ sink error, s'.progress = .ended sink (.error error) →
    ∃ later, s'.history = later ++ s.history ∧ ∃ m ∈ later, a.Shows m error

theorem questions_of_waiting {s : Scene a} {sink : Sink} {pending : Pending}
    (h : s.progress = .waiting sink pending) :
    s.questions = asked s.history ++ [pending.question a] := by
  unfold questions
  rw [h]

theorem questions_of_ended {s : Scene a} {sink : Sink} {result : Except IngestError Exit}
    (h : s.progress = .ended sink result) : s.questions = asked s.history := by
  unfold questions
  rw [h]

theorem Since.winds_down {s s' : Scene a} {sink : Sink} {pending : Pending}
    (hcheck : a.request.check = .ok ()) (hs : s.Sound) (hw : s.progress = .waiting sink pending)
    (hs' : s'.Sound) (h : Since s s') : s.WindsDown pending s' := by
  obtain ⟨hpaused, -, later, hhistory, hstopped⟩ := h
  have hreaches := hs'.reaches
  have hwaiting := hs.reaches
  rw [hhistory] at hreaches
  rw [hw] at hwaiting
  have hwinds := hwaiting.winds hcheck hreaches hstopped
  refine ⟨hpaused, ?_, ?_, ?_⟩
  · intro sink' pending' hw'
    rw [hw'] at hwinds
    cases hwinds with
    | still => exact .inl ⟨hhistory, rfl⟩
    | @rejoining m _ target _ ht => exact .inr ⟨m, target, hhistory, ht, rfl⟩
  · have hquestions := questions_of_waiting hw
    generalize hp : s'.progress = p at hwinds
    cases hwinds with
    | still => exact .inl (by rw [questions_of_waiting hp, hquestions, hhistory]; rfl)
    | @ended m _ _ hm =>
      left
      rw [questions_of_ended hp, hquestions, hhistory, ← hm]
      exact asked_cons m s.history
    | @rejoining m _ target hm ht hr =>
      refine .inr ⟨?_, m, target, hhistory ▸ List.suffix_rfl, hm, ht, hr⟩
      rw [questions_of_waiting hp, hquestions, hhistory, ← hm]
      exact congrArg (· ++ _) (asked_cons m s.history)
    | @rejoined m m' _ _ target hm ht hr hm' =>
      refine .inr ⟨?_, m, target, hhistory ▸ List.suffix_cons m' (m :: s.history), hm, ht, hr⟩
      rw [questions_of_ended hp, hquestions, hhistory, ← hm]
      change asked (m' :: m :: s.history) = _
      rw [asked_cons, asked_cons, hm']
      rfl
  · intro sink' error herror
    refine ⟨later, hhistory, ?_⟩
    rw [herror] at hreaches hwinds
    cases later with
    | nil => cases hwinds
    | cons m rest =>
      have hstop := hstopped m (List.mem_cons_self ..)
      exact ⟨m, List.mem_cons_self .., hreaches.hushed hstop⟩

end Scene

/-- A stop that takes effect while a run waits for an answer, or pauses, winds the run down,
whatever is answered and whatever else is done with the engine. -/
theorem stop_winds_down {e : Engine} {request : RunRequest} {flight : Flight}
    (hstart : (e.start request).2 = .ok flight) {s s' : Scene (e.assign request)}
    (hplayed : Scene.Later (.opening e request) s) {sink : Sink} {pending : Pending}
    (hwaiting : s.progress = .waiting sink pending) (hlater : Scene.Later s.stop s') :
    s.WindsDown pending s' := by
  have hcheck : (e.assign request).request.check = .ok () :=
    Engine.check_of_allow (Engine.start_eq_ok hstart).1
  have hsound := hplayed.sound (Scene.opening_sound hstart)
  obtain ⟨hsound', hsince⟩ := Scene.Later.since hsound hwaiting hlater
  exact hsince.winds_down hcheck hsound hwaiting hsound'

def crossingEngine : Engine where
  config := crossing.config
  urls := .ofList []
  decoder := .standard
  live := "live"
  archive := some "archive"
  filters := []
  control := .initial

def crossingScene : Scene crossing :=
  (Scene.opening crossingEngine crossing.request).answer
    (.ofCapacity crossing.config.dedupCapacity .live) (.liveHealth (.choosing (some 3)))
    (.ok ⟨true, 4, 5, 4⟩)

theorem crossing_winds_down :
    ∃ (flight : Flight) (s s' : Scene crossing) (sink : Sink),
      (crossingEngine.start crossing.request).2 = .ok flight ∧
      Scene.Later (.opening crossingEngine crossing.request) s ∧
      s.progress = .waiting sink (.ledgers 3 3) ∧ Scene.Later s.stop s' ∧
      s.WindsDown (.ledgers 3 3) s' ∧ s'.questions = s.questions ++ [.health .live] ∧
      ∃ sink', s'.progress = .ended sink' (.ok ⟨.stopped, 4⟩) := by
  let sink := (Sink.ofCapacity crossing.config.dedupCapacity .live).withFeed .backfill
  have hplayed : Scene.Later (.opening crossingEngine crossing.request) crossingScene :=
    .single (.reply rfl _)
  have hwaiting : crossingScene.progress = .waiting sink (.ledgers 3 3) := rfl
  have hlater : Scene.Later crossingScene.stop
      ((crossingScene.stop.answer sink (.ledgers 3 3) (.ok ⟨[⟨3, "", "", "", []⟩], 5, 3⟩)).answer _
        (.liveHealth (.choosing (some 4))) (.ok ⟨true, 4, 5, 4⟩)) :=
    (Relation.ReflTransGen.single (.reply rfl _)).tail (.reply rfl _)
  exact ⟨_, _, _, _, rfl, hplayed, hwaiting, hlater, stop_winds_down rfl hplayed hwaiting hlater,
    rfl, _, rfl⟩

end LedgerFeed
