import LedgerFeed.Proofs.Batch
import LedgerFeed.Proofs.Governed
import LedgerFeed.Proofs.Passing
import LedgerFeed.Proofs.Summary

/-! Runs whose arithmetic on ledger numbers is checked. Where a difference or a sum is not a ledger
number, such a run has nothing to go on with; a run that is not checked goes on with what is left of
it modulo the size of a word. No run tells the two apart. -/

namespace LedgerFeed

namespace LedgerNumber

def minus? (l m : LedgerNumber) : Option LedgerNumber :=
  if m ≤ l then some (l - m) else none

def plus? (l n : LedgerNumber) : Option LedgerNumber :=
  if l.toNat + n.toNat < UInt32.size then some (l + n) else none

variable {l m n : LedgerNumber}

theorem minus?_eq_some_iff : l.minus? m = some n ↔ n.toNat + m.toNat = l.toNat := by
  unfold minus?
  split
  · rename_i hle
    have hsub := UInt32.toNat_sub_of_le _ _ hle
    have hle := UInt32.le_iff_toNat_le.mp hle
    rw [Option.some.injEq, ← UInt32.toNat_inj, hsub]
    omega
  · rename_i hlt
    have hlt := UInt32.lt_iff_toNat_lt.mp (UInt32.not_le.mp hlt)
    simp only [reduceCtorEq, false_iff]
    omega

theorem plus?_eq_some_iff : l.plus? n = some m ↔ m.toNat = l.toNat + n.toNat := by
  have hsize := m.toNat_lt_size
  unfold plus?
  split
  · rename_i hlt
    have hadd : (l + n).toNat = l.toNat + n.toNat :=
      (UInt32.toNat_add l n).trans (Nat.mod_eq_of_lt hlt)
    rw [Option.some.injEq, ← UInt32.toNat_inj, hadd, eq_comm]
  · simp only [reduceCtorEq, false_iff]
    omega

theorem minus?_of_le (h : m ≤ l) : l.minus? m = some (l - m) := by
  rw [minus?_eq_some_iff, UInt32.toNat_sub_of_le _ _ h]
  exact Nat.sub_add_cancel (UInt32.le_iff_toNat_le.mp h)

theorem plus?_of_lt (h : l.toNat + n.toNat < UInt32.size) : l.plus? n = some (l + n) := by
  rw [plus?_eq_some_iff, UInt32.toNat_add]
  exact Nat.mod_eq_of_lt h

end LedgerNumber

namespace Reckoning

/-- Differences and sums that are ledger numbers. -/
instance : Reckoning (Option Progress) where
  of := some
  minus l m go := (l.minus? m).bind go
  plus l n go := (l.plus? n).bind go

variable {l m n : LedgerNumber} (go : LedgerNumber → Option Progress)

theorem minus_of_le (h : m ≤ l) : minus l m go = go (l - m) := by
  change (l.minus? m).bind go = _
  rw [LedgerNumber.minus?_of_le h, Option.bind_some]

theorem plus_of_lt (h : l.toNat + n.toNat < UInt32.size) : plus l n go = go (l + n) := by
  change (l.plus? n).bind go = _
  rw [LedgerNumber.plus?_of_lt h, Option.bind_some]

end Reckoning

def Assignment.question? (a : Assignment) : Pending → Option Question
  | .ledgers next target => (target.minus? next).map fun left => .ledgers (a.batchOf next left)
  | pending => some (pending.question a)

structure Batch.Countable (b : Batch) (more : Nat) : Prop where
  ge : b.next ≤ b.expected
  lt : b.expected.toNat + more < b.next.toNat + UInt32.size

namespace Batch.Countable

variable {b : Batch} {more fewer : Nat}

theorem mono (h : b.Countable more) (hle : fewer ≤ more) : b.Countable fewer :=
  ⟨h.ge, Nat.lt_of_le_of_lt (Nat.add_le_add_left hle _) h.lt⟩

theorem following (h : b.Countable (more + 1)) (hlast : b.expected ≠ .last) :
    { b with expected := b.expected + 1 }.Countable more := by
  have hnext := LedgerNumber.toNat_add_one hlast
  have hge := UInt32.le_iff_toNat_le.mp h.ge
  have hlt := h.lt
  refine ⟨UInt32.le_iff_toNat_le.mpr ?_, ?_⟩
  · exact hnext ▸ Nat.le_succ_of_le hge
  · dsimp only
    omega

end Batch.Countable

namespace Assignment

variable {a : Assignment} {signals : Signals}

theorem endBatch_checked (sink : Sink) {b : Batch} (h : b.next ≤ b.expected) :
    a.endBatch signals sink b = some (a.endBatch signals sink b) := by
  unfold endBatch
  split
  · rfl
  · exact Reckoning.minus_of_le _ h

theorem endAtLast_checked (sink : Sink) {b : Batch} {more : Nat} (h : b.Countable (more + 1)) :
    a.endAtLast sink b = some (a.endAtLast sink b) := by
  have hge := UInt32.le_iff_toNat_le.mp h.ge
  have hlt := h.lt
  have hfits : (b.expected - b.next).toNat + (1 : UInt32).toNat < UInt32.size := by
    rw [UInt32.toNat_sub_of_le _ _ h.ge, UInt32.toNat_one]
    omega
  exact (Reckoning.minus_of_le _ h.ge).trans (Reckoning.plus_of_lt _ hfits)

theorem offerThen_checked {go? : Sink → Option Progress} {go : Sink → Progress}
    (h : ∀ sink, go? sink = some (go sink)) (sink : Sink) (filters : List EventFilter)
    (ledger : LedgerNumber) (origin : List RawEvent → Origin) (events : List RawEvent) :
    a.offerThen signals sink filters ledger origin events go? =
      some (a.offerThen signals sink filters ledger origin events go) := by
  unfold offerThen
  cases sink.offerAll a.decoder filters signals.stop events with
  | through sink => exact h sink
  | asking | stopped | undecodable => rfl

theorem endLedger_checked (sink : Sink) {b : Batch} {more : Nat} (h : b.Countable (more + 1))
    {go? : Batch → Option Progress} {go : Batch → Progress}
    (hgo : ∀ b : Batch, b.Countable more → go? b = some (go b)) :
    (if b.expected = .last then a.endAtLast sink b
      else Reckoning.plus b.expected 1 fun expected => go? { b with expected }) =
      some (if b.expected = .last then a.endAtLast sink b
        else Reckoning.plus b.expected 1 fun expected => go { b with expected }) := by
  split
  case isTrue => exact endAtLast_checked sink h
  case isFalse hlast =>
    have hfits : b.expected.toNat + (1 : UInt32).toNat < UInt32.size :=
      Nat.add_lt_of_lt_sub (LedgerNumber.toNat_lt_last hlast)
    exact (Reckoning.plus_of_lt _ hfits).trans (hgo _ (h.following hlast))

theorem offerBatch_checked (ledgers : List RawLedger) (sink : Sink) {b : Batch}
    (h : b.Countable ledgers.length) :
    a.offerBatch signals sink b ledgers = some (a.offerBatch signals sink b ledgers) := by
  induction ledgers generalizing sink b with
  | nil => exact endBatch_checked sink h.ge
  | cons ledger ledgers ih =>
    unfold offerBatch
    split
    case isTrue => exact ih sink (h.mono (Nat.le_succ _))
    split
    case isTrue => exact endBatch_checked sink h.ge
    split
    case isTrue => rfl
    cases a.decoder.ledgerEvents ledger with
    | error cause => rfl
    | ok events =>
      exact offerThen_checked (fun sink => endLedger_checked sink h fun b hb => ih sink hb) ..

theorem offerLedger_checked (sink : Sink) {b : Batch} (rest : List RawEvent)
    {ledgers : List RawLedger} (h : b.Countable (ledgers.length + 1)) :
    a.offerLedger signals sink b rest ledgers =
      some (a.offerLedger signals sink b rest ledgers) :=
  offerThen_checked
    (fun sink => endLedger_checked sink h fun _ hb => offerBatch_checked ledgers sink hb) ..

theorem beginAt_checked (sink : Sink) (start : Option LedgerNumber) (health : Health) :
    a.beginAt signals sink start health = some (a.beginAt signals sink start health) := by
  unfold beginAt
  dsimp only
  split
  · rfl
  split
  · rfl
  split
  · rfl
  split
  · rfl
  rename_i hbelow
  -- the first ledger lies below the oldest one
  have hone : 1 ≤ health.oldestAvailable a.config.retentionMargin := by
    have hlt := UInt32.lt_iff_toNat_lt.mp (UInt32.not_le.mp hbelow)
    rw [UInt32.le_iff_toNat_le, UInt32.toNat_one]
    omega
  cases a.archive with
  | none => rfl
  | some endpoint => exact Reckoning.minus_of_le _ hone

theorem withHealth_checked {go? : Health → Option Progress} {go : Health → Progress}
    (h : ∀ health, go? health = some (go health)) (sink : Sink) (endpoint : String)
    (reply : Except NodeFailure Health) :
    withHealth sink endpoint go? reply = some (withHealth sink endpoint go reply) := by
  unfold withHealth
  cases reply with
  | error => rfl
  | ok health =>
    dsimp only
    split
    · exact h health
    · rfl

def Counts : Point → Prop
  | .taking b ledgers => b.Countable ledgers.length
  | .offering (.batch b _ ledgers) => b.Countable (ledgers.length + 1)
  | .asking (.verdict _ _ (.batch b _ ledgers)) => b.Countable (ledgers.length + 1)
  | _ => True

def Sized (history : List (Moment a)) : Prop :=
  ∀ page ∈ batches history, page.ledgers.length < UInt32.size

variable {sink sink' : Sink} {point point' : Point} {pending : Pending}
  {history : List (Moment a)} {p : Progress}

theorem Sized.tail {m : Moment a} (h : Sized (m :: history)) : Sized history := by
  intro page hpage
  refine h page ?_
  rw [← List.singleton_append, batches_append]
  exact List.mem_append_left _ hpage

theorem Sized.head {m : Moment a} (h : Sized (m :: history)) {page : LedgersPage}
    (hm : m.batch? = some page) : page.ledgers.length < UInt32.size := by
  refine h page ?_
  rw [← List.singleton_append, batches_append]
  refine List.mem_append_right _ ?_
  simp [batches, hm]

theorem Hears.counts {reply : (pending.question a).Reply}
    (h : a.Hears signals sink pending reply sink' point) (hc : Counts (.asking pending))
    (hsized : ∀ page, (⟨pending, signals, reply⟩ : Moment a).batch? = some page →
      page.ledgers.length < UInt32.size) : Counts point := by
  cases h with
  | @ledgers next target page =>
    have hlength := hsized page rfl
    exact ⟨UInt32.le_refl _, Nat.add_lt_add_left hlength _⟩
  | @accepted raw event origin =>
    cases origin with
    | page => exact trivial
    | batch => exact hc
  | _ => exact trivial

theorem counts_point (wait : Wait) : Counts wait.point := by
  cases wait <;> exact trivial

theorem Moves.counts (h : a.Moves signals sink point sink' point') (hc : Counts point) :
    Counts point' := by
  cases h with
  | skipLedger => exact Batch.Countable.mono hc (Nat.le_succ _)
  | read => exact hc
  | @duplicate origin => cases origin <;> exact hc
  | @filtered origin => cases origin <;> exact hc
  | @askHandler origin => cases origin <;> exact hc
  | endLedger h => exact Batch.Countable.following hc h
  | proceed => exact counts_point _
  | _ => exact trivial

theorem begin_counts (a : Assignment) : Counts a.begin.point := by
  rcases begin_cases a with ⟨start, stop, -, hbegin⟩ |
    ⟨-, ⟨-, hbegin⟩ | ⟨ledger, -, -, hbegin⟩⟩
  · exact hbegin ▸ trivial
  · exact hbegin ▸ trivial
  · exact hbegin ▸ trivial

theorem Reaches.counts (h : a.Reaches history p) (hsized : Sized history) : Counts p.point := by
  refine h.invariant (I := fun history _ point => Sized history → Counts point)
    (fun _ => begin_counts a) ?_ ?_ hsized
  · intro history sink pending reply sink' point signals hc h hsized
    exact h.counts (hc hsized.tail) fun page => hsized.head
  · intro history m sink point sink' point' hc h hsized
    exact h.counts (hc hsized)

/-- What a run with checked arithmetic has answered so far, and where that leaves it. -/
inductive ReachesChecked (a : Assignment) : List (Moment a) → Progress → Prop
  | begin : ReachesChecked a [] a.begin
  | resume {history : List (Moment a)} {sink : Sink} {pending : Pending} {p : Progress}
      (h : ReachesChecked a history (.waiting sink pending))
      (hasks : a.question? pending = some (pending.question a)) (signals : Signals)
      (reply : (pending.question a).Reply)
      (hresumes : (a.resume signals sink pending reply : Option Progress) = some p) :
      ReachesChecked a (⟨pending, signals, reply⟩ :: history) p

theorem question?_eq (h : a.PlacedAt pending) :
    a.question? pending = some (pending.question a) := by
  cases pending with
  | ledgers next target =>
    rw [question?, LedgerNumber.minus?_of_le h.2]
    rfl
  | liveHealth | archiveHealth | events | verdict | pause => rfl

/-- From where its ledgers can be counted, a run goes on by an answer as it does unchecked. -/
theorem resume_checked (sink : Sink) {reply : (pending.question a).Reply}
    (hc : Counts (.asking pending))
    (hsized : ∀ page, (⟨pending, signals, reply⟩ : Moment a).batch? = some page →
      page.ledgers.length < UInt32.size) :
    a.resume signals sink pending reply = some (a.resume signals sink pending reply) := by
  cases pending with
  | liveHealth use =>
    cases use with
    | following => exact withHealth_checked (fun _ => rfl) ..
    | choosing start => exact withHealth_checked (beginAt_checked sink start) ..
  | archiveHealth => exact withHealth_checked (fun _ => rfl) ..
  | ledgers next target =>
    cases reply with
    | error => rfl
    | ok page =>
      have hlength := hsized page rfl
      exact offerBatch_checked page.ledgers _ ⟨UInt32.le_refl _, Nat.add_lt_add_left hlength _⟩
  | events =>
    cases reply with
    | error => rfl
    | ok => rfl
  | verdict raw event origin =>
    cases origin with
    | page =>
      simp only [resume]
      cases sink.settle raw reply with
      | error => rfl
      | ok => rfl
    | batch b rest ledgers =>
      simp only [resume]
      cases sink.settle raw reply with
      | error => rfl
      | ok sink => exact offerLedger_checked sink rest hc
  | pause => rfl

theorem Reaches.checked (h : a.Reaches history p) (hsized : Sized history) :
    a.ReachesChecked history p := by
  induction h with
  | begin => exact .begin
  | @resume history sink pending h signals reply ih =>
    have hcounts := h.counts hsized.tail
    exact (ih hsized.tail).resume (question?_eq h.placed) signals reply
      (resume_checked sink hcounts fun page => hsized.head)

theorem ReachesChecked.reaches (h : a.ReachesChecked history p) (hsized : Sized history) :
    a.Reaches history p := by
  induction h with
  | begin => exact .begin
  | @resume history sink pending p h _ signals reply hresumes ih =>
    have hreaches := ih hsized.tail
    rw [resume_checked sink (hreaches.counts hsized.tail) fun page => hsized.head] at hresumes
    obtain rfl := Option.some.inj hresumes
    exact hreaches.resume signals reply

/-- An engine makes the assignment at some time of its life. -/
def Issued (a : Assignment) : Prop :=
  ∃ (urls : Net.UrlReader) (config : EngineConfig) (live : Option String) (decoder : Decoder)
    (built e : Engine) (ops : List Operation) (request : RunRequest),
    Engine.ofConfig urls config live decoder = .ok built ∧ built.Goes ops e ∧ a = e.assign request

theorem Issued.pageSize_pos (h : a.Issued) : 0 < a.config.pageSize := by
  obtain ⟨urls, config, live, decoder, built, e, ops, request, hbuilt, hgoes, rfl⟩ := h
  obtain ⟨hfaults, hconfig, -⟩ := Engine.ofConfig_eq_ok hbuilt
  have hsize := EngineConfig.faults_eq_nil_iff.mp hfaults .pageSize
  have heq : (e.assign request).config = config := hgoes.setup_eq.1.trans hconfig
  rw [heq]
  exact hsize.1

end Assignment

variable {a : Assignment} {history : List (Moment a)}

/-- Whatever range a run is over, whatever its margin and its pages are, and whatever the nodes
answer, as long as no page has more ledgers than there are numbers for: with checked arithmetic a
run gets exactly where it gets without, so no difference and no sum ever leaves the ledger numbers.
No batch is asked for from beyond its target, or for more ledgers than are left up to it, and a run
of an engine asks for one ledger at least. -/
theorem arithmetic_stays_in_range (hsized : Assignment.Sized history) :
    (∀ p, a.ReachesChecked history p ↔ a.Reaches history p) ∧
    (∀ sink pending, a.Reaches history (.waiting sink pending) →
      a.question? pending = some (pending.question a)) ∧
    ∀ sink next target, a.Reaches history (.waiting sink (.ledgers next target)) →
      let request := a.batchRequest next target
      request.start = next ∧ next ≤ target ∧
        request.limit.toNat ≤ target.toNat - next.toNat + 1 ∧
        (0 < a.config.pageSize → 1 ≤ request.limit.toNat) ∧
        (a.Issued → 1 ≤ request.limit.toNat) := by
  refine ⟨fun p => ⟨fun h => h.reaches hsized, fun h => h.checked hsized⟩,
    fun sink pending h => Assignment.question?_eq h.placed, fun sink next target h => ?_⟩
  have hle : next ≤ target := h.placed.2
  have hleft := @Assignment.limit_batchRequest_le a _ _ hle
  have hnext := UInt32.le_iff_toNat_le.mp hle
  refine ⟨rfl, hle, by omega, fun hsize => ?_, fun hissued => ?_⟩
  · exact Assignment.limit_batchRequest_pos hsize next target
  · exact Assignment.limit_batchRequest_pos hissued.pageSize_pos next target

/-- A page with every ledger that there can be could not be counted. -/
example (sink : Sink) :
    (a.endAtLast sink ⟨0, .last, .last, .last, []⟩ : Option Progress) = none := rfl

def finalRun : Assignment :=
  { crossing with request := .archive (LedgerNumber.last - 1) .last }

def finalHealth : Health :=
  ⟨true, 1, .last, 1⟩

def finalPage : LedgersPage :=
  ⟨[⟨LedgerNumber.last - 1, "", "", "", []⟩, ⟨.last, "", "", "", []⟩], .last, 1⟩

def finalHistory : List (Moment finalRun) :=
  [⟨.ledgers (LedgerNumber.last - 1) .last, ⟨false, []⟩, .ok finalPage⟩,
    ⟨.archiveHealth (LedgerNumber.last - 1) .last, ⟨false, []⟩, .ok finalHealth⟩]

theorem finalRun_in_range : Assignment.Sized finalHistory ∧ ∃ sink,
    finalRun.ReachesChecked finalHistory (.ended sink (.ok ⟨.completed, .last⟩)) ∧
      .backfilled 2 ∈ sink.measured := by
  have hend := Assignment.Reaches.replayed (a := finalRun)
    (finalHistory.reverse.map Moment.answer) rfl
  have hsized : Assignment.Sized finalHistory := by
    intro page hpage
    obtain rfl := List.mem_singleton.mp hpage
    decide
  refine ⟨hsized, _, ((arithmetic_stays_in_range hsized).1 _).mpr hend, ?_⟩
  exact List.mem_cons_self ..

end LedgerFeed
