import LedgerFeed.Run.Step

/-! Histories of a run: each question that it waited on, how the signals stood when the answer came,
and the answer. A history determines where the run stands. -/

namespace LedgerFeed

structure Moment (a : Assignment) where
  pending : Pending
  signals : Signals
  reply : (pending.question a).Reply

namespace Moment

variable {a : Assignment}

def question (m : Moment a) : Question :=
  m.pending.question a

end Moment

/-- What a run has answered so far, latest first, and where that leaves it. -/
inductive Assignment.Reaches (a : Assignment) : List (Moment a) → Progress → Prop
  | begin : Reaches a [] a.begin
  | resume {history : List (Moment a)} {sink : Sink} {pending : Pending}
      (h : Reaches a history (.waiting sink pending)) (signals : Signals)
      (reply : (pending.question a).Reply) :
      Reaches a (⟨pending, signals, reply⟩ :: history) (a.resume signals sink pending reply)

namespace Assignment.Reaches

variable {a : Assignment} {history : List (Moment a)}

theorem unique {p q : Progress} (hp : a.Reaches history p) (hq : a.Reaches history q) : p = q := by
  induction hp generalizing q with
  | begin =>
    cases hq
    rfl
  | resume _ signals reply ih =>
    cases hq with
    | resume hq =>
      obtain ⟨rfl, -⟩ := Progress.waiting.inj (ih hq)
      rfl

theorem of_append {later : List (Moment a)} {p : Progress} (h : a.Reaches (later ++ history) p) :
    ∃ q, a.Reaches history q := by
  induction later generalizing p with
  | nil => exact ⟨p, h⟩
  | cons _ _ ih =>
    cases h with
    | resume h => exact ih h

theorem not_cons_of_ended {sink : Sink} {result : Except IngestError Exit}
    (h : a.Reaches history (.ended sink result)) (m : Moment a) (p : Progress) :
    ¬a.Reaches (m :: history) p := by
  intro hm
  cases hm with
  | resume hw => exact Progress.noConfusion (unique h hw)

theorem eq_nil_or_next {sink : Sink} {pending : Pending}
    (hw : a.Reaches history (.waiting sink pending)) {later : List (Moment a)} {p : Progress}
    (h : a.Reaches (later ++ history) p) :
    later = [] ∧ p = .waiting sink pending ∨
      ∃ rest m q, m.pending = pending ∧ later = rest ++ [m] ∧ a.Reaches (m :: history) q ∧
        a.Reaches (rest ++ m :: history) p := by
  rcases List.eq_nil_or_concat later with rfl | ⟨rest, m, rfl⟩
  · exact .inl ⟨rfl, h.unique hw⟩
  · rw [List.concat_eq_append] at h ⊢
    rw [List.append_assoc, List.singleton_append] at h
    obtain ⟨q, hq⟩ := h.of_append
    refine .inr ⟨rest, m, q, ?_, rfl, hq, h⟩
    cases hq with
    | resume hw' => exact (Progress.waiting.inj (hw'.unique hw)).2

theorem eq_nil_of_ended {sink : Sink} {result : Except IngestError Exit}
    (he : a.Reaches history (.ended sink result)) {later : List (Moment a)} {p : Progress}
    (h : a.Reaches (later ++ history) p) : later = [] ∧ p = .ended sink result := by
  rcases List.eq_nil_or_concat later with rfl | ⟨rest, m, rfl⟩
  · exact ⟨rfl, h.unique he⟩
  · rw [List.concat_eq_append, List.append_assoc, List.singleton_append] at h
    obtain ⟨q, hq⟩ := h.of_append
    exact absurd hq (he.not_cons_of_ended m q)

end Assignment.Reaches

/-! A run of which the answers are known. -/

inductive Answer where
  | health (reply : Except NodeFailure Health)
  | events (reply : Except NodeFailure EventsPage)
  | ledgers (reply : Except NodeFailure LedgersPage)
  | verdict (reply : Verdict)
  | pause

def Answer.of : (q : Question) → q.Reply → Answer
  | .health _, reply => health reply
  | .events _, reply => events reply
  | .ledgers _, reply => ledgers reply
  | .handle _, reply => verdict reply
  | .pause _, _ => pause

def Answer.reply? : Answer → (q : Question) → Option q.Reply
  | health reply, .health _ => some reply
  | events reply, .events _ => some reply
  | ledgers reply, .ledgers _ => some reply
  | verdict reply, .handle _ => some reply
  | pause, .pause _ => some ()
  | _, _ => none

/-- Answers that come while no stop is requested and no filter is set. -/
def quietly (answers : List Answer) : List (Signals × Answer) :=
  answers.map (⟨false, []⟩, ·)

def Moment.answer {a : Assignment} (m : Moment a) : Signals × Answer :=
  (m.signals, .of m.question m.reply)

namespace Assignment

variable (a : Assignment)

def answer? : List (Moment a) × Progress → Signals × Answer → Option (List (Moment a) × Progress)
  | (history, .waiting sink pending), (signals, answer) => do
    let reply ← answer.reply? (pending.question a)
    return (⟨pending, signals, reply⟩ :: history, a.resume signals sink pending reply)
  | (_, .ended ..), _ => none

def replay? (answers : List (Signals × Answer)) : Option (List (Moment a) × Progress) :=
  answers.foldlM a.answer? ([], a.begin)

variable {a} {history : List (Moment a)} {p : Progress}

theorem Reaches.answer? (h : a.Reaches history p) {given : Signals × Answer}
    {later : List (Moment a) × Progress} (hgiven : a.answer? (history, p) given = some later) :
    a.Reaches later.1 later.2 := by
  cases p with
  | ended => cases hgiven
  | waiting sink pending =>
    obtain ⟨reply, -, hlater⟩ := Option.bind_eq_some_iff.mp hgiven
    obtain rfl := Option.some.inj hlater
    exact h.resume given.1 reply

theorem Reaches.answers (h : a.Reaches history p) {answers : List (Signals × Answer)}
    {later : List (Moment a) × Progress}
    (hgiven : answers.foldlM a.answer? (history, p) = some later) :
    a.Reaches later.1 later.2 := by
  induction answers generalizing history p with
  | nil =>
    obtain rfl := Option.some.inj hgiven
    exact h
  | cons given answers ih =>
    obtain ⟨next, hnext, hrest⟩ := Option.bind_eq_some_iff.mp hgiven
    exact ih (h.answer? hnext) hrest

theorem Reaches.replayed (answers : List (Signals × Answer))
    (h : a.replay? answers = some (history, p)) : a.Reaches history p :=
  Reaches.begin.answers h

end Assignment
end LedgerFeed
