import Mathlib.Logic.Function.Basic
import Mathlib.Tactic.ByContra
import LedgerFeed.Proofs.Flight

/-! The entrance of an engine: any number of callers who want a run of their own, each with the
steps of a start in their order, and stop requests in between. A stop request is honoured by the run
that it finds under way, and by no other. -/

namespace LedgerFeed

/-- How far a caller has come. Until it is outside again it holds the guard of the gate. -/
inductive Stage where
  | outside
  | entered
  | cleared
  | active
  deriving DecidableEq

@[simp] def Stage.gate : Stage → Gate
  | outside => .idle
  | entered | cleared => .starting
  | active => .running

theorem Stage.gate_eq_idle {stage : Stage} : stage.gate = .idle ↔ stage = .outside := by
  cases stage <;> simp

theorem Stage.gate_eq_running {stage : Stage} : stage.gate = .running ↔ stage = .active := by
  cases stage <;> simp

inductive Access (Caller : Type) where
  | enter (c : Caller)
  | clear (c : Caller)
  | activate (c : Caller)
  | leave (c : Caller)
  | stop

structure Entrance (Caller : Type) where
  control : Control
  stage : Caller → Stage

namespace Entrance

variable {Caller : Type} {s s' : Entrance Caller} {c d : Caller}

def initial : Entrance Caller := ⟨.initial, fun _ => .outside⟩

/-- One caller at most is inside. It alone decides what the gate shows, and it finds no stop
request between clearing the old ones and honouring new ones. -/
structure Guarded (s : Entrance Caller) : Prop where
  alone : ∀ c d, s.stage c ≠ .outside → s.stage d ≠ .outside → c = d
  gate : ∀ c, s.stage c ≠ .outside → s.control.gate = (s.stage c).gate
  idle : (∀ c, s.stage c = .outside) → s.control.gate = .idle
  cleared : ∀ c, s.stage c = .cleared → s.control.stop = false

theorem guarded_initial : (initial : Entrance Caller).Guarded where
  alone _ _ hc := absurd rfl hc
  gate _ hc := absurd rfl hc
  idle _ := rfl
  cleared _ _ := rfl

theorem Guarded.idle_iff (h : s.Guarded) :
    s.control.gate = .idle ↔ ∀ c, s.stage c = .outside := by
  refine ⟨fun hidle c => ?_, h.idle⟩
  by_contra hc
  exact hc (Stage.gate_eq_idle.mp (h.gate c hc ▸ hidle))

theorem Guarded.exists_active (h : s.Guarded) (hgate : s.control.gate = .running) :
    ∃ c, s.stage c = .active := by
  have hinside : ∃ c, s.stage c ≠ .outside := by
    by_contra hall
    have hidle := h.idle fun c => of_not_not fun hc => hall ⟨c, hc⟩
    cases hgate.symm.trans hidle
  obtain ⟨c, hc⟩ := hinside
  exact ⟨c, Stage.gate_eq_running.mp (h.gate c hc ▸ hgate)⟩

theorem Guarded.others (h : s.Guarded) (hc : s.stage c ≠ .outside) :
    ∀ d ≠ c, s.stage d = .outside := by
  intro d hd
  by_contra hinside
  exact hd (h.alone d c hinside hc)

variable [DecidableEq Caller]

def move (s : Entrance Caller) (c : Caller) (control : Control) (stage : Stage) :
    Entrance Caller :=
  ⟨control, Function.update s.stage c stage⟩

def access? (s : Entrance Caller) : Access Caller → Option (Entrance Caller)
  | .enter c =>
    if s.stage c = .outside then
      match s.control.enter? with
      | some entered => some (s.move c entered .entered)
      | none => some s
    else none
  | .clear c =>
    if s.stage c = .entered then some (s.move c s.control.clearStop .cleared) else none
  | .activate c =>
    if s.stage c = .cleared then some (s.move c s.control.activate .active) else none
  | .leave c =>
    if s.stage c = .outside then none else some (s.move c s.control.release .outside)
  | .stop => some { s with control := s.control.requestStop }

def walk? (s : Entrance Caller) (accesses : List (Access Caller)) : Option (Entrance Caller) :=
  accesses.foldlM access? s

@[simp] theorem walk?_nil (s : Entrance Caller) : s.walk? [] = some s := rfl

@[simp] theorem walk?_cons (s : Entrance Caller) (a : Access Caller)
    (accesses : List (Access Caller)) :
    s.walk? (a :: accesses) = (s.access? a).bind (walk? · accesses) :=
  List.foldlM_cons

@[simp] theorem control_move (s : Entrance Caller) (c : Caller) (control : Control)
    (stage : Stage) : (s.move c control stage).control = control := rfl

@[simp] theorem stage_move (s : Entrance Caller) (c : Caller) (control : Control) (stage : Stage) :
    (s.move c control stage).stage c = stage :=
  Function.update_self ..

theorem stage_move_of_ne (hd : d ≠ c) (control : Control) (stage : Stage) :
    (s.move c control stage).stage d = s.stage d :=
  Function.update_of_ne hd ..

@[simp] theorem move_move (s : Entrance Caller) (c : Caller) (control control' : Control)
    (stage stage' : Stage) :
    (s.move c control stage).move c control' stage' = s.move c control' stage' := by
  simp [move]

theorem access?_enter_eq_some (h : s.access? (.enter c) = some s') :
    s' = s ∨ s.control.gate = .idle ∧
      s' = s.move c { s.control with gate := .starting } .entered := by
  simp only [access?] at h
  split at h
  case isTrue =>
    split at h
    case h_1 entered henter =>
      obtain ⟨hidle, rfl⟩ := Control.enter?_eq_some_iff.mp henter
      exact .inr ⟨hidle, (Option.some.inj h).symm⟩
    case h_2 => exact .inl (Option.some.inj h).symm
  case isFalse => cases h

theorem access?_clear_eq_some (h : s.access? (.clear c) = some s') :
    s.stage c = .entered ∧ s' = s.move c s.control.clearStop .cleared := by
  simp only [access?, Option.ite_none_right_eq_some, Option.some.injEq] at h
  exact ⟨h.1, h.2.symm⟩

theorem access?_activate_eq_some (h : s.access? (.activate c) = some s') :
    s.stage c = .cleared ∧ s' = s.move c s.control.activate .active := by
  simp only [access?, Option.ite_none_right_eq_some, Option.some.injEq] at h
  exact ⟨h.1, h.2.symm⟩

theorem access?_leave_eq_some (h : s.access? (.leave c) = some s') :
    s.stage c ≠ .outside ∧ s' = s.move c s.control.release .outside := by
  simp only [access?, Option.ite_none_left_eq_some, Option.some.injEq] at h
  exact ⟨h.1, h.2.symm⟩

theorem access?_stop_of_not_running (h : s.control.gate ≠ .running) :
    s.access? .stop = some s := by
  rw [access?, Control.requestStop_of_not_running (by simp [Control.isRunning, h])]

theorem guarded_move {control : Control} {stage : Stage} (hothers : ∀ d ≠ c, s.stage d = .outside)
    (hgate : control.gate = stage.gate) (hcleared : stage = .cleared → control.stop = false) :
    (s.move c control stage).Guarded := by
  have only (d : Caller) (hd : (s.move c control stage).stage d ≠ .outside) : d = c := by
    by_contra hne
    rw [stage_move_of_ne hne] at hd
    exact hd (hothers d hne)
  constructor
  · intro d d' hd hd'
    rw [only d hd, only d' hd']
  · intro d hd
    rw [only d hd, stage_move]
    exact hgate
  · intro hall
    have hstage := hall c
    rw [stage_move] at hstage
    exact hgate.trans (Stage.gate_eq_idle.mpr hstage)
  · intro d hd
    rw [only d (by simp [hd]), stage_move] at hd
    exact hcleared hd

theorem Guarded.access {a : Access Caller} (h : s.Guarded) (ha : s.access? a = some s') :
    s'.Guarded := by
  cases a with
  | enter c =>
    rcases access?_enter_eq_some ha with rfl | ⟨hidle, rfl⟩
    · exact h
    · exact guarded_move (fun d _ => h.idle_iff.mp hidle d) rfl nofun
  | clear c =>
    obtain ⟨hstage, rfl⟩ := access?_clear_eq_some ha
    have hinside : s.stage c ≠ .outside := by simp [hstage]
    have hgate : s.control.gate = .starting := by rw [h.gate c hinside, hstage, Stage.gate]
    exact guarded_move (h.others hinside) hgate fun _ => rfl
  | activate c =>
    obtain ⟨hstage, rfl⟩ := access?_activate_eq_some ha
    exact guarded_move (h.others (by simp [hstage])) rfl nofun
  | leave c =>
    obtain ⟨hinside, rfl⟩ := access?_leave_eq_some ha
    exact guarded_move (h.others hinside) rfl nofun
  | stop =>
    by_cases hgate : s.control.gate = .running
    · obtain rfl := Option.some.inj ha
      refine ⟨h.alone, by simpa using h.gate, by simpa using h.idle, fun c hc => ?_⟩
      -- nobody is about to honour stop requests while somebody else does
      have hstage : s.stage c = .cleared := hc
      have hshown := h.gate c (by simp [hstage])
      rw [hgate, hstage] at hshown
      cases hshown
    · rw [access?_stop_of_not_running hgate] at ha
      exact Option.some.inj ha ▸ h

theorem walk_invariant {I : Entrance Caller → Prop} {accesses : List (Access Caller)}
    (hkeeps : ∀ a ∈ accesses, ∀ s s', I s → s.access? a = some s' → I s') (h : I s)
    (hwalk : s.walk? accesses = some s') : I s' := by
  induction accesses generalizing s with
  | nil => exact Option.some.inj hwalk ▸ h
  | cons a accesses ih =>
    rw [walk?_cons, Option.bind_eq_some_iff] at hwalk
    obtain ⟨between, ha, hrest⟩ := hwalk
    have hbetween : I between := hkeeps a (List.mem_cons_self ..) s between h ha
    exact ih (fun b hb => hkeeps b (List.mem_cons_of_mem a hb)) hbetween hrest

theorem Guarded.walk {accesses : List (Access Caller)} (h : s.Guarded)
    (hwalk : s.walk? accesses = some s') : s'.Guarded :=
  walk_invariant (fun _ _ _ _ h ha => h.access ha) h hwalk

def Stopping (s : Entrance Caller) (c : Caller) : Prop :=
  s.stage c = .active ∧ s.control.stop = true

omit [DecidableEq Caller] in
theorem Guarded.running (h : s.Guarded) (hc : s.stage c = .active) : s.control.gate = .running := by
  rw [h.gate c (by simp [hc]), hc, Stage.gate]

theorem Stopping.of_stop (hc : s.stage c = .active) (hgate : s.control.gate = .running)
    (ha : s.access? .stop = some s') : s'.Stopping c := by
  obtain rfl := Option.some.inj ha
  exact ⟨hc, by rw [Control.requestStop_of_running (by simp [Control.isRunning, hgate])]⟩

theorem Stopping.access {a : Access Caller} (h : s.Stopping c) (hs : s.Guarded)
    (ha : s.access? a = some s') (hstay : a ≠ .leave c) : s'.Stopping c := by
  obtain ⟨hactive, hstop⟩ := h
  have hinside : s.stage c ≠ .outside := by simp [hactive]
  cases a with
  | enter d =>
    rcases access?_enter_eq_some ha with rfl | ⟨hidle, -⟩
    · exact ⟨hactive, hstop⟩
    · cases (hs.running hactive).symm.trans hidle
  | clear d =>
    obtain ⟨hstage, -⟩ := access?_clear_eq_some ha
    obtain rfl := hs.alone d c (by simp [hstage]) hinside
    cases hactive.symm.trans hstage
  | activate d =>
    obtain ⟨hstage, -⟩ := access?_activate_eq_some ha
    obtain rfl := hs.alone d c (by simp [hstage]) hinside
    cases hactive.symm.trans hstage
  | leave d =>
    obtain ⟨hd, -⟩ := access?_leave_eq_some ha
    exact absurd (congrArg Access.leave (hs.alone d c hd hinside)) hstay
  | stop => exact .of_stop hactive (hs.running hactive) ha

theorem Stopping.walk {accesses : List (Access Caller)} (h : s.Stopping c) (hs : s.Guarded)
    (hwalk : s.walk? accesses = some s') (hstay : .leave c ∉ accesses) : s'.Stopping c := by
  have hkeeps : ∀ a ∈ accesses, ∀ s s' : Entrance Caller, s.Guarded ∧ s.Stopping c →
      s.access? a = some s' → s'.Guarded ∧ s'.Stopping c := by
    rintro a hmem s s' ⟨hs, h⟩ ha
    have hother : a ≠ .leave c := fun hleave => hstay (hleave ▸ hmem)
    exact ⟨hs.access ha, h.access hs ha hother⟩
  exact (walk_invariant hkeeps ⟨hs, h⟩ hwalk).2

end Entrance

/-! What an engine does at its gate is what its callers do at an entrance. -/

namespace Engine

open Entrance

variable {Caller : Type} {s : Entrance Caller} {c : Caller} {e : Engine}

def departure (c : Caller) : Flight → List (Access Caller)
  | .over _ => [.leave c]
  | .underWay _ => []

def visit (c : Caller) : Except IngestError Flight → List (Access Caller)
  | .error .alreadyRunning => [.enter c]
  | .error _ => [.enter c, .leave c]
  | .ok flight => [.enter c, .clear c, .activate c] ++ departure c flight

theorem visit_error {error : IngestError} (h : error ≠ .alreadyRunning) (c : Caller) :
    visit c (.error error) = [.enter c, .leave c] := by
  cases error <;> first | rfl | contradiction

variable [DecidableEq Caller]

theorem access?_enter_of_idle (hcontrol : e.control = s.control) (hc : s.stage c = .outside)
    (hidle : e.control.gate = .idle) :
    s.access? (.enter c) = some (s.move c { e.control with gate := .starting } .entered) := by
  rw [hcontrol] at hidle ⊢
  rw [access?, if_pos hc, Control.enter?_eq_some_iff.mpr ⟨hidle, rfl⟩]

theorem walk?_departure (hcontrol : e.control = s.control) (hc : s.stage c = .active)
    (a : Assignment) (p : Progress) :
    ∃ s', s.walk? (departure c (e.settle a p).2) = some s' ∧
      s'.control = (e.settle a p).1.control := by
  cases p with
  | ended sink result =>
    refine ⟨s.move c s.control.release .outside, ?_, by rw [← hcontrol]; rfl⟩
    simp [settle, departure, access?, hc]
  | waiting sink pending => exact ⟨s, rfl, hcontrol.symm⟩

/-- Every start goes through the entrance step by step, as far as it is let. -/
theorem walk?_visit (hcontrol : e.control = s.control) (hc : s.stage c = .outside)
    (request : RunRequest) :
    ∃ s', s.walk? (visit c (e.start request).2) = some s' ∧
      s'.control = (e.start request).1.control := by
  rcases e.start_cases request with
    ⟨htaken, hstart⟩ | ⟨hidle, ⟨error, hallow, hstart⟩ | ⟨-, hstart⟩⟩
  case inl =>
    have henter : s.control.enter? = none := by rw [← hcontrol, Control.enter?, if_neg htaken]
    refine ⟨s, ?_, by rw [hstart, hcontrol]⟩
    simp [hstart, visit, access?, hc, henter]
  case inr.inl =>
    have herror : error ≠ .alreadyRunning := by
      rintro rfl
      exact e.allow_ne_alreadyRunning request hallow
    refine ⟨s.move c e.control.release .outside, ?_, by rw [hstart]; rfl⟩
    rw [hstart, visit_error herror, walk?_cons, access?_enter_of_idle hcontrol hc hidle]
    simp [access?, Control.release]
  case inr.inr =>
    let begun : Engine := { e with control := ⟨.running, false⟩ }
    obtain ⟨s', hwalk, hs'⟩ := walk?_departure (e := begun)
      (s := s.move c ⟨.running, false⟩ .active) rfl (stage_move ..) (e.assign request)
      (e.assign request).begin
    have hflight : (e.start request).2 =
        .ok (begun.settle (e.assign request) (e.assign request).begin).2 := by rw [hstart]; rfl
    refine ⟨s', ?_, by rw [hs', hstart]; rfl⟩
    rw [hflight, visit, List.cons_append, walk?_cons, access?_enter_of_idle hcontrol hc hidle]
    simpa [access?, Control.clearStop, Control.activate] using hwalk

end Engine

namespace Entrance

open Engine

variable {Caller : Type} [DecidableEq Caller]

/-- However callers and stop requests come upon an entrance, one guard at most is held, and the gate
is idle exactly without one. A stop request changes nothing unless a run is under way: none is there
when a run begins, and one that finds a run stays until this run gives its guard back. The starts,
replies and stop requests of an engine are such accesses. -/
theorem stop_meets_its_run {accesses : List (Access Caller)} {s : Entrance Caller}
    (h : initial.walk? accesses = some s) :
    (∀ c d, s.stage c ≠ .outside → s.stage d ≠ .outside → c = d) ∧
    (s.control.gate = .idle ↔ ∀ c, s.stage c = .outside) ∧
    (s.control.gate ≠ .running → s.access? .stop = some s) ∧
    (∀ c s', s.access? (.activate c) = some s' →
      s.control.stop = false ∧ s'.control = ⟨.running, false⟩) ∧
    (s.control.gate = .running → ∃ c, s.stage c = .active ∧
      ∀ later s', s.walk? (.stop :: later) = some s' → .leave c ∉ later →
        s'.stage c = .active ∧ s'.control.stop = true) ∧
    (∀ e : Engine, e.control = s.control →
      (s.access? .stop = some { s with control := e.stop.control }) ∧
      (∀ c request, s.stage c = .outside → ∃ s', s.walk? (visit c (e.start request).2) = some s' ∧
        s'.control = (e.start request).1.control) ∧
      ∀ c run answer, s.stage c = .active →
        ∃ s', s.walk? (departure c (e.reply run answer).2) = some s' ∧
          s'.control = (e.reply run answer).1.control) := by
  have hs : s.Guarded := guarded_initial.walk h
  refine ⟨hs.alone, hs.idle_iff, access?_stop_of_not_running, fun c s' ha => ?_, fun hgate => ?_,
    fun e hcontrol => ⟨?_, fun c request hc => walk?_visit hcontrol hc request,
      fun c run answer hc => walk?_departure hcontrol hc ..⟩⟩
  · obtain ⟨hstage, rfl⟩ := access?_activate_eq_some ha
    have hclear := hs.cleared c hstage
    exact ⟨hclear, congrArg (Control.mk .running) hclear⟩
  · obtain ⟨c, hc⟩ := hs.exists_active hgate
    refine ⟨c, hc, fun later s' hwalk hstay => ?_⟩
    rw [walk?_cons, Option.bind_eq_some_iff] at hwalk
    obtain ⟨between, ha, hrest⟩ := hwalk
    have hstopping : between.Stopping c := .of_stop hc hgate ha
    exact hstopping.walk (hs.access ha) hrest hstay
  · rw [access?, ← hcontrol]
    rfl

theorem stop_meets_first_of_two : ∃ s : Entrance Bool,
    initial.walk? [.stop, .enter false, .enter true, .stop, .clear false, .stop, .activate false] =
      some s ∧
    s.control = ⟨.running, false⟩ ∧ s.stage true = .outside ∧
    ∃ c, s.stage c = .active ∧
      ∀ later s', s.walk? (.stop :: later) = some s' → .leave c ∉ later →
        s'.stage c = .active ∧ s'.control.stop = true := by
  refine ⟨_, rfl, rfl, rfl, ?_⟩
  obtain ⟨-, -, -, -, hstop, -⟩ := @stop_meets_its_run Bool _
    [.stop, .enter false, .enter true, .stop, .clear false, .stop, .activate false] _ rfl
  exact hstop rfl

end Entrance
end LedgerFeed
