import Mathlib.Logic.Relation
import LedgerFeed.Proofs.World

/-! Scenes: a run under way in its engine, and what others do with the engine meanwhile. Time passes
in the calls of the run and in its pauses, and a pause is cut short by a stop. -/

namespace LedgerFeed

/-- What anyone may do with an engine at any time. -/
inductive Operation where
  | stop
  | setFilters (filters : List EventFilter)
  | clearFilters
  | reload (filters : List EventFilter)
  | bindArchive (endpoint : String)
  | setArchive (endpoint : String)
  | start (request : RunRequest)

namespace Engine

def operate (e : Engine) : Operation → Engine
  | .stop => e.stop
  | .setFilters filters => (e.setFilters filters).toOption.getD e
  | .clearFilters => e.clearFilters
  | .reload filters => e.reload filters
  | .bindArchive endpoint => (e.bindArchive endpoint).toOption.getD e
  | .setArchive endpoint => (e.setArchive endpoint).toOption.getD e
  | .start request => (e.start request).1

theorem control_setFilters (e : Engine) (filters : List EventFilter) :
    ((e.setFilters filters).toOption.getD e).control = e.control := by
  unfold setFilters
  split <;> rfl

theorem control_reload (e : Engine) (filters : List EventFilter) :
    (e.reload filters).control = e.control := by
  unfold reload
  split
  · rfl
  · have hcontrol := e.control_setFilters filters
    revert hcontrol
    cases e.setFilters filters with
    | ok => exact id
    | error => exact id

theorem control_bindArchive (e : Engine) (endpoint : String) :
    ((e.bindArchive endpoint).toOption.getD e).control = e.control := by
  unfold bindArchive
  split <;> rfl

theorem control_setArchive (e : Engine) (endpoint : String) :
    ((e.setArchive endpoint).toOption.getD e).control = e.control := by
  rw [setArchive_eq]
  split
  · rfl
  split
  · rfl
  · exact e.control_bindArchive endpoint

theorem start_cases (e : Engine) (request : RunRequest) :
    e.control.gate ≠ .idle ∧ e.start request = (e, .error .alreadyRunning) ∨
    e.control.gate = .idle ∧
      ((∃ error, e.allow request = .error error ∧
          e.start request = ({ e with control := e.control.release }, .error error)) ∨
        e.allow request = .ok () ∧
          e.start request = (settle { e with control := ⟨.running, false⟩ } (e.assign request)
            (e.assign request).begin).map id .ok) := by
  unfold start
  by_cases hgate : e.control.gate = .idle
  · refine .inr ⟨hgate, ?_⟩
    rw [Control.enter?_eq_some_iff.mpr ⟨hgate, rfl⟩]
    cases hallow : e.allow request with
    | error error => exact .inl ⟨error, rfl, rfl⟩
    | ok => exact .inr ⟨rfl, rfl⟩
  · exact .inl ⟨hgate, by rw [Control.enter?, if_neg hgate]⟩

theorem start_of_taken {e : Engine} (h : e.control.gate ≠ .idle) (request : RunRequest) :
    e.start request = (e, .error .alreadyRunning) := by
  rcases e.start_cases request with ⟨-, hstart⟩ | ⟨hgate, -⟩
  · exact hstart
  · exact absurd hgate h

theorem start_of_running {e : Engine} (h : e.control.gate = .running) (request : RunRequest) :
    e.start request = (e, .error .alreadyRunning) :=
  start_of_taken (by simp [h]) request

theorem control_operate {e : Engine} (h : e.control.gate = .running) (op : Operation) :
    (e.operate op).control = e.control ∨
      (e.operate op).control = { e.control with stop := true } := by
  cases op with
  | stop => exact .inr (Control.requestStop_of_running (by simp [Control.isRunning, h]))
  | setFilters filters => exact .inl (e.control_setFilters filters)
  | clearFilters => exact .inl rfl
  | reload filters => exact .inl (e.control_reload filters)
  | bindArchive endpoint => exact .inl (e.control_bindArchive endpoint)
  | setArchive endpoint => exact .inl (e.control_setArchive endpoint)
  | start request => exact .inl (by rw [operate, start_of_running h])

theorem start_eq_ok {e : Engine} {request : RunRequest} {flight : Flight}
    (h : (e.start request).2 = .ok flight) :
    e.allow request = .ok () ∧
      (e.start request).1 = (settle { e with control := ⟨.running, false⟩ } (e.assign request)
        (e.assign request).begin).1 := by
  rcases e.start_cases request with ⟨-, hstart⟩ | ⟨-, ⟨error, -, hstart⟩ | ⟨hallow, hstart⟩⟩
  · cases hstart ▸ h
  · cases hstart ▸ h
  · exact ⟨hallow, by rw [hstart]; rfl⟩

theorem flight_of_start {e : Engine} {request : RunRequest} {flight : Flight}
    (h : (e.start request).2 = .ok flight) :
    flight = (settle { e with control := ⟨.running, false⟩ } (e.assign request)
      (e.assign request).begin).2 := by
  rcases e.start_cases request with ⟨-, hstart⟩ | ⟨-, ⟨error, -, hstart⟩ | ⟨-, hstart⟩⟩
  · cases hstart ▸ h
  · cases hstart ▸ h
  · rw [hstart] at h
    exact (Except.ok.inj h).symm

/-- Whether a run is let in does not depend on the configuration. -/
theorem start_eq_error_iff (e : Engine) (config : EngineConfig) (request : RunRequest)
    (error : IngestError) : (start { e with config } request).2 = .error error ↔
      (e.start request).2 = .error error := by
  unfold start
  cases e.control.enter? with
  | none => exact Iff.rfl
  | some entered =>
    have hallow : allow { e with config } request = e.allow request := rfl
    simp only [hallow]
    cases e.allow request with
    | error => exact Iff.rfl
    | ok => simp

theorem check_of_allow {e : Engine} {request : RunRequest} (h : e.allow request = .ok ()) :
    request.check = .ok () := by
  unfold allow at h
  cases hcheck : request.check with
  | error error =>
    rw [hcheck] at h
    cases h
  | ok => rfl

end Engine

structure Scene (a : Assignment) where
  engine : Engine
  history : List (Moment a)
  progress : Progress
  paused : Nat

namespace Scene

variable {a : Assignment}

def answer (s : Scene a) (sink : Sink) (pending : Pending) (reply : (pending.question a).Reply) :
    Scene a :=
  { s with
    engine := (s.engine.reply ⟨a, sink, pending⟩ reply).1
    history := ⟨pending, s.engine.signals, reply⟩ :: s.history
    progress := a.resume s.engine.signals sink pending reply }

inductive Step : Scene a → Scene a → Prop
  | operate {s : Scene a} {sink : Sink} {pending : Pending} (h : s.progress = .waiting sink pending)
      (op : Operation) : Step s { s with engine := s.engine.operate op }
  | pause {s : Scene a} {sink : Sink} {milliseconds : UInt64} {wait : Wait}
      (h : s.progress = .waiting sink (.pause milliseconds wait))
      (hs : s.engine.control.stop = false) (time : Nat) :
      Step s { s with paused := s.paused + time }
  | reply {s : Scene a} {sink : Sink} {pending : Pending} (h : s.progress = .waiting sink pending)
      (reply : (pending.question a).Reply) : Step s (s.answer sink pending reply)

def Later : Scene a → Scene a → Prop :=
  Relation.ReflTransGen Step

def opening (e : Engine) (request : RunRequest) : Scene (e.assign request) :=
  ⟨(e.start request).1, [], (e.assign request).begin, 0⟩

def questions (s : Scene a) : List Question :=
  match s.progress with
  | .waiting _ pending => asked s.history ++ [pending.question a]
  | .ended _ _ => asked s.history

def stop (s : Scene a) : Scene a :=
  { s with engine := s.engine.stop }

/-- The run stands where its history leaves it, and holds the gate as long as it is under way. -/
structure Sound (s : Scene a) : Prop where
  reaches : a.Reaches s.history s.progress
  running : ∀ sink pending, s.progress = .waiting sink pending → s.engine.control.gate = .running

theorem engine_answer {s : Scene a} {sink sink' : Sink} {pending pending' : Pending}
    {reply : (pending.question a).Reply}
    (h : (s.answer sink pending reply).progress = .waiting sink' pending') :
    (s.answer sink pending reply).engine = s.engine := by
  change (s.engine.settle a (a.resume s.engine.signals sink pending reply)).1 = s.engine
  rw [show a.resume s.engine.signals sink pending reply = .waiting sink' pending' from h]
  rfl

theorem opening_sound {e : Engine} {request : RunRequest} {flight : Flight}
    (h : (e.start request).2 = .ok flight) : (opening e request).Sound := by
  refine ⟨.begin, fun sink pending hw => ?_⟩
  have hengine := (Engine.start_eq_ok h).2
  rw [show (e.assign request).begin = .waiting sink pending from hw] at hengine
  exact congrArg (·.control.gate) hengine

theorem Step.sound {s s' : Scene a} (h : Step s s') (hs : s.Sound) : s'.Sound := by
  cases h with
  | operate h op =>
    refine ⟨hs.reaches, fun sink pending hw => ?_⟩
    have hrunning := hs.running _ _ h
    rcases Engine.control_operate hrunning op with hcontrol | hcontrol
    · exact hcontrol ▸ hrunning
    · exact hcontrol ▸ hrunning
  | pause => exact ⟨hs.reaches, hs.running⟩
  | @reply sink pending h reply =>
    refine ⟨?_, fun sink' pending' hw => ?_⟩
    · have hreaches := hs.reaches
      rw [h] at hreaches
      exact hreaches.resume s.engine.signals reply
    · rw [engine_answer hw]
      exact hs.running _ _ h

theorem Later.sound {s s' : Scene a} (h : Later s s') (hs : s.Sound) : s'.Sound := by
  induction h with
  | refl => exact hs
  | tail _ step ih => exact step.sound ih

/-- What has happened since a stop was asked for: the stop stays, no pause goes on, and all answers
came with the stop. -/
structure Since (s s' : Scene a) : Prop where
  paused : s'.paused = s.paused
  raised : ∀ sink pending, s'.progress = .waiting sink pending → s'.engine.control.stop = true
  history : ∃ later, s'.history = later ++ s.history ∧ ∀ m ∈ later, m.signals.stop = true

theorem Step.since {s s' s'' : Scene a} (h : Step s' s'') (hs : s'.Sound) (hsince : Since s s') :
    Since s s'' := by
  obtain ⟨hpaused, hraised, hhistory⟩ := hsince
  cases h with
  | operate h op =>
    refine ⟨hpaused, fun sink pending hw => ?_, hhistory⟩
    rcases Engine.control_operate (hs.running _ _ h) op with hcontrol | hcontrol
    · exact hcontrol ▸ hraised sink pending hw
    · exact hcontrol ▸ rfl
  | pause h hs =>
    rw [hraised _ _ h] at hs
    cases hs
  | @reply sink pending h reply =>
    refine ⟨hpaused, fun sink' pending' hw => ?_, ?_⟩
    · rw [engine_answer hw]
      exact hraised _ _ h
    · obtain ⟨later, hhistory, hstopped⟩ := hhistory
      refine ⟨⟨pending, s'.engine.signals, reply⟩ :: later, congrArg _ hhistory, fun m hm => ?_⟩
      rcases List.mem_cons.mp hm with rfl | hm
      · exact hraised _ _ h
      · exact hstopped m hm

theorem Later.since {s s' : Scene a} {sink : Sink} {pending : Pending} (hs : s.Sound)
    (hw : s.progress = .waiting sink pending) (h : Later s.stop s') :
    s'.Sound ∧ Since s s' := by
  have hstep : Step s s.stop := .operate hw .stop
  have hcontrol : s.stop.engine.control = { s.engine.control with stop := true } :=
    Control.requestStop_of_running (by simp [Control.isRunning, hs.running _ _ hw])
  induction h with
  | refl =>
    refine ⟨hstep.sound hs, rfl, fun _ _ _ => by rw [hcontrol], [], rfl, ?_⟩
    intro m hm
    cases hm
  | tail _ step ih => exact ⟨step.sound ih.1, step.since ih.1 ih.2⟩

end Scene
end LedgerFeed
