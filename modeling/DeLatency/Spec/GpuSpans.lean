import DeLatency.ForStd.Laminar
import DeLatency.Spec.GpuExec
import Mathlib

/-!
# The spans of a worker's thread

Executions, phases and transfers are reported as spans on the wall clock, the calls of the
worker on the monotonic one.  The spans of a thread on one clock are laminar (`spans_laminar`):
the innermost call is left first, and it began after those around it.
-/

namespace DeLatency

variable {τ ρ : Type}

/-! ## Spans on a clock -/

/-- The two clocks of the patches. -/
inductive GpuClock
  | wall
  | mono

def Moment.read (m : Moment ρ) : GpuClock → ℤ
  | .wall => m.timeNs
  | .mono => m.monoNs

/-- The span that an event reports on a clock. -/
def GpuEvent.span : GpuClock → GpuEvent → Option (ℤ × ℤ)
  | .wall, .gpuExecuteModel _ _ _ _ _ _ _ startNs endNs => some (startNs, endNs)
  | .wall, .gpuPhaseSpan span => some (span.startNs, span.endNs)
  | .wall, .gpuSample _ _ _ startNs endNs => some (startNs, endNs)
  | .wall, .gpuBookkeeping _ _ _ startNs endNs => some (startNs, endNs)
  | .wall, .ppCommSpan payload => some (payload.startNs, payload.endNs)
  | .mono, .workerModelExecuteSpan _ _ _ _ _ startNs endNs _ => some (startNs, endNs)
  | _, _ => none

/-- When a wrapper began, on the clock that it reads. -/
def Wrapper.start : GpuClock → Wrapper ρ → Option ℤ
  | .mono, .worker _ startMono => some startMono
  | .wall, .runner _ startNs => some startNs
  | .wall, .phase _ startNs => some startNs
  | .wall, .ppComm _ _ _ _ startNs => some startNs
  | _, _ => none

/-- The events of one thread. -/
def eventsOf [DecidableEq τ] (emitted : List (τ × GpuEvent)) (t : τ) : List GpuEvent :=
  (emitted.filter (·.1 = t)).map Prod.snd

/-- What a thread reads on a clock, in the order of its steps. -/
def readings [DecidableEq τ] (clock : GpuClock) (steps : List (GpuStep τ ρ)) (t : τ) : List ℤ :=
  (steps.filter (·.thread = t)).map fun st => st.moment.read clock

section Laminar

variable {hexdigest : List Char → List Char} {pid : ℕ} {tid : τ → ℕ} (clock : GpuClock)

/-- The wrapper of a call starts now, or does not read the clock; no span is reported. -/
theorem open_start (t : τ) (m : Moment ρ) (call : GpuCall ρ) :
    ((call.open hexdigest pid tid t m).1.start clock = none ∨
      (call.open hexdigest pid tid t m).1.start clock = some (m.read clock)) ∧
    (call.open hexdigest pid tid t m).2.filterMap (GpuEvent.span clock) = [] := by
  -- each kind of call reads one of the clocks when it opens, and reports no span then
  cases call with
  | workerExecuteModel cfg modelRunner so =>
    refine ⟨?_, ?_⟩
    · cases clock <;> simp [GpuCall.open, Wrapper.start, Moment.read]
    · simp only [GpuCall.open]
      split <;> cases clock <;> rfl
  | runnerExecuteModel cfg runner so =>
    cases clock <;> simp [GpuCall.open, Wrapper.start, Moment.read]
  | phase name =>
    simp only [GpuCall.open]
    split <;> cases clock <;> simp [Wrapper.start, Moment.read]
  | ppComm op group peer tensorDict =>
    simp only [GpuCall.open]
    split <;> cases clock <;> simp [Wrapper.start, Moment.read]

/-- A phase reports its span once, or twice where an event of the older form goes with it. -/
theorem phaseEvents_spans (ctx : ExecContext ρ) (name : String) (startNs : ℤ) (m : Moment ρ) :
    ∃ n, (phaseEvents ctx name startNs m).filterMap (GpuEvent.span clock) =
      (((Wrapper.phase name startNs : Wrapper ρ).start clock).map fun s =>
        List.replicate n (s, m.read clock)).getD [] := by
  simp only [phaseEvents, legacyGpuPhaseEvents]
  split
  · -- no older event goes with the phase
    exact ⟨1, by cases clock <;> rfl⟩
  · split
    · exact ⟨2, by cases clock <;> rfl⟩
    · split
      · exact ⟨2, by cases clock <;> rfl⟩
      · exact ⟨1, by cases clock <;> rfl⟩

/-- The spans of a call that is left: from its start until now, each. -/
theorem close_spans (t : τ) (m : Moment ρ) (result : Option PyObj) (around : List (OpenCall ρ))
    (c : OpenCall ρ) :
    ∃ n, (c.close pid tid t m result around).filterMap (GpuEvent.span clock) =
      ((c.wrapper.start clock).map fun s => List.replicate n (s, m.read clock)).getD [] := by
  obtain ⟨w, batch⟩ := c
  cases w with
  | plain => exact ⟨0, by cases clock <;> rfl⟩
  | worker ctx startMono =>
    by_cases hids : ctx.reqIds = []
    · exact ⟨0, by cases clock <;> simp [OpenCall.close, Wrapper.start, hids]⟩
    · exact ⟨1, by cases clock <;>
        simp [OpenCall.close, Wrapper.start, GpuEvent.span, Moment.read, hids]⟩
  | runner ctx startNs =>
    exact ⟨1, by cases clock <;> simp [OpenCall.close, Wrapper.start, GpuEvent.span, Moment.read]⟩
  | phase name startNs =>
    cases hctx : innermost (noteBatch m around) with
    | none => exact ⟨0, by cases clock <;> simp [OpenCall.close, Wrapper.start, hctx]⟩
    | some ctx =>
      -- the legacy events of two of the phases report the same span once more
      obtain ⟨n, hn⟩ := phaseEvents_spans clock ctx name startNs m
      exact ⟨n, by simp only [OpenCall.close, hctx, hn, Wrapper.start]⟩
  | ppComm op group peer tensorDict startNs =>
    exact ⟨1, by cases clock <;>
      simp [OpenCall.close, Wrapper.start, GpuEvent.span, Moment.read, ppCommContextPayload]⟩

/-- The calls around a call that is left are the same as before, as far as their wrappers go. -/
theorem map_wrapper_leaveTo (m : Moment ρ) (around : List (OpenCall ρ)) (c : OpenCall ρ) :
    (c.leaveTo m around).map OpenCall.wrapper = around.map OpenCall.wrapper := by
  obtain ⟨w, batch⟩ := c
  cases w with
  | phase name startNs => exact map_wrapper_noteBatch m around
  | _ => rfl

/-- The starts of the calls that a thread is in. -/
def starts (clock : GpuClock) (calls : List (OpenCall ρ)) : List ℤ :=
  (calls.map OpenCall.wrapper).filterMap (Wrapper.start clock)

variable [DecidableEq τ]

/-- What one thread emits counts for that thread. -/
theorem eventsOf_append (emitted : List (τ × GpuEvent)) (u t : τ) (events : List GpuEvent) :
    eventsOf (emitted ++ events.map (u, ·)) t =
      eventsOf emitted t ++ if u = t then events else [] := by
  rw [eventsOf, List.filter_append, List.map_append]
  split
  · next h => simp [eventsOf, h, List.filter_map, Function.comp_def]
  · next h => simp [eventsOf, h, List.filter_map, Function.comp_def]

/-- The spans that a thread has reported. -/
def LexicalThreads.spans (l : LexicalThreads τ ρ) (t : τ) : List (ℤ × ℤ) :=
  (eventsOf l.emitted t).filterMap (GpuEvent.span clock)

variable {l : LexicalThreads τ ρ} {clock}

/-- A step of the thread keeps its spans and its open starts nested. -/
theorem nested_step {now : ℤ} {t : τ}
    (h : Nested now (starts clock (l.calls t)) (l.spans clock t)) (st : GpuStep τ ρ)
    (ht : st.thread = t) (hnow : now ≤ st.moment.read clock) :
    Nested (st.moment.read clock) (starts clock ((l.step hexdigest pid tid st).calls t))
      ((l.step hexdigest pid tid st).spans clock t) := by
  cases st with
  | enter u call m =>
    obtain rfl : u = t := ht
    obtain ⟨hstart, hspan⟩ := @open_start τ ρ hexdigest pid tid clock u m call
    have hsame : (l.step hexdigest pid tid (.enter u call m)).spans clock u = l.spans clock u := by
      simp only [LexicalThreads.spans, LexicalThreads.step, eventsOf_append, if_true,
        List.filterMap_append, hspan, List.append_nil]
    rw [hsame]
    -- only some of the wrappers read this clock when they start
    rcases hstart with hnone | hsome
    · have : starts clock ((l.step hexdigest pid tid (.enter u call m)).calls u) =
          starts clock (l.calls u) := by
        simp [LexicalThreads.step, starts, hnone]
      rw [this]
      exact h.later hnow
    · have : starts clock ((l.step hexdigest pid tid (.enter u call m)).calls u) =
          m.read clock :: starts clock (l.calls u) := by
        simp [LexicalThreads.step, starts, hsome]
      rw [this]
      exact h.enter hnow
  | leave u m result =>
    obtain rfl : u = t := ht
    cases hcalls : l.calls u with
    | nil =>
      have : l.step hexdigest pid tid (.leave u m result) = l := by
        simp [LexicalThreads.step, hcalls]
      rw [this]
      exact h.later hnow
    | cons c around =>
      -- the call that ends is the innermost one
      obtain ⟨n, hn⟩ := @close_spans τ ρ pid tid clock u m result around c
      have hspans : (l.step hexdigest pid tid (.leave u m result)).spans clock u =
          l.spans clock u ++
            ((c.wrapper.start clock).map fun s => List.replicate n (s, m.read clock)).getD [] := by
        simp only [LexicalThreads.spans, LexicalThreads.step, hcalls, eventsOf_append, if_true,
          List.filterMap_append, hn]
      have hstarts : starts clock ((l.step hexdigest pid tid (.leave u m result)).calls u) =
          starts clock around := by
        simp [LexicalThreads.step, hcalls, starts, map_wrapper_leaveTo]
      rw [hspans, hstarts]
      rw [hcalls] at h
      cases hs : c.wrapper.start clock with
      | none =>
        have : starts clock (c :: around) = starts clock around := by simp [starts, hs]
        rw [this] at h
        simpa using h.later hnow
      | some s =>
        have : starts clock (c :: around) = s :: starts clock around := by simp [starts, hs]
        rw [this] at h
        exact h.leave hnow n

/-- A step of another thread leaves both alone. -/
theorem spans_step_of_ne {t : τ} (st : GpuStep τ ρ) (ht : st.thread ≠ t) :
    (l.step hexdigest pid tid st).calls t = l.calls t ∧
      (l.step hexdigest pid tid st).spans clock t = l.spans clock t := by
  cases st with
  -- both kinds of steps write to their own thread only
  | enter u call m =>
    have hu : u ≠ t := ht
    simp [LexicalThreads.step, LexicalThreads.spans, eventsOf_append, hu, hu.symm]
  | leave u m result =>
    have hu : u ≠ t := ht
    cases hcalls : l.calls u with
    | nil => simp [LexicalThreads.step, hcalls]
    | cons c around =>
      simp [LexicalThreads.step, hcalls, LexicalThreads.spans, eventsOf_append, hu, hu.symm]

/-- From a point in a run on, while the thread's clock does not go back. -/
theorem laminar_foldl {t : τ} (steps : List (GpuStep τ ρ)) {now : ℤ}
    (h : Nested now (starts clock (l.calls t)) (l.spans clock t))
    (hclock : (now :: readings clock steps t).Pairwise (· ≤ ·)) :
    ((steps.foldl (LexicalThreads.step hexdigest pid tid) l).spans clock t).Pairwise Laminar := by
  induction steps generalizing l now with
  | nil => exact h.laminar
  | cons st steps ih =>
    rw [List.foldl_cons]
    -- a step of the thread reads its clock once; a step of another leaves the spans alone
    by_cases ht : st.thread = t
    · have hread : readings clock (st :: steps) t =
          st.moment.read clock :: readings clock steps t := by simp [readings, ht]
      rw [hread] at hclock
      obtain ⟨hnow, hrest⟩ := List.pairwise_cons.mp hclock
      exact ih (nested_step h st ht (hnow _ (List.mem_cons_self ..))) hrest
    · have hread : readings clock (st :: steps) t = readings clock steps t := by
        simp [readings, ht]
      have ⟨hcalls, hspans⟩ : (l.step hexdigest pid tid st).calls t = l.calls t ∧
          (l.step hexdigest pid tid st).spans clock t = l.spans clock t := spans_step_of_ne st ht
      refine ih ?_ (hread ▸ hclock)
      rw [hcalls, hspans]
      exact h

variable (hexdigest pid tid)

/-- The spans that a thread reports on a clock are laminar, where that clock does not go back
    between the steps of the thread. -/
theorem spans_laminar (steps : List (GpuStep τ ρ)) (t : τ) (clock : GpuClock)
    (hclock : (readings clock steps t).Pairwise (· ≤ ·)) :
    ((eventsOf (GpuThreads.run hexdigest pid tid steps).emitted t).filterMap
      (GpuEvent.span clock)).Pairwise Laminar := by
  rw [(GpuThreads.Agrees.run steps).emitted]
  -- before any step there is nothing to nest
  have hinit : Nested ((readings clock steps t).headD 0)
      (starts clock ([] : List (OpenCall ρ))) [] := .nil _
  refine laminar_foldl (l := {}) steps hinit ?_
  cases hread : readings clock steps t with
  | nil => simp
  | cons now rest =>
    rw [hread] at hclock
    refine List.pairwise_cons.mpr ⟨fun r hr => ?_, hclock⟩
    rcases List.mem_cons.mp hr with rfl | hr
    · exact le_rfl
    · exact (List.pairwise_cons.mp hclock).1 r hr

/-- A phase inside an execution. -/
def forwardSteps : List (GpuStep ℕ Unit) :=
  [.enter 0 (.runnerExecuteModel none () {}) { timeNs := 10, monoNs := 1 },
    .enter 0 (.phase "Forward") { timeNs := 20, monoNs := 2 },
    .leave 0 { timeNs := 30, monoNs := 3 } none,
    .leave 0 { timeNs := 40, monoNs := 4 } none]

/-- A forward pass inside a model execution: one span lies in the other. -/
theorem spans_laminar_forwardSteps :
    (eventsOf (GpuThreads.run id 1 id forwardSteps).emitted 0).filterMap
        (GpuEvent.span .wall) = [(20, 30), (10, 40)] ∧
      ((eventsOf (GpuThreads.run id 1 id forwardSteps).emitted 0).filterMap
        (GpuEvent.span .wall)).Pairwise Laminar :=
  ⟨rfl, spans_laminar id 1 id forwardSteps 0 .wall (by decide)⟩

end Laminar

end DeLatency
