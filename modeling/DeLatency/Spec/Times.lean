import DeLatency.Spec.Dispatch

/-!
# Nanosecond logs

The scheduler stamps its events with nanoseconds since the epoch, far above the
`1e14` that `to_ns` takes for the limit of seconds.  On such a log every dispatch
is between nanosecond times, so that reading its times twice reads the same value.
-/

namespace DeLatency

/-- The scheduler times of a log are nanoseconds once they are converted. -/
def SchedulerInNs (log : Log) : Prop :=
  ∀ ev ∈ log.schedulerEvents, ∀ t, ev.timestampNs.bind toNsInt = some t → NsTime t

variable {log : Log} {rid : String}

/-- Times that are nanoseconds as they stand are so after conversion. -/
theorem schedulerInNs_of_times
    (h : ∀ ev ∈ log.schedulerEvents, ∃ t, ev.timestampNs = some t ∧ NsTime t) :
    SchedulerInNs log := by
  intro ev hev t ht
  obtain ⟨u, hu, hns⟩ := h ev hev
  rw [hu, Option.bind_some, hns.toNsInt] at ht
  cases ht
  exact hns

/-- The times of a dispatch were read by `to_ns`, so they are positive. -/
theorem pos_of_mem_dispatches {d : DispatchInterval} (hd : d ∈ reqDispatchIntervals log rid) :
    0 < d.startNs ∧ d.startNs < d.endNs := by
  obtain ⟨out, hout, ready, _, hj⟩ :=
    (tracks_pairDispatches (extractEngineHints log.reqMetricEvents) log.schedulerEvents
      rid).intervals d hd
  -- the start is the converted time of an out-rpc event
  obtain ⟨-, -, hts⟩ := mem_actions (List.mem_of_mem_filter hout)
  obtain ⟨raw, -, hraw⟩ := Option.bind_eq_some_iff.mp hts
  refine ⟨?_, hj.lt⟩
  rw [hj.startNs]
  exact (le_of_toNsInt hraw).1

/-- Dispatches have positive windows between nanosecond times. -/
theorem nsSpan_of_mem_dispatches (h : SchedulerInNs log) {d : DispatchInterval}
    (hd : d ∈ reqDispatchIntervals log rid) : NsSpan d.window ∧ d.startNs < d.endNs := by
  obtain ⟨out, hout, ready, hready, hj⟩ :=
    (tracks_pairDispatches (extractEngineHints log.reqMetricEvents) log.schedulerEvents
      rid).intervals d hd
  -- both ends come from actions, and those from scheduler events
  have htime : ∀ a ∈ requestActions log.schedulerEvents rid, NsTime a.tsNs := by
    intro a ha
    obtain ⟨hev, -, hts⟩ := mem_actions (List.mem_of_mem_filter ha)
    exact h a.ev (List.mem_of_getElem? hev) a.tsNs hts
  refine ⟨⟨?_, ?_⟩, hj.lt⟩
  · show NsTime d.startNs
    rw [hj.startNs]
    exact htime out hout
  · show NsTime d.endNs
    rw [hj.endNs]
    exact htime ready hready

/-- The enqueue time of a request is in nanoseconds. -/
theorem nsTime_enqueue (h : SchedulerInNs log) {t : ℤ}
    (ht : (reqEnqueueMap log.schedulerEvents rid).bind toNsInt = some t) : NsTime t := by
  obtain ⟨raw, hraw, ht'⟩ := Option.bind_eq_some_iff.mp ht
  obtain ⟨ev, hev, hite⟩ := List.exists_of_findSome?_eq_some hraw
  split at hite
  · exact h ev hev t (by rw [hite]; exact ht')
  · cases hite

end DeLatency
