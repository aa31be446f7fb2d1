import DeLatency.Patch.RequestContext
import Mathlib.Data.List.Induction

/-!
# Explicit request names

A name that a caller gives for a request id should stay until another one is given.  The
table of names is the state that decides: a call without a name writes to it as well, and
the name survives exactly when what such a call writes is the name that is there
(`namesSurvive_iff`).
-/

namespace DeLatency

variable {κ : Type}

/-- The context in which a call is made. -/
def ContextCall.ctx : ContextCall κ → κ
  | .bind c _ _ | .reset c _ | .remember c _ _ | .copyContext c _ => c

/-- The request id and the name that a call gives for it. -/
def ContextCall.given : ContextCall κ → Option (String × String)
  | .bind _ requestId requestName | .remember _ requestId requestName =>
    match normalize requestId, normalize requestName with
    | some rid, some name => some (rid, name)
    | _, _ => none
  | _ => none

/-- The name given last for a request id. -/
def lastGiven (calls : List (ContextCall κ)) (rid : String) : Option String :=
  ((calls.filterMap ContextCall.given).filter fun given => given.1 = rid).getLast?.map Prod.snd

section Statements

variable [DecidableEq κ]

/-- Every id with an explicit name resolves to the last one, in any context and whatever the
    fallback. -/
def NamesSurvive (calls : List (ContextCall κ)) : Prop :=
  ∀ rid name, lastGiven calls rid = some name →
    ∀ c requestId fallback, normalize requestId = some rid →
      (RequestContexts.run calls).resolveRequestName c requestId fallback = some name

/-- A call without a name falls back on the explicit name of its request id, if there is one:
    a binding on the id itself, a refresh on the name of the context it is made in. -/
def ContextCall.KeepsName (calls : List (ContextCall κ)) : ContextCall κ → Prop
  | .bind _ requestId requestName =>
    normalize requestName = none → ∀ rid, normalize requestId = some rid →
      ∀ name, lastGiven calls rid = some name → rid = name
  | .remember c requestId requestName =>
    normalize requestName = none → ∀ rid, normalize requestId = some rid →
      ∀ name, lastGiven calls rid = some name →
        strOr ((RequestContexts.run calls).vars c).requestName (some rid) = some name
  | _ => True

end Statements

/-! ## Normalised texts -/

/-- A normalized text is not empty. -/
theorem normalize_ne_empty {value : Option String} {text : String}
    (h : normalize value = some text) : text ≠ "" := by
  unfold normalize at h
  split at h
  · cases h
  · dsimp only at h
    split at h
    · cases h
    · -- the blank text has been sorted out, and what is left was not blank
      next hne =>
      split at h
      · cases h
      · cases h; exact hne

/-- A text that is not empty is kept. -/
theorem strOr_some {text : String} (h : text ≠ "") (b : Option String) :
    strOr (some text) b = some text := by
  simp [strOr, h]

/-- Without one the default is taken. -/
@[simp] theorem strOr_none (b : Option String) : strOr none b = b := rfl

/-- With a text at its end a chain of fallbacks settles on a text. -/
theorem exists_strOr {text : String} (h : text ≠ "") (a : Option String) :
    ∃ name, name ≠ "" ∧ strOr a (some text) = some name := by
  cases ha : a.filter (· ≠ "") with
  | none => exact ⟨text, h, by rw [strOr, ha, Option.none_or]⟩
  | some name =>
    have hne := (Option.filter_eq_some_iff.mp ha).2
    exact ⟨name, by simpa using hne, by rw [strOr, ha, Option.some_or]⟩

/-! ## The table of names -/

namespace RequestContexts

/-- Caching a name sets the entry of its id alone. -/
theorem get?_cacheName (names : Dict String String) {rid name : String} (hrid : rid ≠ "")
    (hname : name ≠ "") (x : String) :
    (cacheName names (some rid) (some name)).get? x =
      if x = rid then some name else names.get? x := by
  simp only [cacheName, Option.filter, hrid, hname, ne_eq, not_false_eq_true, decide_true, if_true]
  exact Dict.get?_alter names rid x name _

/-- What a call writes to the table: a request id and its new name. -/
def writes (st : RequestContexts κ) : ContextCall κ → Option (String × String)
  | .bind _ requestId requestName =>
    match normalize requestId with
    | some rid => (strOr (normalize requestName) (some rid)).map fun name => (rid, name)
    | none => none
  | .remember c requestId requestName =>
    match normalize requestId with
    | some rid => (st.rememberedName c requestId requestName).map fun name => (rid, name)
    | none => none
  | _ => none

/-- What a call writes is what changes. -/
theorem get?_step [DecidableEq κ] (st : RequestContexts κ) (call : ContextCall κ) (x : String) :
    (st.step call).requestNameById.get? x =
      ((st.writes call).filter fun w => w.1 = x).elim (st.requestNameById.get? x)
        fun w => some w.2 := by
  cases call with
  | bind c requestId requestName =>
    simp only [step, bindRequestContext, writes]
    cases hrid : normalize requestId with
    | none => rfl
    | some rid =>
      have hne := normalize_ne_empty hrid
      obtain ⟨name, hname, heq⟩ := exists_strOr hne (normalize requestName)
      simp only [heq, get?_cacheName _ hne hname, Option.map_some, Option.filter_some,
        decide_eq_true_eq, eq_comm (a := rid)]
      split <;> rfl
  | remember c requestId requestName =>
    -- the name falls back on that of the context, and then on the id
    simp only [step, rememberRequestName, writes, rememberedName]
    cases hrid : normalize requestId with
    | none => rfl
    | some rid =>
      have hne := normalize_ne_empty hrid
      obtain ⟨ambient, hambient, heq⟩ := exists_strOr hne (st.vars c).requestName
      obtain ⟨name, hname, heq'⟩ := exists_strOr hambient (normalize requestName)
      simp only [heq, heq', get?_cacheName _ hne hname, Option.map_some, Option.filter_some,
        decide_eq_true_eq, eq_comm (a := rid)]
      split <;> rfl
  | reset c n =>
    simp only [step, resetRequestContext, writes]
    split
    · split <;> rfl
    · rfl
  | copyContext parent c => rfl

/-- Only ids and names that are not empty are written. -/
theorem writes_ne_empty {st : RequestContexts κ} {call : ContextCall κ} {rid written : String}
    (h : st.writes call = some (rid, written)) :
    ∃ requestId, normalize requestId = some rid ∧ written ≠ "" := by
  cases call with
  -- a bind falls back on the id for the name
  | bind c requestId requestName =>
    simp only [writes] at h
    split at h
    · next hrid =>
      obtain ⟨name, hname, heq⟩ := exists_strOr (normalize_ne_empty hrid) (normalize requestName)
      rw [heq] at h
      cases h
      exact ⟨requestId, hrid, hname⟩
    · cases h
  -- a remember falls back on the ambient name, and only then on the id
  | remember c requestId requestName =>
    simp only [writes, rememberedName] at h
    split at h
    · next hrid =>
      obtain ⟨ambient, hambient, heq⟩ :=
        exists_strOr (normalize_ne_empty hrid) (st.vars c).requestName
      obtain ⟨name, hname, heq'⟩ := exists_strOr hambient (normalize requestName)
      rw [hrid, heq, heq'] at h
      cases h
      exact ⟨requestId, hrid, hname⟩
    · cases h
  | reset c n => cases h
  | copyContext parent c => cases h

/-- A call with a name writes it. -/
theorem writes_of_given (st : RequestContexts κ) {call : ContextCall κ} {given : String × String}
    (h : call.given = some given) : st.writes call = some given := by
  cases call with
  -- the given name is not empty, so `or` keeps it
  | bind c requestId requestName | remember c requestId requestName =>
    simp only [ContextCall.given] at h
    split at h
    · next rid name hrid hname =>
      cases h
      simp [writes, rememberedName, hrid, hname, strOr_some (normalize_ne_empty hname)]
    · cases h
  | reset c n => cases h
  | copyContext parent c => cases h

/-- One more call. -/
theorem run_concat [DecidableEq κ] (calls : List (ContextCall κ)) (call : ContextCall κ) :
    run (calls ++ [call]) = (run calls).step call := by
  simp [run]

end RequestContexts

open RequestContexts

/-! ## The name given last -/

/-- The last name given is the one of the last call that gives one. -/
theorem lastGiven_concat (calls : List (ContextCall κ)) (call : ContextCall κ) (rid : String) :
    lastGiven (calls ++ [call]) rid =
      (call.given.filter fun given => given.1 = rid).elim (lastGiven calls rid)
        fun given => some given.2 := by
  rw [lastGiven, List.filterMap_append, List.filter_append, List.getLast?_append]
  cases hcall : call.given with
  | none => simp [hcall, lastGiven]
  | some given =>
    rw [Option.filter_some]
    -- the new call counts only when it names this request
    by_cases hrid : given.1 = rid
    · simp [hcall, hrid]
    · simp [hcall, hrid, lastGiven]

/-- A name that is given is not empty. -/
theorem ContextCall.given_ne_empty {call : ContextCall κ} {given : String × String}
    (h : call.given = some given) : given.2 ≠ "" := by
  cases call with
  | bind c requestId requestName | remember c requestId requestName =>
    simp only [ContextCall.given] at h
    split at h
    · next hname => cases h; exact normalize_ne_empty hname
    · cases h
  | reset c n => cases h
  | copyContext parent c => cases h

/-- The last name given is not empty. -/
theorem lastGiven_ne_empty {calls : List (ContextCall κ)} {rid name : String}
    (h : lastGiven calls rid = some name) : name ≠ "" := by
  obtain ⟨given, hlast, rfl⟩ := Option.map_eq_some_iff.mp h
  obtain ⟨hmem, -⟩ := List.mem_filter.mp (List.mem_of_getLast? hlast)
  obtain ⟨call, -, hgiven⟩ := List.mem_filterMap.mp hmem
  exact ContextCall.given_ne_empty hgiven

/-! ## The table holds it -/

variable [DecidableEq κ]

/-- The table holds the explicit names. -/
def NamesCached (calls : List (ContextCall κ)) : Prop :=
  ∀ rid name, lastGiven calls rid = some name → (run calls).requestNameById.get? rid = some name

/-- If every name given is cached, the last ones survive. -/
theorem NamesCached.namesSurvive {calls : List (ContextCall κ)} (h : NamesCached calls) :
    NamesSurvive calls := by
  intro rid name hlast c requestId fallback hrid
  simp only [resolveRequestName, hrid, h rid name hlast]
  exact strOr_some (lastGiven_ne_empty hlast) _

/-- The condition on a call, as a condition on what it writes. -/
theorem keepsName_iff {calls : List (ContextCall κ)} {call : ContextCall κ} :
    call.KeepsName calls ↔ ∀ rid written, call.given = none →
      (run calls).writes call = some (rid, written) →
        ∀ name, lastGiven calls rid = some name → written = name := by
  cases call with
  | bind c requestId requestName =>
    simp only [ContextCall.KeepsName, ContextCall.given, writes]
    cases hrid : normalize requestId with
    | none => simp
    -- a call that gives a name asks for nothing
    | some rid => cases hname : normalize requestName <;> simp
  | remember c requestId requestName =>
    simp only [ContextCall.KeepsName, ContextCall.given, writes, rememberedName]
    cases hrid : normalize requestId with
    | none => simp
    | some rid =>
      obtain ⟨ambient, -, heq⟩ :=
        exists_strOr (normalize_ne_empty hrid) ((run calls).vars c).requestName
      cases hname : normalize requestName <;> simp [heq]
  | reset c n => simp [ContextCall.KeepsName, writes]
  | copyContext parent c => simp [ContextCall.KeepsName, writes]

/-- One call: the table keeps the explicit names when the call meets its condition. -/
theorem NamesCached.concat {calls : List (ContextCall κ)} (h : NamesCached calls)
    {call : ContextCall κ} (hkeeps : call.KeepsName calls) : NamesCached (calls ++ [call]) := by
  intro rid name hlast
  rw [lastGiven_concat] at hlast
  rw [run_concat, get?_step]
  cases hgiven : call.given with
  | some given =>
    rw [writes_of_given _ hgiven]
    rw [hgiven, Option.filter_some] at hlast
    rw [Option.filter_some]
    -- a name that is given is the last one for its id from now on
    by_cases hrid : given.1 = rid
    · simpa [hrid] using hlast
    · simp only [hrid, decide_false, Bool.false_eq_true, if_false] at hlast ⊢
      exact h rid name hlast
  | none =>
    rw [hgiven] at hlast
    cases hwrites : (run calls).writes call with
    | none => exact h rid name hlast
    | some written =>
      rw [Option.filter_some]
      by_cases hrid : written.1 = rid
      · -- the call writes a name of its own, which has to be the explicit one
        have hkept := keepsName_iff.mp hkeeps rid written.2 hgiven (by rw [hwrites, ← hrid]) name
          hlast
        simp [hrid, hkept]
      · simp only [hrid, decide_false, Bool.false_eq_true, if_false]
        exact h rid name hlast

/-- A call that breaks its condition takes the name away. -/
theorem keepsName_of_namesSurvive {calls : List (ContextCall κ)} {call : ContextCall κ}
    (h : NamesSurvive (calls ++ [call])) : call.KeepsName calls := by
  rw [keepsName_iff]
  intro rid written hgiven hwrites name hlast
  have hlast' : lastGiven (calls ++ [call]) rid = some name := by
    rw [lastGiven_concat, hgiven]
    exact hlast
  -- the id that is written resolves to what is written
  have hcached : (run (calls ++ [call])).requestNameById.get? rid = some written := by
    rw [run_concat, get?_step, hwrites, Option.filter_some, if_pos (decide_eq_true rfl)]
    rfl
  obtain ⟨requestId, hrid, hne⟩ := writes_ne_empty hwrites
  have hresolve := h rid name hlast' call.ctx requestId none hrid
  simp only [resolveRequestName, hrid, hcached, strOr_some hne] at hresolve
  exact Option.some.inj hresolve

/-- The explicit names survive a whole run exactly when each call without a name falls back on
    the explicit name of its request id. -/
theorem namesSurvive_iff (calls : List (ContextCall κ)) :
    (∀ pre, pre <+: calls → NamesSurvive pre) ↔
      ∀ pre call, pre ++ [call] <+: calls → call.KeepsName pre := by
  constructor
  · intro h pre call hpre
    exact keepsName_of_namesSurvive (h _ hpre)
  · -- forward in the calls: the invariant is that the cache holds the last given names
    intro h pre hpre
    apply NamesCached.namesSurvive
    induction pre using List.reverseRecOn with
    | nil =>
      intro rid name hlast
      simp [lastGiven] at hlast
    | append_singleton pre call ih =>
      exact (ih ((List.prefix_append pre [call]).trans hpre)).concat (h pre call hpre)

/-- The output task was created while the first request was bound, and refreshes the second. -/
theorem not_namesSurvive_outputTask :
    ¬NamesSurvive [.bind 0 (some "req-1") (some "alice"), .copyContext 0 1,
      .bind 2 (some "req-2") (some "bob"), .remember (1 : ℕ) (some "req-2") none] := by
  intro h
  have hresolve := h "req-2" "bob" (by decide) 2 (some "req-2") none (by decide)
  revert hresolve
  decide

end DeLatency
