import GithubAgent.Base.Transition

/-!
# Systems that contain another

A system may be seen through a part of its state. Where each of its steps is a step of a second
system on that part, or leaves the part as it is, the runs of the first show runs of the second, and
what holds of those is known of the part.
-/

namespace GithubAgent.Base.System

universe u v u' v'

variable {σ : Type u} {α : Type v} {τ : Type u'} {β : Type v'} {sys : System σ α}
  {ok : σ → α → Prop} {part : System τ β} {okPart : τ → β → Prop} {view : σ → τ}

/-- What is seen of a step: a permitted step of the part, or nothing. -/
inductive Seen (part : System τ β) (okPart : τ → β → Prop) (t t' : τ) : Prop where
  | same (h : t' = t)
  | step (b : β) (permitted : okPart t b) (taken : part.step t b = some t')

/-- The system contains another one. -/
structure Contains (sys : System σ α) (ok : σ → α → Prop) (part : System τ β)
    (okPart : τ → β → Prop) (view : σ → τ) : Prop where
  init : ∀ s, sys.init s → part.init (view s)
  step : ∀ s a s', sys.ReachWhen ok s → ok s a → sys.step s a = some s' →
    Seen part okPart (view s) (view s')

/-- A run of the system shows a run of its part. -/
theorem Contains.reachWhen (h : Contains sys ok part okPart view) {s : σ}
    (hs : sys.ReachWhen ok s) : part.ReachWhen okPart (view s) := by
  induction hs with
  | init hinit => exact .init (h.init _ hinit)
  | step a hreach hok hstep ih =>
    cases h.step _ a _ hreach hok hstep with
    | same hsame =>
      rw [hsame]
      exact ih
    | step b hpermitted htaken => exact .step b ih hpermitted htaken

end GithubAgent.Base.System
