import Tmee.GoosePublisher.Publisher

set_option relaxedAutoImplicit false
set_option autoImplicit false

/-!
# When the publisher retransmits

Every publish announces a time to live, the new interval, and moves the deadline of the next
retransmission on by half of it. The deadline moves on from where it was, not from the time of
the publish, so whether it lies in the announced time depends on how close to the pending
deadline the publish happens.

## Main definitions

* `Tmee.KeepsSchedule` — after every publish the next retransmission lies in the future and in the
  announced time to live.
* `Tmee.OnTime` — changes come close enough to the pending deadline, and retransmissions are not
  late.

## Main results

* `Tmee.publisherStep_cases` — what a call does to interval and deadline.
* `Tmee.keepsSchedule_iff` — a run keeps the schedule if and only if it is on time.
-/

namespace Tmee

/-- The time of a call. -/
def PublisherInput.now? : PublisherInput → Option ℤ
  | .input _ _ => none
  | .event now => some now
  | .run now => some now

/-- After every publish of the run, at the time `now`, the next retransmission lies in the future
and not beyond the time to live just announced. -/
def KeepsSchedule (p : Publisher) (is : List PublisherInput) : Prop :=
  ∀ q i q' now, Run.Performs publisherStep p is q i q' → i.now? = some now →
    q'.published ≠ q.published → now < q'.transmitDeadline ∧ q'.transmitDeadline ≤ now + q'.interval

namespace Publisher

/-- A change found at the time `now`: the pending deadline is at most half a fast interval ahead,
and has passed by less than half a fast interval. -/
def ChangeOnTime (now : ℤ) (p : Publisher) : Prop :=
  p.transmitDeadline ≤ now + (p.gooseFastRetransmitTtl - p.gooseFastRetransmitTtl.tdiv 2) ∧
    now < p.transmitDeadline + p.gooseFastRetransmitTtl.tdiv 2

/-- A retransmission at the time `now`: the deadline has passed by less than half the interval
that comes next. -/
def RetransmissionOnTime (now : ℤ) (p : Publisher) : Prop :=
  now < p.transmitDeadline + p.nextInterval.tdiv 2

end Publisher

/-- Every change of the run is found on time, and every retransmission happens on time. -/
def OnTime (p : Publisher) (is : List PublisherInput) : Prop :=
  ∀ q i q' now, Run.Performs publisherStep p is q i q' → i.now? = some now →
    (q.HasUpdate → q.ChangeOnTime now) ∧
    (¬ q.HasUpdate → i = .run now → q.transmitDeadline ≤ now → q.RetransmissionOnTime now)

/-- A positive half is at most the whole. -/
lemma tdiv_two_le {x : ℤ} (h : 0 < x.tdiv 2) : x.tdiv 2 ≤ x := by
  rcases le_or_gt 0 x with hx | hx
  · rw [Int.tdiv_eq_ediv_of_nonneg hx]
    omega
  · have hnonneg : 0 ≤ (-x).tdiv 2 := Int.tdiv_nonneg (by omega) (by decide)
    rw [Int.neg_tdiv] at hnonneg
    omega

section Step

variable {p p' : Publisher}

lemma Publisher.published_transmitChange (p : Publisher) :
    p.transmitChange.published ≠ p.published := by
  simp [transmitChange, publish]

lemma Publisher.published_retransmit (p : Publisher) : p.retransmit.published ≠ p.published := by
  simp [retransmit, publish]

/-- What `event` does to interval and deadline. -/
lemma Publisher.event_schedule {result : ℤ} (h : p.event = .ok (result, p')) :
    (p.HasUpdate ∧ result = 1 ∧ p'.published ≠ p.published ∧
        p'.interval = p.gooseFastRetransmitTtl ∧
        p'.transmitDeadline = p.transmitDeadline + p.gooseFastRetransmitTtl.tdiv 2) ∨
      (¬ p.HasUpdate ∧ result = 0 ∧ p'.published = p.published ∧ p'.interval = p.interval ∧
        p'.ttl = p.ttl ∧ p'.transmitDeadline = p.transmitDeadline) := by
  obtain ⟨polled, -, ⟨hupdate, hresult, rfl⟩ | ⟨hupdate, hresult, rfl⟩⟩ := event_cases h
  · exact Or.inl ⟨hupdate, hresult, published_transmitChange _, rfl, rfl⟩
  · exact Or.inr ⟨hupdate, hresult, rfl, rfl, rfl, rfl⟩

/-- **What a call does to interval and deadline**: a change sets the fast interval, a
retransmission the next one, and both move the deadline on by half of it. -/
lemma publisherStep_cases {i : PublisherInput} {now : ℤ} (hnow : i.now? = some now)
    (h : publisherStep p i = .ok p') :
    (p.HasUpdate ∧ p'.published ≠ p.published ∧ p'.interval = p.gooseFastRetransmitTtl ∧
        p'.transmitDeadline = p.transmitDeadline + p.gooseFastRetransmitTtl.tdiv 2) ∨
      (¬ p.HasUpdate ∧ i = .run now ∧ p.transmitDeadline ≤ now ∧
        p'.published ≠ p.published ∧ p'.interval = p.nextInterval ∧
        p'.transmitDeadline = p.transmitDeadline + p.nextInterval.tdiv 2) ∨
      (¬ p.HasUpdate ∧ (i = .run now → now < p.transmitDeadline) ∧
        p'.published = p.published) := by
  cases i with
  | input k buffer => cases hnow
  | event now' =>
    obtain ⟨result, hevent⟩ := Publisher.publisherStep_event_eq_ok.mp h
    rcases Publisher.event_schedule hevent with ⟨hupdate, -, hne, hint, hdead⟩ |
      ⟨hupdate, -, hsame, -⟩
    · exact Or.inl ⟨hupdate, hne, hint, hdead⟩
    · exact Or.inr (Or.inr ⟨hupdate, nofun, hsame⟩)
  | run now' =>
    obtain rfl : now' = now := Option.some.inj hnow
    obtain ⟨result, q, hevent, hcases⟩ := Publisher.run_cases h
    rcases Publisher.event_schedule hevent with ⟨hupdate, rfl, hne, hint, hdead⟩ |
      ⟨hupdate, rfl, hsame, hint, httl, hdead⟩
    · rcases hcases with ⟨hresult, -⟩ | ⟨-, rfl⟩
      · exact absurd rfl hresult
      · exact Or.inl ⟨hupdate, hne, hint, hdead⟩
    · have hnext : q.nextInterval = p.nextInterval := by
        unfold Publisher.nextInterval
        rw [hint, httl]
      rcases hcases with ⟨-, hdue, rfl⟩ | ⟨hearly, rfl⟩
      · rw [hdead] at hdue
        refine Or.inr (Or.inl ⟨hupdate, rfl, hdue, ?_, hnext, ?_⟩)
        · rw [← hsame]
          exact Publisher.published_retransmit q
        · show q.transmitDeadline + q.nextInterval.tdiv 2 = _
          rw [hdead, hnext]
      · refine Or.inr (Or.inr ⟨hupdate, fun _ => ?_, hsame⟩)
        rw [← hdead]
        exact hearly.resolve_left (by decide)

end Step

/-- **A run keeps the schedule if and only if it is on time**: after every publish the next
retransmission lies in the future and in the announced time to live, if and only if every change
is found at most half a fast interval before the pending deadline and less than that after it,
and every retransmission happens less than half its interval late.

**Proof sketch.** Both sides speak about the same calls (`publisherStep_cases`); a
retransmission happens after its deadline, so its new deadline is never too far ahead. -/
theorem keepsSchedule_iff (p : Publisher) (is : List PublisherInput) :
    KeepsSchedule p is ↔ OnTime p is := by
  constructor
  · intro hkeeps q i q' now hp hnow
    rcases publisherStep_cases hnow hp.step_eq with ⟨hupdate, hne, hint, hdead⟩ |
      ⟨hupdate, hrun, hdue, hne, hint, hdead⟩ | ⟨hupdate, hearly, hsame⟩
    · obtain ⟨hfuture, hlive⟩ := hkeeps q i q' now hp hnow hne
      rw [hdead] at hfuture
      rw [hdead, hint] at hlive
      refine ⟨fun _ => ⟨by omega, hfuture⟩, fun hno => absurd hupdate hno⟩
    · obtain ⟨hfuture, -⟩ := hkeeps q i q' now hp hnow hne
      rw [hdead] at hfuture
      exact ⟨fun hyes => absurd hyes hupdate, fun _ _ _ => hfuture⟩
    · exact ⟨fun hyes => absurd hyes hupdate,
        fun _ hrun hdue => absurd (hearly hrun) (not_lt.mpr hdue)⟩
  · intro htime q i q' now hp hnow hpublished
    obtain ⟨hchange, hretransmission⟩ := htime q i q' now hp hnow
    rcases publisherStep_cases hnow hp.step_eq with ⟨hupdate, -, hint, hdead⟩ |
      ⟨hupdate, hrun, hdue, -, hint, hdead⟩ | ⟨-, -, hsame⟩
    · obtain ⟨hlive, hfuture⟩ := hchange hupdate
      rw [hdead, hint]
      exact ⟨hfuture, by omega⟩
    · have hlate : now < q.transmitDeadline + q.nextInterval.tdiv 2 :=
        hretransmission hupdate hrun hdue
      have hhalf : q.nextInterval.tdiv 2 ≤ q.nextInterval := tdiv_two_le (by omega)
      rw [hdead, hint]
      exact ⟨hlate, by omega⟩
    · exact absurd hsame hpublished

/-- A `BOOL` ring of two entries, with `true` in slot `1`. -/
def boolRing (index : UInt8) : Buffer where
  bytes := [1, 0, 0, 0, 2, 0, 0, 0, index, 0, 0, 0, 1, 0, 0, 0, 0, 1]
  length_lt := by simp

/-- **A change that comes early**: with the settings of `GOOSE.ini` and a change a millisecond
after `init`, the next retransmission is due about a second later, and the message is announced
to live for twenty milliseconds. -/
theorem not_keepsSchedule_change : ∃ p, initPublisher 2000000 20000 5 [boolRing 0] 0 = .ok p ∧
    ¬ KeepsSchedule p [.input 0 (boolRing 1), .event 1000] := by
  refine ⟨_, rfl, fun hkeeps => ?_⟩
  have hinput : [PublisherInput.input 0 (boolRing 1)] ++ [.event 1000] <+:
    [.input 0 (boolRing 1), .event 1000] := List.prefix_rfl
  obtain ⟨-, hlive⟩ := hkeeps _ _ _ 1000 ⟨_, hinput, rfl, rfl⟩ rfl (by decide)
  exact absurd hlive (by decide)

end Tmee
