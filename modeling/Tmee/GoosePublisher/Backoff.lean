import Tmee.GoosePublisher.Schedule

set_option relaxedAutoImplicit false
set_option autoImplicit false

/-!
# The interval between retransmissions

A change starts with the fast interval, and every retransmission doubles it until it reaches `ttl`.
The product is computed in `int` before it is compared with `ttl`, so the comparison does not see
a product that has wrapped around.

## Main definitions

* `Tmee.retransmissionsNext` — an observer who counts the retransmissions since the last change.
* `Tmee.backoff` — the interval after so many retransmissions.
* `Tmee.KeepsBackoff` — a run keeps the interval.

## Main results

* `Tmee.Publisher.nextInterval_backoff` — one retransmission is one doubling.
* `Tmee.keepsBackoff_iff` — every run keeps the interval if and only if `ttl` is below `2 ^ 30`.
-/

namespace Tmee

instance (p : Publisher) : Decidable p.HasUpdate :=
  inferInstanceAs (Decidable (∃ d ∈ p.inputs, d.HasUpdate))

/-- The number of retransmissions since the last change; nothing before the first change. -/
def retransmissionsNext (retransmissions : Option ℕ) (p : Publisher) : PublisherInput → Option ℕ
  | .input _ _ => retransmissions
  | .event _ => if p.HasUpdate then some 0 else retransmissions
  | .run now =>
    if p.HasUpdate then some 0
    else if p.transmitDeadline ≤ now then retransmissions.map (· + 1)
    else retransmissions

/-- The interval after `k` retransmissions: the fast one doubled `k` times, at most `ttl`; before
the first change it is `ttl`. -/
def backoff (ttl gooseFastRetransmitTtl : ℤ) : Option ℕ → ℤ
  | none => ttl
  | some k => min ttl (2 ^ k * gooseFastRetransmitTtl)

/-- **A run keeps the interval**: at every moment it lies between zero and `ttl` and is the fast
one doubled for every retransmission since the last change, so right after a change it is the fast
one. -/
structure KeepsBackoff (p : Publisher) (is : List PublisherInput) : Prop where
  interval_eq : ∀ pre q retransmissions, pre <+: is →
    Run.exec (Run.watch publisherStep retransmissionsNext) (p, none) pre =
      .ok (q, retransmissions) → q.interval = backoff p.ttl p.gooseFastRetransmitTtl retransmissions
  fast : ∀ pre q, pre <+: is →
    Run.exec (Run.watch publisherStep retransmissionsNext) (p, none) pre = .ok (q, some 0) →
      q.interval = p.gooseFastRetransmitTtl
  bounds : ∀ pre q, pre <+: is → Run.exec publisherStep p pre = .ok q →
    0 < q.interval ∧ q.interval ≤ p.ttl

/-- The settings, and the interval after the retransmissions counted. -/
structure BackoffInv (ttl gooseFastRetransmitTtl : ℤ) (retransmissions : Option ℕ)
    (p : Publisher) : Prop where
  ttl_eq : p.ttl = ttl
  fast_eq : p.gooseFastRetransmitTtl = gooseFastRetransmitTtl
  interval_eq : p.interval = backoff ttl gooseFastRetransmitTtl retransmissions

section Backoff

variable {ttl gooseFastRetransmitTtl : ℤ} {p p' : Publisher} {retransmissions : Option ℕ}

/-- The intervals lie between zero and `ttl`. -/
lemma backoff_bounds (hfast : 0 < gooseFastRetransmitTtl) (hle : gooseFastRetransmitTtl ≤ ttl)
    (retransmissions : Option ℕ) : 0 < backoff ttl gooseFastRetransmitTtl retransmissions ∧
      backoff ttl gooseFastRetransmitTtl retransmissions ≤ ttl := by
  cases retransmissions with
  | none => exact ⟨hfast.trans_le hle, le_rfl⟩
  | some k =>
    have hpos : 0 < 2 ^ k * gooseFastRetransmitTtl := by positivity
    exact ⟨lt_min (hfast.trans_le hle) hpos, min_le_left _ _⟩

/-- The first interval is the fast one. -/
lemma backoff_zero (hle : gooseFastRetransmitTtl ≤ ttl) :
    backoff ttl gooseFastRetransmitTtl (some 0) = gooseFastRetransmitTtl := by
  rw [backoff, pow_zero, one_mul, min_eq_right hle]

/-- Doubling and capping is one retransmission more. -/
lemma backoff_succ (httl : 0 < ttl) (retransmissions : Option ℕ) :
    min ttl (backoff ttl gooseFastRetransmitTtl retransmissions * 2) =
      backoff ttl gooseFastRetransmitTtl (retransmissions.map (· + 1)) := by
  cases retransmissions with
  | none =>
    show min ttl (ttl * 2) = ttl
    omega
  | some k =>
    have hpow : 2 ^ (k + 1) * gooseFastRetransmitTtl = 2 ^ k * gooseFastRetransmitTtl * 2 := by
      rw [pow_succ]
      ring
    show min ttl (min ttl (2 ^ k * gooseFastRetransmitTtl) * 2) =
      min ttl (2 ^ (k + 1) * gooseFastRetransmitTtl)
    rw [hpow]
    omega

/-- **One retransmission is one doubling**, if twice an interval is an `int`. -/
lemma Publisher.nextInterval_backoff (h : BackoffInv ttl gooseFastRetransmitTtl retransmissions p)
    (hfast : 0 < gooseFastRetransmitTtl) (hle : gooseFastRetransmitTtl ≤ ttl)
    (hint : ttl < 2 ^ 30) :
    p.nextInterval = backoff ttl gooseFastRetransmitTtl (retransmissions.map (· + 1)) := by
  obtain ⟨hpos, hmax⟩ := backoff_bounds hfast hle retransmissions
  rw [← backoff_succ (by omega), Publisher.nextInterval, h.interval_eq, h.ttl_eq, wrap32,
    Int.bmod_eq_of_le_mul_two (by push_cast; omega) (by push_cast; omega)]
  split_ifs <;> omega

/-- A call of `event` keeps the settings; it sets the fast interval if it finds a change. -/
lemma BackoffInv.event {result : ℤ} (h : BackoffInv ttl gooseFastRetransmitTtl retransmissions p)
    (hle : gooseFastRetransmitTtl ≤ ttl) (hevent : p.event = .ok (result, p')) :
    (p.HasUpdate ∧ result = 1 ∧ BackoffInv ttl gooseFastRetransmitTtl (some 0) p') ∨
      (¬ p.HasUpdate ∧ result = 0 ∧ p'.transmitDeadline = p.transmitDeadline ∧
        BackoffInv ttl gooseFastRetransmitTtl retransmissions p') := by
  obtain ⟨polled, -, ⟨hupdate, hresult, rfl⟩ | ⟨hno, hresult, rfl⟩⟩ := Publisher.event_cases hevent
  · refine Or.inl ⟨hupdate, hresult, h.ttl_eq, h.fast_eq, ?_⟩
    rw [backoff_zero hle]
    exact h.fast_eq
  · exact Or.inr ⟨hno, hresult, rfl, h.ttl_eq, h.fast_eq, h.interval_eq⟩

/-- **Every step keeps the interval** and the count in step. -/
lemma backoffInv_publisherStep (hfast : 0 < gooseFastRetransmitTtl)
    (hle : gooseFastRetransmitTtl ≤ ttl) (hint : ttl < 2 ^ 30) (s : Publisher × Option ℕ)
    (i : PublisherInput) (s' : Publisher × Option ℕ)
    (h : BackoffInv ttl gooseFastRetransmitTtl s.2 s.1)
    (hwatch : Run.watch publisherStep retransmissionsNext s i = .ok s') :
    BackoffInv ttl gooseFastRetransmitTtl s'.2 s'.1 := by
  obtain ⟨p, retransmissions⟩ := s
  obtain ⟨p', retransmissions'⟩ := s'
  obtain ⟨hstep, hnext⟩ := Run.watch_eq_ok.mp hwatch
  clear hwatch
  dsimp only at h hstep hnext ⊢
  subst hnext
  cases i with
  | input k buffer =>
    obtain rfl := Except.ok.inj hstep
    exact ⟨h.ttl_eq, h.fast_eq, h.interval_eq⟩
  | event now =>
    obtain ⟨result, hevent⟩ := Publisher.publisherStep_event_eq_ok.mp hstep
    rw [retransmissionsNext]
    rcases h.event hle hevent with ⟨hupdate, -, hinv⟩ | ⟨hno, -, -, hinv⟩
    · rwa [if_pos hupdate]
    · rwa [if_neg hno]
  | run now =>
    obtain ⟨result, q, hevent, hcases⟩ := Publisher.run_cases hstep
    rw [retransmissionsNext]
    rcases h.event hle hevent with ⟨hupdate, hresult, hinv⟩ | ⟨hno, hresult, hdeadline, hinv⟩
    · rw [if_pos hupdate]
      rcases hcases with ⟨hne, -⟩ | ⟨-, rfl⟩
      · exact absurd hresult hne
      · exact hinv
    · rw [if_neg hno, ← hdeadline]
      rcases hcases with ⟨-, hdue, rfl⟩ | ⟨hearly, rfl⟩
      · rw [if_pos hdue]
        exact ⟨hinv.ttl_eq, hinv.fast_eq, Publisher.nextInterval_backoff hinv hfast hle hint⟩
      · have hnot : ¬ p'.transmitDeadline ≤ now :=
          not_le.mpr (hearly.resolve_left (by omega))
        rwa [if_neg hnot]

/-- A publisher starts with the interval `ttl`. -/
lemma backoffInv_initPublisher {maxLag now : ℤ} {buffers : List Buffer}
    (hinit : initPublisher ttl gooseFastRetransmitTtl maxLag buffers now = .ok p) :
    BackoffInv ttl gooseFastRetransmitTtl none p := by
  obtain ⟨inputs, -, h⟩ := Fallible.bind_eq_ok.mp hinit
  obtain rfl := Except.ok.inj h
  exact ⟨rfl, rfl, rfl⟩

/-- All runs keep the interval if twice `ttl` is an `int`. -/
lemma keepsBackoff_of_lt {maxLag now : ℤ} {buffers : List Buffer}
    (hfast : 0 < gooseFastRetransmitTtl) (hle : gooseFastRetransmitTtl ≤ ttl) (hint : ttl < 2 ^ 30)
    (hinit : initPublisher ttl gooseFastRetransmitTtl maxLag buffers now = .ok p)
    (is : List PublisherInput) : KeepsBackoff p is := by
  have hstart := backoffInv_initPublisher hinit
  have hrun (pre : List PublisherInput) (q : Publisher) (retransmissions : Option ℕ)
      (h : Run.exec (Run.watch publisherStep retransmissionsNext) (p, none) pre =
        .ok (q, retransmissions)) : BackoffInv ttl gooseFastRetransmitTtl retransmissions q :=
    Run.exec_invariant (backoffInv_publisherStep hfast hle hint) hstart h
  constructor
  · intro pre q retransmissions _ h
    rw [hstart.ttl_eq, hstart.fast_eq]
    exact (hrun pre q retransmissions h).interval_eq
  · intro pre q _ h
    rw [(hrun pre q (some 0) h).interval_eq, hstart.fast_eq, backoff_zero hle]
  · intro pre q _ h
    obtain ⟨retransmissions, hwatch⟩ := Run.exists_watch h retransmissionsNext none
    rw [(hrun pre q retransmissions hwatch).interval_eq, hstart.ttl_eq]
    exact backoff_bounds hfast hle retransmissions

/-- The publisher of one `BOOL` without a change. -/
def quietPublisher (ttl gooseFastRetransmitTtl : ℤ) : Publisher where
  inputs := [⟨boolRing 0, 0, [.boolean false], some .updateBool⟩]
  ttl := ttl
  gooseFastRetransmitTtl := gooseFastRetransmitTtl
  maxLag := 5
  interval := ttl
  transmitDeadline := 0 + ttl.tdiv 2
  stNum := 0
  timeAllowedToLive := ttl.tdiv 1000
  published := []

lemma initPublisher_quiet (ttl gooseFastRetransmitTtl : ℤ) :
    initPublisher ttl gooseFastRetransmitTtl 5 [boolRing 0] 0 =
      .ok (quietPublisher ttl gooseFastRetransmitTtl) := rfl

/-- The first retransmission of a publisher with a large `ttl` wraps around. -/
lemma not_keepsBackoff_quiet (hlow : 2 ^ 30 ≤ ttl) (hhigh : ttl < 2 ^ 31) :
    ¬ KeepsBackoff (quietPublisher ttl gooseFastRetransmitTtl) [.run (0 + ttl.tdiv 2)] := by
  intro hkeeps
  have hevent : (quietPublisher ttl gooseFastRetransmitTtl).event =
      .ok (0, quietPublisher ttl gooseFastRetransmitTtl) := rfl
  have hrun : publisherStep (quietPublisher ttl gooseFastRetransmitTtl) (.run (0 + ttl.tdiv 2)) =
      .ok (quietPublisher ttl gooseFastRetransmitTtl).retransmit := by
    have hdue : 0 + ttl.tdiv 2 ≥ (quietPublisher ttl gooseFastRetransmitTtl).transmitDeadline :=
      le_rfl
    simp only [publisherStep, Publisher.run, hevent, Fallible.ok_bind, if_pos hdue]
    rfl
  obtain ⟨hpos, -⟩ := hkeeps.bounds [.run (0 + ttl.tdiv 2)] _ List.prefix_rfl
    (Run.exec_cons_eq_ok.mpr ⟨_, hrun, rfl⟩)
  have hinterval : (quietPublisher ttl gooseFastRetransmitTtl).retransmit.interval =
      if wrap32 (ttl * 2) > ttl then ttl else wrap32 (ttl * 2) := rfl
  rw [hinterval, wrap32, Int.bmod_def] at hpos
  split_ifs at hpos <;> omega

/-- **The interval is kept** by every run of every publisher with the given settings if and only if
`ttl` is below `2 ^ 30`.

**Proof sketch.** Below that bound twice an interval does not wrap around, so a retransmission
doubles and caps it (`backoffInv_publisherStep`). From there on, the first retransmission after
`init` computes a negative product. -/
theorem keepsBackoff_iff (hfast : 0 < gooseFastRetransmitTtl) (hle : gooseFastRetransmitTtl ≤ ttl)
    (hint : ttl < 2 ^ 31) :
    (∀ maxLag buffers now p, initPublisher ttl gooseFastRetransmitTtl maxLag buffers now = .ok p →
      ∀ is, KeepsBackoff p is) ↔ ttl < 2 ^ 30 := by
  constructor
  · intro hkeeps
    by_contra hlarge
    exact not_keepsBackoff_quiet (not_lt.mp hlarge) hint
      (hkeeps 5 [boolRing 0] 0 _ (initPublisher_quiet ttl gooseFastRetransmitTtl) _)
  · intro hsmall maxLag buffers now p hinit is
    exact keepsBackoff_of_lt hfast hle hsmall hinit is

end Backoff

/-- The settings of `GOOSE.ini` keep the interval over a change and a retransmission. -/
theorem keepsBackoff_settings : KeepsBackoff (quietPublisher 2000000 20000)
    [.input 0 (boolRing 1), .event 1000, .run 2000000] :=
  (keepsBackoff_iff (by decide) (by decide) (by decide)).mpr (by decide) 5 [boolRing 0] 0 _
    (initPublisher_quiet 2000000 20000) _

/-- **A `ttl` of `2 ^ 30` microseconds is too large**: the first retransmission sets the interval
`-2 ^ 31`. -/
theorem not_keepsBackoff_large : ∃ p, initPublisher (2 ^ 30) 20000 5 [boolRing 0] 0 = .ok p ∧
    ¬ KeepsBackoff p [.run (2 ^ 29)] :=
  ⟨_, initPublisher_quiet (2 ^ 30) 20000, not_keepsBackoff_quiet (by decide) (by decide)⟩

end Tmee
