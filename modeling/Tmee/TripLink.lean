import Tmee.GooseLink
import Tmee.GoosePublisher.Lag
import Tmee.PublisherSetup
import Tmee.Si.CatchUp
import Tmee.Si.Record
import Tmee.Subscriber.RoundTrip

set_option relaxedAutoImplicit false
set_option autoImplicit false

/-!
# From the trip to another device

The output file of `si` is an input file of `goose_publisher`, and the publisher's messages fill the
ring of a `goose_subscriber` elsewhere. The three run at their own pace, and the network loses and
repeats messages. Still the flag in the ring never says that there is a trip before there is one,
and what has once been announced stays.

## Main definitions

* `Tmee.TripChain` — the two modules and the file between them; `Tmee.tripStep` — their runs.
* `Tmee.Reports` — a dataset says that the module has tripped.
* `Tmee.TripLaw` — what the messages say.

## Main results

* `Tmee.ChainAt.step` — what a step of one of the modules keeps.
* `Tmee.trip_delivered` — every run obeys the law, and so does the ring of every subscriber.
-/

namespace Tmee

open ByteMem NumberedRing

/-! ## The two modules -/

/-- The modules `si` and `goose_publisher` of a device. -/
structure TripChain (R : Type) where
  si : Si R
  publisher : Publisher

/-- What happens on the device. -/
inductive TripInput
  /-- A step of `si`. -/
  | si (i : SiInput)
  /-- Other processes have changed the ring of another input of the publisher. -/
  | otherRing (j : ℕ) (buffer : Buffer)
  /-- A call of `event` or `run` of the publisher. -/
  | event (now : ℤ)
  | run (now : ℤ)

/-- The call of the publisher that it is. -/
def TripInput.call? : TripInput → Option PublisherInput
  | si _ => none
  | otherRing _ _ => none
  | event now => some (.event now)
  | run now => some (.run now)

section Model

variable {R : Type} [Field R] [LinearOrder R]

/-- A run of the two modules. Input `k` of the publisher maps the output file of `si`, so what `si`
leaves there is what the publisher reads. -/
def tripStep (libm : Libm R) (clock : ℕ → ℤ) (k : ℕ) (c : TripChain R) :
    TripInput → Except Fault (TripChain R)
  | .si i => do
    let s ← siStep libm clock c.si i
    let p ← publisherStep c.publisher (.input k s.outputBuffer)
    return ⟨s, p⟩
  | .otherRing j buffer =>
    if j = k then .ok c
    else do return { c with publisher := ← publisherStep c.publisher (.input j buffer) }
  | .event now => do return { c with publisher := ← publisherStep c.publisher (.event now) }
  | .run now => do return { c with publisher := ← publisherStep c.publisher (.run now) }

/-- The publisher with another content of the ring of input `k`. -/
def Publisher.sees (p : Publisher) (k : ℕ) (buffer : Buffer) : Publisher :=
  { p with inputs := p.inputs.modify k fun d => { d with buffer := buffer } }

/-- A step of `si` in the chain. -/
lemma tripStep_si {libm : Libm R} {clock : ℕ → ℤ} {k : ℕ} {s s' : Si R} {p : Publisher}
    {i : SiInput} (h : siStep libm clock s i = .ok s') :
    tripStep libm clock k ⟨s, p⟩ (.si i) = .ok ⟨s', p.sees k s'.outputBuffer⟩ := by
  simp only [tripStep, h, Fallible.ok_bind]
  rfl

/-- The dataset says that the module has tripped. -/
def Reports (k : ℕ) (values : List MmsValue) : Prop := values[k]? = some (.boolean true)

/-- **What the messages say.** The publisher reads the file that `si` writes. No message says that
there is a trip before there is one, and once a message says so all later ones do. When a call of
the publisher after the trip returns, such a message has been sent, and the dataset says so. -/
structure TripLaw (libm : Libm R) (clock : ℕ → ℤ) (k : ℕ) (c : TripChain R) : Prop where
  shared : ∃ d, c.publisher.inputs[k]? = some d ∧ d.buffer = c.si.outputBuffer
  secure : ∀ m ∈ c.publisher.published, Reports k m.dataSetValues → c.si.trip = true
  latched : ∀ m ∈ c.publisher.published, ∀ m' ∈ c.publisher.published, m.stNum ≤ m'.stNum →
    Reports k m.dataSetValues → Reports k m'.dataSetValues
  announced : c.si.trip = true → ∀ i call c', i.call? = some call →
    tripStep libm clock k c i = .ok c' → Reports k c'.publisher.dataSetValues ∧
      ∃ m ∈ c'.publisher.published, Reports k m.dataSetValues

end Model

/-! ## The entries of the file -/

/-- The entries of the file: zero up to number `0`, and then the trip. -/
def tripEntry (number : ℤ) : ℤ := if 1 ≤ number then 1 else 0

/-- The number of the newest entry. -/
def Si.newest {R : Type} (s : Si R) : ℤ := if s.trip then 1 else 0

/-- **The chain when the publisher has got entry** `last`: it reads the file, the element says
whether that entry is the trip, and so do the messages: none of them if it is not, and otherwise
those from some state on. -/
structure ChainAt {R : Type} (k : ℕ) (n last : ℤ) (c : TripChain R) : Prop where
  states : StatesInv c.publisher
  assigned : ∀ d ∈ c.publisher.inputs, d.Assigned
  input : ∃ d, c.publisher.inputs[k]? = some d ∧ d.buffer = c.si.outputBuffer ∧
    FeedsFrom .updateBool n tripEntry ⟨c.si.newest, last⟩ d ∧
    d.element.head? = some (.boolean (decide (1 ≤ last)))
  last_nonneg : 0 ≤ last
  unreported : last = 0 → ∀ m ∈ c.publisher.published,
    m.dataSetValues[k]? = some (.boolean false)
  reported : 1 ≤ last → ∃ first, 1 ≤ first ∧ first ≤ c.publisher.stNum ∧
    ∀ m ∈ c.publisher.published, m.dataSetValues[k]? = some (.boolean (decide (first ≤ m.stNum)))

section Steps

variable {R : Type} {k : ℕ} {n last : ℤ} {c : TripChain R} {s : Si R} {p' : Publisher}

lemma Si.newest_nonneg (s : Si R) : 0 ≤ s.newest := by
  rw [newest]
  split_ifs <;> decide

lemma Si.newest_le (s : Si R) : s.newest ≤ 1 := by
  rw [newest]
  split_ifs <;> decide

/-- The dataset at the place of the input. -/
lemma ChainAt.dataSetValues_eq (h : ChainAt k n last c) :
    c.publisher.dataSetValues[k]? = some (.boolean (decide (1 ≤ last))) := by
  obtain ⟨d, hd, -, -, hhead⟩ := h.input
  rw [dataSetValues_getElem? h.assigned, hd, Option.bind_some, hhead]

/-- A step of `si` leaves the file alone or adds the trip to it. -/
lemma ChainAt.si [Field R] [LinearOrder R] {libm : Libm R} {clock : ℕ → ℤ} {i : SiInput}
    (h : ChainAt k n last c) (hstep : siStep libm clock c.si i = .ok s)
    (hp' : publisherStep c.publisher (.input k s.outputBuffer) = .ok p') :
    ChainAt k n last ⟨s, p'⟩ := by
  obtain ⟨d, hd, hbuffer, hfeeds, hhead⟩ := h.input
  have hpublished : p'.published = c.publisher.published ∧ p'.stNum = c.publisher.stNum := by
    obtain rfl := Except.ok.inj hp'
    exact ⟨rfl, rfl⟩
  have hfeeds' : FeedsFrom .updateBool n tripEntry ⟨s.newest, last⟩
      { d with buffer := s.outputBuffer } := by
    rcases siStep_trips hstep with ⟨hfalse, htrips⟩ | hquiet
    · have hold : c.si.newest = 0 := by rw [Si.newest, hfalse]; rfl
      have hnew : s.newest = 0 + 1 := by rw [Si.newest, htrips.trip_eq]; rfl
      obtain ⟨r, hwrite⟩ := htrips.output_eq
      rw [← hbuffer] at hwrite
      rw [hold] at hfeeds
      rw [hnew]
      have hpush : FeedsFrom .updateBool n tripEntry (Feed.step n 0 ⟨0, last⟩ .write)
          { d with buffer := s.outputBuffer } := hfeeds.write hwrite rfl
      exact hpush
    · have hsame : s.newest = c.si.newest := by rw [Si.newest, hquiet.trip_eq, Si.newest]
      rw [hsame, hquiet.output_eq, ← hbuffer]
      exact hfeeds
  constructor
  · exact statesInv_publisherStep _ _ _ h.states hp'
  · exact (publisherStep_assigned h.assigned _).2 p' hp'
  · refine ⟨_, ?_, rfl, hfeeds', hhead⟩
    obtain rfl := Except.ok.inj hp'
    show (c.publisher.inputs.modify k _)[k]? = _
    rw [List.getElem?_modify_eq, hd]
    rfl
  · exact h.last_nonneg
  · show last = 0 → ∀ m ∈ p'.published, _
    rw [hpublished.1]
    exact h.unreported
  · show 1 ≤ last → ∃ first, 1 ≤ first ∧ first ≤ p'.stNum ∧ ∀ m ∈ p'.published, _
    rw [hpublished.1, hpublished.2]
    exact h.reported

/-- The ring of another input does not concern the chain. -/
lemma ChainAt.otherRing (h : ChainAt k n last c) {j : ℕ} (hj : j ≠ k) {buffer : Buffer}
    (hp' : publisherStep c.publisher (.input j buffer) = .ok p') :
    ChainAt k n last { c with publisher := p' } := by
  obtain ⟨d, hd, hbuffer, hfeeds, hhead⟩ := h.input
  have hassigned := (publisherStep_assigned h.assigned _).2 p' hp'
  have hstates := statesInv_publisherStep _ _ _ h.states hp'
  obtain rfl := Except.ok.inj hp'
  refine ⟨hstates, hassigned, ⟨d, ?_, hbuffer, hfeeds, hhead⟩, h.last_nonneg, h.unreported,
    h.reported⟩
  show (c.publisher.inputs.modify j _)[k]? = _
  rw [List.getElem?_modify_ne _ _ hj, hd]

/-- A consumer of the two entries gets the newest one, if the ring has two slots. -/
lemma consume_two {maxLag newest : ℤ} (hn : 2 ≤ n) (h₀ : 0 ≤ last) (h₁ : last ≤ newest)
    (h₂ : newest ≤ 1) :
    consume n maxLag newest last = if last = newest then none else some newest := by
  split_ifs with heq
  · rw [consume, if_pos (by rw [heq])]
  · obtain ⟨rfl, rfl⟩ : last = 0 ∧ newest = 1 := by omega
    have hone : (1 : ℤ) % n = 1 := Int.emod_eq_of_lt (by omega) (by omega)
    have hlatest : latest n 1 (0 + 1) = 1 := latest_eq_of_mem (by omega) rfl (by omega) le_rfl
    rw [consume, Int.zero_emod, hone, if_neg (by decide), hlatest]
    split_ifs <;> rfl

/-- A poll of a ring leaves it as it was. -/
lemma FeedsFrom.buffer_eq {update : UpdateFunction} {f : ℤ → ℤ} {feed : Feed} {maxLag : ℤ}
    {d d' : DataInput} {updated : Bool} (h : FeedsFrom update n f feed d)
    (hpoll : d.poll maxLag = .ok (updated, d')) : d'.buffer = d.buffer := by
  have hring := h.ringAt.wellFormed
  have hn := h.ringAt.items_pos
  have hplaced : d.Placed := by
    refine ⟨⟨update.writer.type, ?_, ?_⟩, ?_, ?_⟩
    · cases update <;> exact hring
    · rw [h.updateFunction_eq, update.ofType_writer]
    · rw [h.oldIndex_eq]
      exact Int.emod_nonneg _ hn.ne'
    · rw [h.oldIndex_eq, h.ringAt.items_eq]
      exact Int.emod_lt_of_pos _ hn
  obtain ⟨_, _, hpoll', hbrought⟩ :=
    hplaced.poll_eq maxLag fun _ => by rw [h.updateFunction_eq]; exact Option.some_ne_none _
  rw [hpoll] at hpoll'
  obtain ⟨-, rfl⟩ := Prod.mk.inj (Except.ok.inj hpoll')
  exact hbrought.buffer_eq

/-- **A call of the publisher** gets the newest entry, and announces it if it had not got it. -/
lemma ChainAt.call (hn : 2 ≤ n) (h : ChainAt k n last c) {i : PublisherInput} {now : ℤ}
    (hnow : i.now? = some now) (hp' : publisherStep c.publisher i = .ok p') :
    ChainAt k n c.si.newest { c with publisher := p' } := by
  obtain ⟨d, hd, hbuffer, hfeeds, hhead⟩ := h.input
  have hle : last ≤ c.si.newest := hfeeds.last_le
  have hconsume : consume n c.publisher.maxLag c.si.newest last =
      if last = c.si.newest then none else some c.si.newest :=
    consume_two hn h.last_nonneg hle c.si.newest_le
  obtain ⟨updated, d', hpoll, hd'⟩ : ∃ updated d', d.poll c.publisher.maxLag = .ok (updated, d') ∧
      p'.inputs[k]? = some d' := by
    cases i with
    | input j buffer => cases hnow
    | event now =>
      obtain ⟨result, hevent⟩ := Publisher.publisherStep_event_eq_ok.mp hp'
      obtain ⟨updated, d', hpoll, hd', -⟩ := Publisher.event_input hevent hd
      exact ⟨updated, d', hpoll, hd'⟩
    | run now =>
      obtain ⟨updated, d', hpoll, hd', -⟩ := Publisher.run_input hp' hd
      exact ⟨updated, d', hpoll, hd'⟩
  obtain ⟨hfeeds', hstay, hget⟩ := hfeeds.poll hpoll
  have hfeed : (Feed.step n c.publisher.maxLag ⟨c.si.newest, last⟩ .poll) =
      ⟨c.si.newest, c.si.newest⟩ := by
    show Feed.mk _ ((consume n _ c.si.newest last).getD last) = _
    rw [hconsume]
    split_ifs with heq
    · rw [heq]
      rfl
    · rfl
  have hupdate : d.HasUpdate ↔ last ≠ c.si.newest := by
    rw [hfeeds.hasUpdate_iff c.publisher.maxLag]
    show (consume n _ c.si.newest last).isSome ↔ _
    rw [hconsume]
    split_ifs with heq <;> simp [heq]
  rw [hfeed] at hfeeds' hget
  have hhead' : d'.element.head? = some (.boolean (decide (1 ≤ c.si.newest))) := by
    by_cases heq : last = c.si.newest
    · obtain ⟨-, rfl⟩ := hstay (by rw [hupdate]; exact not_not.mpr heq)
      rw [hhead, heq]
    · obtain ⟨-, helement⟩ := hget (hupdate.mpr heq)
      have hone : c.si.newest = 1 := by
        have := c.si.newest_le
        have := h.last_nonneg
        omega
      rw [helement, List.head?_cons, hone]
      rfl
  have hassigned := (publisherStep_assigned h.assigned i).2 p' hp'
  have hvalue : p'.dataSetValues[k]? = some (.boolean (decide (1 ≤ c.si.newest))) := by
    rw [dataSetValues_getElem? hassigned, hd', Option.bind_some, hhead']
  obtain ⟨hadvances, hrepeats⟩ := publisherStep_numbers hnow hp'
  obtain ⟨hnum, hpublished⟩ : c.publisher.stNum ≤ p'.stNum ∧
      (p'.published = c.publisher.published ∨
        p'.published = c.publisher.published ++ [p'.message]) := by
    by_cases hany : c.publisher.HasUpdate
    · exact ⟨by rw [(hadvances hany).1]; omega, Or.inr (hadvances hany).2⟩
    · exact ⟨(hrepeats hany).1.ge, (hrepeats hany).2.2⟩
  have hmem : ∀ m ∈ p'.published, m ∈ c.publisher.published ∨ m = p'.message := by
    intro m hm
    rcases hpublished with hsame | happend
    · exact Or.inl (hsame ▸ hm)
    · rw [happend, List.mem_append, List.mem_singleton] at hm
      exact hm
  refine ⟨statesInv_publisherStep _ _ _ h.states hp', hassigned,
    ⟨d', hd', (hfeeds.buffer_eq hpoll).trans hbuffer, hfeeds', hhead'⟩, c.si.newest_nonneg, ?_, ?_⟩
  · intro hnone m hm
    have hlast : last = 0 := le_antisymm (hle.trans hnone.le) h.last_nonneg
    rw [hnone] at hvalue
    rcases hmem m hm with hold | rfl
    · exact h.unreported hlast m hold
    · exact hvalue
  · intro hsome
    have hone : c.si.newest = 1 := le_antisymm c.si.newest_le hsome
    rw [hone] at hvalue
    by_cases heq : last = c.si.newest
    · -- announced before
      obtain ⟨first, hpos, hfirst, hall⟩ := h.reported (heq ▸ hsome)
      refine ⟨first, hpos, hfirst.trans hnum, fun m hm => ?_⟩
      rcases hmem m hm with hold | rfl
      · exact hall m hold
      · have htrue : decide (first ≤ p'.message.stNum) = true := decide_eq_true (hfirst.trans hnum)
        rw [htrue]
        exact hvalue
    · -- announced by this call
      have hlast : last = 0 := by
        have := h.last_nonneg
        omega
      obtain ⟨hnext, -⟩ := hadvances ⟨d, List.mem_of_getElem? hd, hupdate.mpr heq⟩
      refine ⟨p'.stNum, by omega, le_rfl, fun m hm => ?_⟩
      rcases hmem m hm with hold | rfl
      · have hlt : ¬ p'.stNum ≤ m.stNum := by
          have := h.states.stNum_le m hold
          omega
        rw [decide_eq_false hlt]
        exact h.unreported hlast m hold
      · have htrue : decide (p'.stNum ≤ p'.message.stNum) = true := decide_eq_true le_rfl
        rw [htrue]
        exact hvalue

/-- **A step** of the device keeps the chain, and a call of the publisher gets the newest entry. -/
lemma ChainAt.step [Field R] [LinearOrder R] {libm : Libm R} {clock : ℕ → ℤ} {i : TripInput}
    {c' : TripChain R} (hn : 2 ≤ n) (h : ChainAt k n last c)
    (hstep : tripStep libm clock k c i = .ok c') :
    (i.call? = none → ChainAt k n last c') ∧
      (i.call? ≠ none → c'.si = c.si ∧ ChainAt k n c.si.newest c') := by
  cases i with
  | si i =>
    obtain ⟨s, hs, hrest⟩ := Fallible.bind_eq_ok.mp hstep
    obtain ⟨p', hp', hrest⟩ := Fallible.bind_eq_ok.mp hrest
    obtain rfl := Except.ok.inj hrest
    exact ⟨fun _ => h.si hs hp', fun hne => absurd rfl hne⟩
  | otherRing j buffer =>
    refine ⟨fun _ => ?_, fun hne => absurd rfl hne⟩
    rw [tripStep] at hstep
    split_ifs at hstep with hj
    · obtain rfl := Except.ok.inj hstep
      exact h
    · obtain ⟨p', hp', hrest⟩ := Fallible.bind_eq_ok.mp hstep
      obtain rfl := Except.ok.inj hrest
      exact h.otherRing hj hp'
  | event now =>
    refine ⟨fun hnone => absurd hnone (Option.some_ne_none _), fun _ => ?_⟩
    obtain ⟨p', hp', hrest⟩ := Fallible.bind_eq_ok.mp hstep
    obtain rfl := Except.ok.inj hrest
    exact ⟨rfl, h.call hn rfl hp'⟩
  | run now =>
    refine ⟨fun hnone => absurd hnone (Option.some_ne_none _), fun _ => ?_⟩
    obtain ⟨p', hp', hrest⟩ := Fallible.bind_eq_ok.mp hstep
    obtain rfl := Except.ok.inj hrest
    exact ⟨rfl, h.call hn rfl hp'⟩

/-- Nothing has been announced, or read by the publisher, after `init`. -/
lemma chainAt_init [Field R] [LinearOrder R] {paramA paramB bufferEntries : ℤ} {input : Buffer}
    {s₀ : Si R} {ttl gooseFastRetransmitTtl maxLag now : ℤ} {buffers : List Buffer}
    {p₀ : Publisher} (hentries : 2 ≤ bufferEntries) (hint : bufferEntries < 2 ^ 31)
    (hsi : initSi R paramA paramB bufferEntries input = .ok s₀)
    (hpublisher : initPublisher ttl gooseFastRetransmitTtl maxLag buffers now = .ok p₀)
    (hfile : buffers[k]? = some s₀.outputBuffer)
    (htypes : ∀ b ∈ buffers, UpdateFunction.ofType b.type ≠ none) :
    ChainAt k bufferEntries 0 ⟨s₀, p₀⟩ := by
  obtain ⟨hheader, hindex, output, hmap, hbytes⟩ := outputRing_initSi (by omega) hint hsi
  have hring : WellFormed UpdateFunction.updateBool.writer.type
      UpdateFunction.updateBool.writer.width s₀.outputBuffer :=
    hheader.wellFormed (by rw [hindex]; omega)
  have hslot : ∀ i, s₀.outputBuffer.slot 1 i = 0 := by
    intro i
    rw [Buffer.slot, get_congr fun j _ => hbytes _ (by omega)]
    exact get_mmapNew hmap _ _
  have hnewest : s₀.newest = 0 := by
    obtain ⟨-, -, -, -, rfl⟩ := initSi_eq hsi
    rfl
  obtain ⟨-, hk⟩ := initPublisher_input hpublisher hfile hring
  have hpublished : p₀.published = [] := by
    obtain ⟨inputs, -, h⟩ := Fallible.bind_eq_ok.mp hpublisher
    obtain rfl := Except.ok.inj h
    rfl
  constructor
  · exact statesInv_initPublisher hpublisher
  · obtain ⟨inputs, hinputs, h⟩ := Fallible.bind_eq_ok.mp hpublisher
    obtain rfl := Except.ok.inj h
    intro d hd
    obtain ⟨b, hb, hinit⟩ := Fallible.exists_element hinputs hd
    exact DataInput.assigned_init hinit (htypes b hb)
  · refine ⟨_, hk, rfl, ⟨⟨hring, hheader.items_eq, ?_, ?_⟩, ?_, ?_, rfl⟩, ?_⟩
    · rw [hindex, hnewest, Int.zero_emod]
    · intro i h₀ h₁
      have hle := latest_le (by omega : 0 < bufferEntries) s₀.newest i
      have hpast : ¬ 1 ≤ latest bufferEntries s₀.newest i := by omega
      show _ = tripEntry (latest bufferEntries s₀.newest i)
      rw [tripEntry, if_neg hpast]
      exact hslot i
    · exact (Int.zero_emod _).symm
    · exact s₀.newest_nonneg
    · show some (UpdateFunction.updateBool.mmsValue (s₀.outputBuffer.slot 1 _)) = _
      rw [hslot]
      rfl
  · exact le_rfl
  · rw [hpublished]
    simp
  · intro hone
    omega

/-- What the chain says about its messages. -/
lemma ChainAt.law [Field R] [LinearOrder R] (libm : Libm R) (clock : ℕ → ℤ) (hn : 2 ≤ n)
    (h : ChainAt k n last c) : TripLaw libm clock k c := by
  have hle : last ≤ c.si.newest := by
    obtain ⟨d, -, -, hfeeds, -⟩ := h.input
    exact hfeeds.last_le
  constructor
  · obtain ⟨d, hd, hbuffer, -⟩ := h.input
    exact ⟨d, hd, hbuffer⟩
  · intro m hm hreports
    rcases eq_or_lt_of_le h.last_nonneg with hzero | hone
    · rw [Reports, h.unreported hzero.symm m hm] at hreports
      cases hreports
    · by_contra hfalse
      rw [Si.newest, if_neg hfalse] at hle
      omega
  · intro m hm m' hm' hnum hreports
    rcases eq_or_lt_of_le h.last_nonneg with hzero | hone
    · rw [Reports, h.unreported hzero.symm m hm] at hreports
      cases hreports
    · obtain ⟨first, -, -, hall⟩ := h.reported (by omega)
      rw [Reports, hall m hm] at hreports
      have hfirst : first ≤ m.stNum := by simpa using hreports
      rw [Reports, hall m' hm', decide_eq_true (hfirst.trans hnum)]
  · intro htrip i call c' hcall hstep
    obtain ⟨-, hcalled⟩ := h.step hn hstep
    obtain ⟨-, hafter⟩ := hcalled (by rw [hcall]; exact Option.some_ne_none _)
    have hnewest : c.si.newest = 1 := by rw [Si.newest, if_pos htrip]
    rw [hnewest] at hafter
    obtain ⟨first, hpos, hfirst, hall⟩ := hafter.reported le_rfl
    obtain ⟨m, hm, hnum⟩ := hafter.states.complete first hpos hfirst
    refine ⟨hafter.dataSetValues_eq, m, hm, ?_⟩
    rw [Reports, hall m hm, decide_eq_true hnum.ge]

end Steps

/-! ## The other device -/

section Delivery

variable {R : Type} [Field R] [LinearOrder R] {libm : Libm R} {clock : ℕ → ℤ} {k : ℕ} {n : ℤ}
  {c : TripChain R} {delivered : List GoosePublication}

/-- What later elements keep of earlier ones, the last one has if any has. -/
lemma exists_getLast?_iff {α : Type} {p : α → Prop} {as : List α}
    (h : as.Pairwise fun a b => p a → p b) :
    (∃ a, as.getLast? = some a ∧ p a) ↔ ∃ a ∈ as, p a := by
  constructor
  · rintro ⟨a, ha, hp⟩
    exact ⟨a, List.mem_of_getLast? ha, hp⟩
  · rintro ⟨a, ha, hp⟩
    obtain ⟨bs, b, rfl⟩ := (List.eq_nil_or_concat as).resolve_left (List.ne_nil_of_mem ha)
    refine ⟨b, by simp, ?_⟩
    rw [List.concat_eq_append] at h ha
    rw [List.mem_append, List.mem_singleton] at ha
    rcases ha with ha | rfl
    · exact (List.pairwise_append.mp h).2.2 a ha b (List.mem_singleton_self b) hp
    · exact hp

/-- **A trip is announced to every device that listens, and to none before.** For every run of `si`
and the publisher in any order, with any samples, clock and other inputs: the messages obey the law,
and so does the ring that any subscriber makes of what gets through. It shows a trip only if there
is one, goes on showing it, and shows it in its newest entry exactly if some message that says so
has got through.

**Proof sketch.** The publisher is the consumer of a ring of two entries, the second of which is the
trip (`ChainAt.step`). Its messages number its states, so the ring of the subscriber holds those
that get through in order (`StatesInv.exists_goose`). -/
theorem trip_delivered {paramA paramB bufferEntries : ℤ} {input : Buffer} {s₀ : Si R}
    {ttl gooseFastRetransmitTtl maxLag now : ℤ} {buffers : List Buffer} {p₀ : Publisher}
    (hentries : 2 ≤ bufferEntries) (hint : bufferEntries < 2 ^ 31)
    (hsi : initSi R paramA paramB bufferEntries input = .ok s₀)
    (hpublisher : initPublisher ttl gooseFastRetransmitTtl maxLag buffers now = .ok p₀)
    (hfile : buffers[k]? = some s₀.outputBuffer)
    (htypes : ∀ b ∈ buffers, UpdateFunction.ofType b.type ≠ none) {is : List TripInput}
    (hrun : Run.exec (tripStep libm clock k) ⟨s₀, p₀⟩ is = .ok c)
    (hlink : Link.Carries c.publisher.published delivered) (lib : GooseLibrary)
    (hnumber : lib.NumbersUpTo c.publisher.stNum) (hn : 1 ≤ n) (hsize : 16 + 1024 * n < 2 ^ 31) :
    let states := deliveredStates c.publisher.published delivered
    TripLaw libm clock k c ∧
      (∃ g₀ g, initGoose n = .ok g₀ ∧
        Run.exec gooseListener g₀ (delivered.map lib.received) = .ok g ∧
        HoldsTexts n (states.map lib.print) g.subscriber) ∧
      (∀ values ∈ states, Reports k values → c.si.trip = true) ∧
      (states.Pairwise fun values values' => Reports k values → Reports k values') ∧
      ((∃ values, states.getLast? = some values ∧ Reports k values) ↔
        ∃ m ∈ delivered, Reports k m.dataSetValues) := by
  have hstep : ∀ t i t', (∃ last, ChainAt k bufferEntries last t) →
      tripStep libm clock k t i = .ok t' → ∃ last, ChainAt k bufferEntries last t' := by
    rintro t i t' ⟨last, h⟩ hstep
    obtain ⟨hstay, hcall⟩ := h.step hentries hstep
    by_cases hnone : i.call? = none
    · exact ⟨last, hstay hnone⟩
    · exact ⟨_, (hcall hnone).2⟩
  obtain ⟨last, hchain⟩ := Run.exec_invariant hstep
    ⟨0, chainAt_init hentries hint hsi hpublisher hfile htypes⟩ hrun
  have hlaw := hchain.law libm clock hentries
  obtain ⟨hsorted, -, hcoherent, -, -⟩ := hchain.states
  have hmem := mem_deliveredStates_iff hsorted hcoherent hlink.subset
  have hpairwise := pairwise_deliveredStates hsorted hlaw.latched delivered
  refine ⟨hlaw, hchain.states.exists_goose hlink lib hnumber hn hsize,
    fun values hvalues hreports => ?_, hpairwise, ?_⟩
  · obtain ⟨m, hm, rfl⟩ := (hmem values).mp hvalues
    exact hlaw.secure m (hlink.subset hm) hreports
  · rw [exists_getLast?_iff hpairwise]
    constructor
    · rintro ⟨values, hvalues, hreports⟩
      obtain ⟨m, hm, rfl⟩ := (hmem values).mp hvalues
      exact ⟨m, hm, hreports⟩
    · rintro ⟨m, hm, hreports⟩
      exact ⟨_, (hmem _).mpr ⟨m, hm, rfl⟩, hreports⟩

end Delivery

/-- The output file of `si` for two entries, before the trip and after it. -/
def tripFile (trip : UInt8) : Buffer where
  bytes := [1, 0, 0, 0, 2, 0, 0, 0, trip, 0, 0, 0, 1, 0, 0, 0, 0, trip]
  length_lt := by simp

set_option maxRecDepth 4000 in
/-- The module before the first sample of `sampleRing`. -/
lemma exists_fresh : ∃ s, initSi ℝ 1 1 2 (sampleRing 0) = .ok s ∧ s.Fresh ∧ s.Ready 2 ∧
    s.index = none ∧ s.oldIndex = 0 ∧ s.outputBuffer = tripFile 0 := by
  have hlen : 16 ≤ (sampleRing 0).length := by
    rw [length_sampleRing]
    omega
  obtain ⟨s, hs⟩ : ∃ s, initSi ℝ 1 1 2 (sampleRing 0) = .ok s :=
    exists_initSi_eq_ok (by decide) hlen
  have hready := ready_initSi (by decide) hs
  have hfile : s.outputBuffer = tripFile 0 := by
    obtain ⟨output, hmap, hheader⟩ := initSi_output hs
    obtain rfl := Option.some.inj hmap
    have hwritten : siHeader TypeCode.bool 1 2 ⟨List.replicate 18 0, by simp⟩ =
        .ok ((), tripFile 0) := rfl
    exact (Prod.mk.inj (Except.ok.inj (hheader.symm.trans hwritten))).2
  obtain ⟨oldIndex, input', output, hread, rfl⟩ := initSi_eq hs
  obtain ⟨rfl, -⟩ := Prod.mk.inj (Except.ok.inj ((readIndex_eq hlen).symm.trans hread))
  have hzero : (sampleRing 0).index = 0 := by decide +kernel
  exact ⟨_, hs, ⟨rfl, rfl, rfl, rfl, rfl⟩, hready, rfl, hzero, hfile⟩

/-- The iteration that takes this sample trips. -/
lemma exists_trip {s : Si ℝ} (hfresh : s.Fresh) (hready : s.Ready 2) (hindex : s.index = some 1)
    (hzero : s.oldIndex = 0) (hinput : s.inputBuffer = sampleRing 1)
    (hfile : s.outputBuffer = tripFile 0) :
    ∃ s', siStep realLibm setBackClock s .iteration = .ok s' ∧ s'.trip = true ∧
      s'.outputBuffer = tripFile 1 := by
  have hring : WellFormed TypeCode.smv92 68 s.inputBuffer := by
    rw [hinput]
    exact wellFormed_sampleRing_one
  have hslots : windowSlots s.oldIndex s.maxItems s.vector = .ok (ringWindow 0 2 80) := by
    rw [hready.maxItems_eq, hready.vector_eq, hzero]
    decide +kernel
  have htwo : s.inputBuffer.items = 2 := by
    rw [hinput]
    decide +kernel
  have hmem : ∀ slot ∈ ringWindow 0 2 80, 0 ≤ slot ∧ slot < s.inputBuffer.items := by
    rw [htwo]
    exact mem_ringWindow (by decide)
  obtain ⟨s', hs'⟩ := hready.exists_iterate (by decide) hring (by omega) (by omega) hslots hmem
    realLibm setBackClock
  have htrip : s'.trip = true := by
    refine hfresh.trip hindex (by omega) (fun samples input hread => ?_) hs'
    rw [readSamples_eq hring hslots hmem, hinput] at hread
    obtain ⟨rfl, -⟩ := Prod.mk.inj (Except.ok.inj hread)
    rw [hready.vector_eq]
    apply two_le_rms
    decide +kernel
  have hstep : siStep realLibm setBackClock s .iteration = .ok s' := hs'
  obtain ⟨r, hwrite⟩ := siStep_writes hstep hfresh.trip_eq htrip
  rw [hfile] at hwrite
  exact ⟨s', hstep, htrip, (Prod.mk.inj (Except.ok.inj (hwrite.symm.trans rfl))).2⟩

/-- **A trip that another device hears of late**: the clock is set back between pickup and
comparison, the message that announces the trip is lost, and the retransmission brings it. -/
theorem trip_delivered_retransmission : ∃ s₀ p₀ c delivered g₀ g,
    initSi ℝ 1 1 2 (sampleRing 0) = .ok s₀ ∧
    initPublisher 2000000 20000 5 [s₀.outputBuffer] 0 = .ok p₀ ∧
    Run.exec (tripStep realLibm setBackClock 0) ⟨s₀, p₀⟩ [.run 1000000,
      .si (.input (sampleRing 1)), .si .event, .si .iteration, .event 1001000, .run 2010000] =
        .ok c ∧
    c.si.trip = true ∧ TripLaw realLibm setBackClock 0 c ∧
    delivered = c.publisher.published.eraseIdx 1 ∧
    Link.Carries c.publisher.published delivered ∧ initGoose 1 = .ok g₀ ∧
    Run.exec gooseListener g₀ (delivered.map countingLibrary.received) = .ok g ∧
    g.subscriber.raised = 2 ∧
    window g.subscriber.outputBuffer.bytes 16 7 = [123, 116, 114, 117, 101, 125, 0] ∧
    ∃ m ∈ delivered, Reports 0 m.dataSetValues := by
  obtain ⟨s₀, hsi, hfresh, hready, hidle, hzero, hfile⟩ := exists_fresh
  set s₁ : Si ℝ := { s₀ with inputBuffer := sampleRing 1, index := some 1 } with hs₁
  have hinput : siStep realLibm setBackClock s₀ (.input (sampleRing 1)) =
    .ok { s₀ with inputBuffer := sampleRing 1 } := rfl
  have hevent : siStep realLibm setBackClock { s₀ with inputBuffer := sampleRing 1 } .event =
      .ok s₁ := by
    have hlen : 16 ≤ (sampleRing 1).length := by
      rw [length_sampleRing]
      omega
    have hone : (sampleRing 1).index = 1 := by decide +kernel
    have hne : s₀.oldIndex ≠ (sampleRing 1).index := by omega
    have hcall := Si.event_of_idle (s := { s₀ with inputBuffer := sampleRing 1 }) hlen hidle
    rw [hs₁, ← hone]
    exact hcall.trans (congrArg Except.ok (if_neg hne))
  have hready₁ : s₁.Ready 2 := ready_siStep _ _ _ (ready_siStep _ _ _ hready hinput) hevent
  obtain ⟨s₂, hiteration, htrip, hfile₂⟩ := exists_trip (s := s₁)
    ⟨hfresh.paramA_eq, hfresh.paramB_eq, hfresh.trip_eq, hfresh.isRecording_eq, hfresh.reads_eq⟩
    hready₁ rfl hzero rfl hfile
  -- the publisher, with what it finds in the file
  obtain ⟨p₀, p₁, p₂, p₃, a, b, m, hpublisher, hp₁, hp₂, hp₃, hpublished, hnum, hstates,
      hreports⟩ : ∃ p₀ p₁ p₂ p₃ a b m,
      initPublisher 2000000 20000 5 [tripFile 0] 0 = .ok p₀ ∧ p₀.run 1000000 = .ok p₁ ∧
      publisherStep (((p₁.sees 0 (tripFile 0)).sees 0 (tripFile 0)).sees 0 (tripFile 1))
        (.event 1001000) = .ok p₂ ∧ p₂.run 2010000 = .ok p₃ ∧ p₃.published = [a, b, m] ∧
      p₃.stNum = 1 ∧ deliveredStates p₃.published [a, m] = [[.boolean false], [.boolean true]] ∧
      Reports 0 m.dataSetValues :=
    ⟨_, _, _, _, _, _, _, rfl, rfl, rfl, rfl, rfl, rfl, rfl, rfl⟩
  have hrun : Run.exec (tripStep realLibm setBackClock 0) ⟨s₀, p₀⟩ [.run 1000000,
      .si (.input (sampleRing 1)), .si .event, .si .iteration, .event 1001000, .run 2010000] =
        .ok ⟨s₂, p₃⟩ := by
    refine Run.exec_cons_eq_ok.mpr ⟨⟨s₀, p₁⟩, ?_, ?_⟩
    · simp only [tripStep, publisherStep, hp₁]
      rfl
    refine Run.exec_cons_eq_ok.mpr ⟨_, tripStep_si hinput, ?_⟩
    refine Run.exec_cons_eq_ok.mpr ⟨_, tripStep_si hevent, ?_⟩
    refine Run.exec_cons_eq_ok.mpr ⟨_, tripStep_si hiteration, ?_⟩
    rw [hfile, hfile₂]
    refine Run.exec_cons_eq_ok.mpr ⟨⟨s₂, p₂⟩, ?_, ?_⟩
    · simp only [tripStep, hp₂]
      rfl
    refine Run.exec_cons_eq_ok.mpr ⟨⟨s₂, p₃⟩, ?_, rfl⟩
    simp only [tripStep, publisherStep, hp₃]
    rfl
  have hlink : Link.Carries p₃.published [a, m] := by
    rw [hpublished]
    exact .deliver a (.lose a (.lose b (Link.carries_refl [m])))
  rw [← hfile] at hpublisher
  have htypes : ∀ b ∈ [s₀.outputBuffer], UpdateFunction.ofType b.type ≠ none := by
    rw [List.forall_mem_singleton, hfile]
    decide
  have hnumber : countingLibrary.NumbersUpTo p₃.stNum := by
    rw [hnum]
    exact ⟨by decide, by decide⟩
  obtain ⟨hlaw, ⟨g₀, g, hg₀, hg, hring⟩, -⟩ := trip_delivered (k := 0) (n := 1) le_rfl (by decide)
    hsi hpublisher rfl htypes hrun hlink countingLibrary hnumber le_rfl (by decide)
  rw [hstates] at hring
  have hslot := hring.slot_eq 0 (countingLibrary.print [.boolean true]) (by decide) rfl
  rw [Int.emod_one] at hslot
  exact ⟨s₀, p₀, _, [a, m], g₀, g, hsi, hpublisher, hrun, htrip, hlaw, by rw [hpublished]; rfl,
    hlink, hg₀, hg, hring.raised_eq, hslot, m, by simp, hreports⟩

end Tmee
