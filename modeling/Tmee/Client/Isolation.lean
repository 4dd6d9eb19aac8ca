import Tmee.Client.Calls

set_option relaxedAutoImplicit false
set_option autoImplicit false

/-!
# Isolation of IEDs

The client keeps the references of the report control blocks that it registered in one list for all
IEDs, without the IED. Two runs are compared: a run of any calls, and the run of a client that
leaves out the registrations on one IED, and possibly other calls on it. The registrations on the
other IEDs are the same in both runs unless one comes to a report whose reference was registered on
the IED that is left out, and on no other.

## Main definitions

* `Tmee.NeverRegisters` — which calls the second client makes.
* `Tmee.registration` — what a registration returns, and its effects.
* `Tmee.Clash` — the reports that interfere.

## Main results

* `Tmee.sameElsewhere_of_exec` — what the two clients have in common after a run.
* `Tmee.registrations_same_iff` — the registrations are the same if and only if there is no clash.
-/

namespace Tmee

variable {V F : Type}

/-! ## Two runs -/

section Isolation

variable (urlparse : String → UriRef) (ied : String)

/-- The call is for the IED. -/
def OnIed (call : ClientCall) : Prop := ∃ path, callTarget urlparse call = .ok (some (ied, path))

/-- A client that never registers anything on the IED: it makes the calls that are kept. -/
structure NeverRegisters (keep : ClientCall × Answers V F → Bool) : Prop where
  drops : ∀ i, keep i = false → OnIed urlparse ied i.1
  registers : ∀ ref a, keep (.registerReadValue ref, a) = true →
    ¬ OnIed urlparse ied (.registerReadValue ref)

/-- The second client has the same state for all other IEDs, and has registered no other reports. -/
structure SameElsewhere (c c' : Client) : Prop where
  endpoint : ∀ tupl ≠ ied, c.endpoint tupl = c'.endpoint tupl
  polling : ∀ ref, ¬ OnIed urlparse ied (.registerReadValue ref) →
    (ref ∈ c.polling ↔ ref ∈ c'.polling)
  cbRefs : c'.cbRefs ⊆ c.cbRefs

/-- What a registration returns, the state of the IED after it, and whether the reference is
polled. -/
def registration (a : Answers V F) (ref tupl : String) (c : Client) :
    Except Stop ℤ × Endpoint × Bool :=
  match registerReadValue urlparse a ref c with
  | .ok result c => (.ok result, c.endpoint tupl, ref ∈ c.polling)
  | .error stop c => (.error stop, c.endpoint tupl, ref ∈ c.polling)

/-- The registration comes to a report whose reference is in `cb_refs` of the first client only. -/
def Clash (a : Answers V F) (ref tupl path : String) (c c' : Client) : Prop :=
  ref ∉ c.polling ∧ ∃ e con d, reportOf a ref tupl path (c.endpoint tupl) = some (e, con, d) ∧
    d.rpt ∈ c.cbRefs ∧ d.rpt ∉ c'.cbRefs

/-- The history comes to a registration on another IED, in this state; the second client is in that
state. -/
structure ComesTo (keep : ClientCall × Answers V F → Bool) (is : List (ClientCall × Answers V F))
    (a : Answers V F) (ref tupl path : String) (c c' : Client) : Prop where
  runs : ∃ pre, pre ++ [(.registerReadValue ref, a)] <+: is ∧
    Run.exec (clientStep urlparse) Client.initial pre = .ok c ∧
    Run.exec (clientStep urlparse) Client.initial (pre.filter keep) = .ok c'
  target : uriTarget (urlparse ref) = .ok (some (tupl, path))
  other : tupl ≠ ied

end Isolation

section Steps

variable {urlparse : String → UriRef} {ied : String} {a : Answers V F} {ref tupl path : String}
  {c c' : Client}

/-- A reference has one IED. -/
lemma not_onIed {call : ClientCall} (htarget : callTarget urlparse call = .ok (some (tupl, path)))
    (hother : tupl ≠ ied) : ¬ OnIed urlparse ied call := by
  rintro ⟨path', hpath⟩
  rw [htarget] at hpath
  simp only [Except.ok.injEq, Option.some.injEq, Prod.mk.injEq] at hpath
  exact hother hpath.1

/-- Without a clash, a registration for the IED does the same. -/
lemma registerReadValueAt_congr (hsub : c'.cbRefs ⊆ c.cbRefs) (hmem : ref ∉ c.polling)
    (hclash : ¬ Clash a ref tupl path c c') :
    registerReadValueAt a c'.cbRefs ref tupl path (c.endpoint tupl) =
      registerReadValueAt a c.cbRefs ref tupl path (c.endpoint tupl) := by
  rcases registersBy a ref tupl path (c.endpoint tupl) with
    ⟨-, result, hresult⟩ | ⟨e, con, d, hreport, hresult⟩
  · rw [hresult, hresult]
  · have hiff : d.rpt ∈ c.cbRefs ↔ d.rpt ∈ c'.cbRefs :=
      ⟨fun hin => by_contra fun hout => hclash ⟨hmem, e, con, d, hreport, hin, hout⟩,
        fun hin => hsub hin⟩
    rw [hresult, hresult]
    simp only [hiff]

/-- What a registration gives, when the reference is not polled. -/
lemma registration_of_not_mem (hmem : ref ∉ c.polling)
    (htarget : uriTarget (urlparse ref) = .ok (some (tupl, path))) :
    registration urlparse a ref tupl c =
      match registerReadValueAt a c.cbRefs ref tupl path (c.endpoint tupl) with
      | .ok r e => (.ok r.result, e, r.poll)
      | .error stop e => (.error stop, e, false) := by
  rw [registration, registerReadValue_of_not_mem hmem htarget]
  rcases registerReadValueAt a c.cbRefs ref tupl path (c.endpoint tupl) with ⟨r, e⟩ | ⟨stop, e⟩
  · cases hpoll : r.poll <;> simp [Client.register, Client.withEndpoint, hpoll, hmem]
  · simp [Client.withEndpoint, hmem]

/-- **A registration**: the second client does the same, unless there is a clash. -/
lemma registration_eq_iff (h : SameElsewhere urlparse ied c c')
    (htarget : uriTarget (urlparse ref) = .ok (some (tupl, path))) (hother : tupl ≠ ied) :
    registration urlparse a ref tupl c = registration urlparse a ref tupl c' ↔
      ¬ Clash a ref tupl path c c' := by
  have hpolling := h.polling ref (not_onIed htarget hother)
  have hendpoint := h.endpoint tupl hother
  by_cases hmem : ref ∈ c.polling
  · have hsame : registration urlparse a ref tupl c = registration urlparse a ref tupl c' := by
      rw [registration, registration, registerReadValue_of_mem hmem,
        registerReadValue_of_mem (hpolling.mp hmem)]
      simp [hendpoint, hmem, hpolling.mp hmem]
    exact ⟨fun _ hclash => hclash.1 hmem, fun _ => hsame⟩
  have hmem' : ref ∉ c'.polling := fun hin => hmem (hpolling.mpr hin)
  rw [registration_of_not_mem hmem htarget, registration_of_not_mem hmem' htarget, ← hendpoint]
  constructor
  · rintro hsame ⟨-, e, con, d, hreport, hin, hout⟩
    rcases registersBy a ref tupl path (c.endpoint tupl) with
      ⟨hnone, -⟩ | ⟨e', con', d', hreport', hresult⟩
    · rw [hnone] at hreport
      cases hreport
    · rw [hreport'] at hreport
      simp only [Option.some.injEq, Prod.mk.injEq] at hreport
      obtain ⟨rfl, rfl, rfl⟩ := hreport
      rw [hresult, hresult, if_pos hin, if_neg hout] at hsame
      -- only the second client adds the report
      have hreporting := congrArg (fun x => x.2.1.reporting.length) hsame
      simp [Endpoint.addReport, Endpoint.enable] at hreporting
  · intro hclash
    rw [registerReadValueAt_congr h.cbRefs hmem hclash]

namespace SameElsewhere

variable (h : SameElsewhere urlparse ied c c')

include h

lemma withEndpoint_left (e : Endpoint) : SameElsewhere urlparse ied (c.withEndpoint ied e) c' where
  endpoint t ht := (Function.update_of_ne ht _ _).trans (h.endpoint t ht)
  polling := h.polling
  cbRefs := h.cbRefs

lemma withEndpoint_right (e : Endpoint) : SameElsewhere urlparse ied c (c'.withEndpoint ied e) where
  endpoint t ht := (h.endpoint t ht).trans (Function.update_of_ne ht _ _).symm
  polling := h.polling
  cbRefs := h.cbRefs

lemma withEndpoint (tupl : String) (e : Endpoint) :
    SameElsewhere urlparse ied (c.withEndpoint tupl e) (c'.withEndpoint tupl e) where
  endpoint t ht := by
    by_cases htupl : t = tupl
    · simp [Client.withEndpoint, htupl]
    · simp [Client.withEndpoint, Function.update_of_ne htupl, h.endpoint t ht]
  polling := h.polling
  cbRefs := h.cbRefs

lemma register (ref : String) (r : Registered) :
    SameElsewhere urlparse ied (c.register ref r) (c'.register ref r) where
  endpoint := h.endpoint
  polling ref' href' := by
    have hmem := h.polling ref' href'
    cases hpoll : r.poll <;> simp [Client.register, hpoll, hmem]
  cbRefs := List.append_subset.mpr ⟨List.Subset.trans h.cbRefs (List.subset_append_left _ _),
    List.subset_append_right _ _⟩

/-- A registration on the IED itself. -/
lemma register_left (hon : OnIed urlparse ied (.registerReadValue ref)) (r : Registered) :
    SameElsewhere urlparse ied (c.register ref r) c' where
  endpoint := h.endpoint
  polling ref' href' := by
    have hne : ref' ≠ ref := by
      rintro rfl
      exact href' hon
    rw [← h.polling ref' href']
    cases hpoll : r.poll <;> simp [Client.register, hpoll, hne]
  cbRefs := List.Subset.trans h.cbRefs (List.subset_append_left _ _)

/-- **A call that only the first client makes.** -/
lemma step_dropped {i : ClientCall × Answers V F} {c₁ : Client} (hon : OnIed urlparse ied i.1)
    (hstep : clientStep urlparse c i = .ok c₁) : SameElsewhere urlparse ied c₁ c' := by
  obtain ⟨call, a⟩ := i
  obtain ⟨path, htarget⟩ := id hon
  obtain ⟨e, rfl | ⟨ref, r, rfl, rfl⟩⟩ := clientStep_eq_ok htarget hstep
  · exact h.withEndpoint_left e
  · exact (h.withEndpoint_left e).register_left hon r

/-- A call on the IED itself that both clients make. -/
lemma step_on {call : ClientCall} {c₁ c₁' : Client}
    (htarget : callTarget urlparse call = .ok (some (ied, path)))
    (hcall : ∀ ref, call ≠ .registerReadValue ref)
    (hstep : clientStep urlparse c (call, a) = .ok c₁)
    (hstep' : clientStep urlparse c' (call, a) = .ok c₁') : SameElsewhere urlparse ied c₁ c₁' := by
  obtain ⟨e, rfl | ⟨ref, r, rfl, -⟩⟩ := clientStep_eq_ok htarget hstep
  · obtain ⟨e', rfl | ⟨ref, r, rfl, -⟩⟩ := clientStep_eq_ok htarget hstep'
    · exact (h.withEndpoint_left e).withEndpoint_right e'
    · exact absurd rfl (hcall ref)
  · exact absurd rfl (hcall ref)

/-- A call on another IED that both clients make, and that registers nothing. -/
lemma step_elsewhere {call : ClientCall} {c₁ c₁' : Client}
    (htarget : callTarget urlparse call = .ok (some (tupl, path))) (hother : tupl ≠ ied)
    (hcall : ∀ ref, call ≠ .registerReadValue ref)
    (hstep : clientStep urlparse c (call, a) = .ok c₁)
    (hstep' : clientStep urlparse c' (call, a) = .ok c₁') : SameElsewhere urlparse ied c₁ c₁' := by
  have hpolling : ∀ key, call = .pollKey key → (key ∈ c.polling ↔ key ∈ c'.polling) := by
    rintro key rfl
    exact h.polling key (not_onIed htarget hother)
  by_cases hc : Polled c call
  · have hc' : Polled c' call := fun key hkey => (hpolling key hkey).mp (hc key hkey)
    obtain ⟨f, hf⟩ := exists_clientStep_eq (a := a) hcall htarget
    rw [hf c hc] at hstep
    rw [hf c' hc', ← h.endpoint tupl hother] at hstep'
    cases he : f (c.endpoint tupl) with
    | error stop =>
      rw [he] at hstep
      cases hstep
    | ok e =>
      rw [he] at hstep hstep'
      obtain rfl := Except.ok.inj hstep
      obtain rfl := Except.ok.inj hstep'
      exact h.withEndpoint tupl e
  · obtain ⟨key, rfl, hkey⟩ : ∃ key, call = .pollKey key ∧ key ∉ c.polling := by
      simpa [Polled] using hc
    have hkey' := fun hin => hkey ((hpolling key rfl).mpr hin)
    rw [clientStep_pollKey hkey] at hstep
    rw [clientStep_pollKey hkey'] at hstep'
    obtain rfl := Except.ok.inj hstep
    obtain rfl := Except.ok.inj hstep'
    exact h

/-- A registration on another IED that both clients make. -/
lemma step_registers {c₁ c₁' : Client}
    (htarget : uriTarget (urlparse ref) = .ok (some (tupl, path))) (hother : tupl ≠ ied)
    (hclash : ¬ Clash a ref tupl path c c')
    (hstep : clientStep urlparse c (.registerReadValue ref, a) = .ok c₁)
    (hstep' : clientStep urlparse c' (.registerReadValue ref, a) = .ok c₁') :
    SameElsewhere urlparse ied c₁ c₁' := by
  have hpolling := h.polling ref (not_onIed htarget hother)
  by_cases hmem : ref ∈ c.polling
  · rw [clientStep_register_of_mem hmem] at hstep
    rw [clientStep_register_of_mem (hpolling.mp hmem)] at hstep'
    obtain rfl := Except.ok.inj hstep
    obtain rfl := Except.ok.inj hstep'
    exact h
  have hmem' := fun hin => hmem (hpolling.mpr hin)
  rw [clientStep_register hmem htarget] at hstep
  rw [clientStep_register hmem' htarget, ← h.endpoint tupl hother,
    registerReadValueAt_congr h.cbRefs hmem hclash] at hstep'
  rcases hrun : registerReadValueAt a c.cbRefs ref tupl path (c.endpoint tupl) with
    ⟨r, e⟩ | ⟨_ | _, e⟩ <;> rw [hrun] at hstep hstep'
  · obtain rfl := Except.ok.inj hstep
    obtain rfl := Except.ok.inj hstep'
    exact (h.withEndpoint tupl e).register ref r
  · obtain rfl := Except.ok.inj hstep
    obtain rfl := Except.ok.inj hstep'
    exact h.withEndpoint tupl e
  · cases hstep

/-- **A call that both clients make.** -/
lemma step_kept {i : ClientCall × Answers V F} {c₁ c₁' : Client}
    (hstep : clientStep urlparse c i = .ok c₁) (hstep' : clientStep urlparse c' i = .ok c₁')
    (hreg : ∀ ref, i.1 = .registerReadValue ref → ¬ OnIed urlparse ied i.1)
    (hclash : ∀ ref tupl path, i.1 = .registerReadValue ref →
      uriTarget (urlparse ref) = .ok (some (tupl, path)) → ¬ Clash i.2 ref tupl path c c') :
    SameElsewhere urlparse ied c₁ c₁' := by
  obtain ⟨call, a⟩ := i
  by_cases hnone : ∀ tupl path, callTarget urlparse call ≠ .ok (some (tupl, path))
  · rw [clientStep_of_not_target hnone] at hstep hstep'
    obtain rfl := Except.ok.inj hstep
    obtain rfl := Except.ok.inj hstep'
    exact h
  obtain ⟨tupl, path, htarget⟩ :
      ∃ tupl path, callTarget urlparse call = .ok (some (tupl, path)) := by
    simpa using hnone
  by_cases hied : tupl = ied
  · subst hied
    exact h.step_on htarget (fun ref hcall => hreg ref hcall ⟨path, htarget⟩) hstep hstep'
  by_cases hcall : ∀ ref, call ≠ .registerReadValue ref
  · exact h.step_elsewhere htarget hied hcall hstep hstep'
  · obtain ⟨ref, rfl⟩ : ∃ ref, call = .registerReadValue ref := by simpa using hcall
    exact h.step_registers htarget hied (hclash ref tupl path rfl htarget) hstep hstep'

end SameElsewhere

end Steps

/-! ## Runs -/

section Runs

variable {urlparse : String → UriRef} {ied : String} {keep : ClientCall × Answers V F → Bool}

lemma ComesTo.of_prefix {is js : List (ClientCall × Answers V F)} {a : Answers V F}
    {ref tupl path : String} {c c' : Client}
    (h : ComesTo urlparse ied keep is a ref tupl path c c') (his : is <+: js) :
    ComesTo urlparse ied keep js a ref tupl path c c' := by
  obtain ⟨⟨pre, hpre, hexec, hexec'⟩, htarget, hother⟩ := h
  exact ⟨⟨pre, hpre.trans his, hexec, hexec'⟩, htarget, hother⟩

/-- **Two runs**: as long as there is no clash, the second client is the same elsewhere. -/
lemma sameElsewhere_of_exec (hkeep : NeverRegisters urlparse ied keep)
    {is : List (ClientCall × Answers V F)} {c c' : Client}
    (hexec : Run.exec (clientStep urlparse) Client.initial is = .ok c)
    (hexec' : Run.exec (clientStep urlparse) Client.initial (is.filter keep) = .ok c')
    (hclash : ∀ a ref tupl path t t', ComesTo urlparse ied keep is a ref tupl path t t' →
      SameElsewhere urlparse ied t t' → ¬ Clash a ref tupl path t t') :
    SameElsewhere urlparse ied c c' := by
  induction is using List.reverseRecOn generalizing c c' with
  | nil =>
    obtain rfl := Except.ok.inj hexec
    obtain rfl := Except.ok.inj hexec'
    exact ⟨fun _ _ => rfl, fun _ _ => Iff.rfl, fun _ h => h⟩
  | append_singleton is i ih =>
    obtain ⟨t, ht, hstep⟩ := Run.exec_concat_eq_ok.mp hexec
    have hbefore : ∀ a ref tupl path s s', ComesTo urlparse ied keep is a ref tupl path s s' →
        SameElsewhere urlparse ied s s' → ¬ Clash a ref tupl path s s' :=
      fun a ref tupl path s s' h => hclash a ref tupl path s s' (h.of_prefix (is.prefix_append [i]))
    rw [List.filter_append] at hexec'
    cases hi : keep i with
    | false =>
      rw [List.filter_singleton, hi, cond_false, List.append_nil] at hexec'
      exact (ih ht hexec' hbefore).step_dropped (hkeep.drops i hi) hstep
    | true =>
      rw [List.filter_singleton, hi, cond_true] at hexec'
      obtain ⟨t', ht', hstep'⟩ := Run.exec_concat_eq_ok.mp hexec'
      have h := ih ht ht' hbefore
      obtain ⟨call, a⟩ := i
      have hreg : ∀ ref, call = .registerReadValue ref → ¬ OnIed urlparse ied call := by
        rintro ref rfl
        exact hkeep.registers ref a hi
      refine h.step_kept hstep hstep' hreg fun ref tupl path hcall htarget => ?_
      obtain rfl : call = .registerReadValue ref := hcall
      refine hclash a ref tupl path t t' ⟨⟨is, List.prefix_rfl, ht, ht'⟩, htarget, ?_⟩ h
      rintro rfl
      exact hreg ref rfl ⟨path, htarget⟩

/-- **Isolation of registrations**: in every history, the registrations on other IEDs return the
same and have the same effects as in a client that never registers anything on the IED, if and only
if none of them comes to a report whose reference was registered on the IED and on no other. -/
theorem registrations_same_iff (hkeep : NeverRegisters urlparse ied keep)
    (is : List (ClientCall × Answers V F)) :
    (∀ a ref tupl path c c', ComesTo urlparse ied keep is a ref tupl path c c' →
      registration urlparse a ref tupl c = registration urlparse a ref tupl c') ↔
    ∀ a ref tupl path c c', ComesTo urlparse ied keep is a ref tupl path c c' →
      ¬ Clash a ref tupl path c c' := by
  constructor
  · intro hsame a ref tupl path c c' h
    obtain ⟨pre, hpre, hexec, hexec'⟩ := h.runs
    have helse : SameElsewhere urlparse ied c c' := by
      refine sameElsewhere_of_exec hkeep hexec hexec' fun a ref tupl path t t' ht helse => ?_
      have hbefore := ht.of_prefix ((pre.prefix_append _).trans hpre)
      exact (registration_eq_iff helse ht.target ht.other).mp (hsame a ref tupl path t t' hbefore)
    exact (registration_eq_iff helse h.target h.other).mp (hsame a ref tupl path c c' h)
  · intro hclash a ref tupl path c c' h
    obtain ⟨pre, hpre, hexec, hexec'⟩ := h.runs
    have helse : SameElsewhere urlparse ied c c' := by
      refine sameElsewhere_of_exec hkeep hexec hexec' fun a ref tupl path t t' ht _ => ?_
      exact hclash a ref tupl path t t' (ht.of_prefix ((pre.prefix_append _).trans hpre))
    exact (registration_eq_iff helse h.target h.other).mpr (hclash a ref tupl path c c' h)

end Runs

/-- All calls but reading and registering the value on the host `a`. -/
def othersOnly (i : ClientCall × Answers PlainValue Unit) : Bool :=
  i.1 ∉ [ClientCall.readValue refA, .registerReadValue refA]

lemma neverRegisters_othersOnly : NeverRegisters parseHosts "a:102" othersOnly where
  drops i hi := by
    obtain ⟨call, a⟩ := i
    obtain rfl | rfl : call = .readValue refA ∨ call = .registerReadValue refA := by
      simpa [othersOnly, Classical.or_iff_not_imp_left] using hi
    · exact ⟨"D/L.X.v", rfl⟩
    · exact ⟨"D/L.X.v", rfl⟩
  registers ref a hkept := by
    have hne : ref ≠ refA := by simpa [othersOnly] using hkept
    have htarget : callTarget parseHosts (.registerReadValue ref) =
        .ok (some ("b:102", "D/L.X.v")) := by
      show uriTarget (parseHosts ref) = _
      rw [parseHosts, if_neg hne]
      rfl
    exact not_onIed htarget (by decide)

/-- The IED does what it is asked for, and its report has another name. -/
def answeringQ : Answers PlainValue Unit := { answering with discovery := .ok (reportModel "Q") }

/-- The value is registered on the host `a`, where its report is `Q`, and then on the host `b`,
where its report is `R`. The second registration installs its handler. -/
theorem registrations_same_iff_two :
    ∃ c, ComesTo parseHosts "a:102" othersOnly
        [(.registerReadValue refA, answeringQ), (.registerReadValue refB, answering)]
        answering refB "b:102" "D/L.X.v" c Client.initial ∧
      c.cbRefs = ["D/L.RP.Q"] ∧
      registration parseHosts answering refB "b:102" c =
        registration parseHosts answering refB "b:102" Client.initial ∧
      (registration parseHosts answering refB "b:102" c).2.1.handlers = [(0, "D/L.RP.R")] := by
  have hstate : (Run.exec (clientStep parseHosts) Client.initial
      [(.registerReadValue refA, answeringQ)]).map (fun c =>
        (c.cbRefs, (reportOf answering refB "b:102" "D/L.X.v" (c.endpoint "b:102")).map
          fun found => found.2.2.rpt)) =
      .ok (["D/L.RP.Q"], some "D/L.RP.R") := by rfl
  cases hexec : Run.exec (clientStep parseHosts) Client.initial
      [(.registerReadValue refA, answeringQ)] with
  | error stop =>
    rw [hexec] at hstate
    cases hstate
  | ok c =>
    rw [hexec] at hstate
    obtain ⟨hcbRefs, hreport⟩ := Prod.mk.inj (Except.ok.inj hstate)
    have hcomes : ComesTo parseHosts "a:102" othersOnly
        [(.registerReadValue refA, answeringQ), (.registerReadValue refB, answering)]
        answering refB "b:102" "D/L.X.v" c Client.initial :=
      ⟨⟨_, List.prefix_rfl, hexec, rfl⟩, rfl, by decide⟩
    have hsame : registration parseHosts answering refB "b:102" c =
        registration parseHosts answering refB "b:102" Client.initial := by
      refine (registrations_same_iff neverRegisters_othersOnly _).mpr ?_ _ _ _ _ _ _ hcomes
      rintro a ref tupl path c₁ c' ⟨⟨pre, hpre, hexec₁, -⟩, htarget, hother⟩
        ⟨-, e, con, d, hfound, hin, -⟩
      obtain _ | ⟨i, _ | ⟨i', pre⟩⟩ := pre
      · -- the first registration is the one on the host `a`
        obtain ⟨hfirst, -⟩ := List.cons_prefix_cons.mp hpre
        cases hfirst
        cases htarget
        exact hother rfl
      · obtain ⟨rfl, hrest⟩ := List.cons_prefix_cons.mp hpre
        obtain ⟨hsecond, -⟩ := List.cons_prefix_cons.mp hrest
        cases hsecond
        have hrefB : uriTarget (parseHosts refB) = .ok (some ("b:102", "D/L.X.v")) := rfl
        obtain ⟨rfl, rfl⟩ : "b:102" = tupl ∧ "D/L.X.v" = path := by
          simpa using hrefB.symm.trans htarget
        obtain rfl : c = c₁ := Except.ok.inj (hexec.symm.trans hexec₁)
        rw [hfound] at hreport
        have hrpt : d.rpt = "D/L.RP.R" := Option.some.inj hreport
        rw [hcbRefs, hrpt] at hin
        exact absurd hin (by decide)
      · have hlen := hpre.length_le
        simp only [List.cons_append, List.length_cons, List.length_append, List.length_nil] at hlen
        omega
    exact ⟨c, hcomes, hcbRefs, hsame, by rw [hsame]; rfl⟩

/-- **Reports with one name**: two IEDs have the same model. After the value was registered on the
host `a`, its registration on the host `b` returns `0`, but installs no handler. -/
theorem registration_not_same :
    ∃ c c', ComesTo parseHosts "a:102" othersOnly
        [(.registerReadValue refA, answering), (.registerReadValue refB, answering)]
        answering refB "b:102" "D/L.X.v" c c' ∧
      (registration parseHosts answering refB "b:102" c).1 = .ok 0 ∧
      (registration parseHosts answering refB "b:102" c).2.1.handlers = [] ∧
      (registration parseHosts answering refB "b:102" c').2.1.handlers = [(0, "D/L.RP.R")] := by
  have hstate : (Run.exec (clientStep parseHosts) Client.initial
      [(.registerReadValue refA, answering)]).map (fun c =>
        ((registration parseHosts answering refB "b:102" c).1,
          (registration parseHosts answering refB "b:102" c).2.1.handlers)) =
      .ok (.ok 0, []) := by rfl
  cases hexec : Run.exec (clientStep parseHosts) Client.initial
      [(.registerReadValue refA, answering)] with
  | error stop =>
    rw [hexec] at hstate
    cases hstate
  | ok c =>
    rw [hexec] at hstate
    obtain ⟨hresult, hhandlers⟩ := Prod.mk.inj (Except.ok.inj hstate)
    exact ⟨c, Client.initial, ⟨⟨_, List.prefix_rfl, hexec, rfl⟩, rfl, by decide⟩, hresult,
      hhandlers, rfl⟩

end Tmee
