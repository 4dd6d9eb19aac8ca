import Mathlib.Data.List.Perm.Basic
import Tmee.Client.Client

set_option relaxedAutoImplicit false
set_option autoImplicit false

/-!
# Connections are accounted for

Every connection object that the client creates is in use for its IED, or was destroyed. A call can
end in many places, and an exception of `discovery` leaves a connection stored that has no model;
the next call finds it there.

## Main definitions

* `Tmee.Endpoint.accounted` — the connection in use, and those destroyed.
* `Tmee.Accounted` — they are the connections created, each once.

## Main results

* `Tmee.accounted_rules` — what the parts of the calls preserve.
* `Tmee.connections_accounted` — after every run, for every IED.
-/

namespace Tmee

variable {V F : Type}

open Hoare

/-- The connection in use, and those destroyed. -/
def Endpoint.accounted (e : Endpoint) : List ℕ := e.con.toList ++ e.destroyed

/-- **Each connection created is in use or was destroyed**: one of the two, and not twice. -/
def Accounted (e : Endpoint) : Prop := e.accounted.Perm (List.range e.created)

section Steps

variable {e : Endpoint}

/-- A further connection. -/
lemma Accounted.create (h : Accounted e) :
    (e.created :: e.accounted).Perm (List.range (e.created + 1)) := by
  rw [List.range_succ]
  exact (h.cons e.created).trans (List.perm_append_singleton e.created _).symm

/-- Nothing changes if the connections do not. -/
lemma Accounted.congr {e' : Endpoint} (h : Accounted e) (hcon : e'.con = e.con)
    (hdestroyed : e'.destroyed = e.destroyed) (hcreated : e'.created = e.created) :
    Accounted e' := by
  rw [Accounted, Endpoint.accounted, hcon, hdestroyed, hcreated]
  exact h

/-- The connection in use is given up. -/
lemma Accounted.giveUp (h : Accounted e) {con : ℕ} (hcon : e.con = some con) :
    Accounted ((e.destroy con).withCon none) := by
  have hnone : ((e.destroy con).withCon none).con = none := by simp
  rw [Accounted, Endpoint.accounted, hcon] at h
  rw [Accounted, Endpoint.accounted, hnone]
  exact h

end Steps

/-- **A new connection.** -/
lemma triple_reconnect_accounted (a : Answers V F) :
    Triple (fun e => e.con = none ∧ e.entry ≠ none ∧ Accounted e) (reconnect a)
      (fun _ => Accounted) (orCrash Accounted) := by
  refine triple_reconnect_of (S := fun _ => Accounted) (J := fun _ _ _ => Accounted)
    (fun _ => Or.inl rfl) ?_ ?_ (fun _ _ _ he _ => Or.inr he) (fun _ _ he _ => he) ?_
    (fun _ _ _ _ _ _ _ he => he) (fun _ _ _ _ he => he)
  · rintro - e ⟨hcon, -, he⟩
    have hnew := he.create
    rw [Endpoint.accounted, hcon] at hnew
    have hcon' : (Endpoint.destroy { e with created := e.created + 1 } e.created).con = none :=
      hcon
    rw [Accounted, Endpoint.accounted, hcon']
    exact hnew
  · rintro - e ⟨hcon, hentry, he⟩
    obtain ⟨entry, hentry⟩ := Option.ne_none_iff_exists'.mp hentry
    have hnew := he.create
    rw [Endpoint.accounted, hcon] at hnew
    have hcon' : (Endpoint.withCon { e with created := e.created + 1 } (some e.created)).con =
        some e.created := by simp [hentry]
    rw [Accounted, Endpoint.accounted, hcon']
    exact hnew
  · intro con e entries he _ _
    exact he.congr (e.con_withModel _) rfl rfl

/-- **What the parts of the calls preserve.** -/
lemma accounted_rules :
    EndpointRules Accounted (fun _ (_ : Answers V F) _ _ => True) (fun _ _ _ _ => True) where
  initial := List.Perm.refl _
  connects call a path := by
    have hconnects : Triple Accounted (getIED a) (fun _ => Accounted) (orCrash Accounted) := by
      refine triple_getIED_of (fun _ _ _ _ he _ _ => he) (fun _ _ he _ => Or.inr he) ?_ ?_ ?_ ?_
        (triple_reconnect_accounted a)
      · intro e con model control entries he _ _ _
        exact he.congr (e.con_withModel _) rfl rfl
      · intro e con model control he hentry _
        exact he.giveUp (by simp [Endpoint.con, hentry])
      · intro e he hentry
        exact ⟨rfl, by simp, he.congr (by simp [Endpoint.con, hentry]) rfl rfl⟩
      · intro e model control he hentry
        exact ⟨by simp [Endpoint.con, hentry], by simp [hentry], he⟩
    exact hconnects.conseq (fun _ he => he.1) fun _ _ he => ⟨he, fun _ => trivial⟩
  updates call a path con model error _ _ := by
    refine Triple.bind (Q := fun _ e => Accounted e ∧ e.con = some con) ?_ fun _ => ?_
    · rintro e ⟨⟨he, -⟩, hcon⟩
      exact ⟨he.congr (e.con_withModel _) rfl rfl, by simpa using hcon⟩
    refine triple_ite (fun _ => ?_) fun _ e he => he.1
    rintro e ⟨he, hcon⟩
    exact he.giveUp hcon
  reports a cbRefs key tupl ref :=
    triple_registerForReporting (fun e he => he.1) fun e con d he _ => he.1
  controls call a path := by
    refine (triple_getControlObject fun e he => he.1).conseq (fun _ he => he) ?_
    rintro control _ ⟨e, ⟨he, -⟩, ⟨rfl, -⟩ | ⟨rfl, hcon⟩⟩
    · exact he
    · exact he.congr (e.con_addControl _ _) rfl rfl

/-- **No connection is leaked, and none is destroyed twice.** After every run of calls, with any
losses, exceptions and answers of the IEDs: for every IED, the connection in use and those destroyed
are the connections created, each exactly once. So all but one have been destroyed, and the one in
use has not. -/
theorem connections_accounted {urlparse : String → UriRef} {is : List (ClientCall × Answers V F)}
    {c : Client} (hexec : Run.exec (clientStep urlparse) Client.initial is = .ok c)
    (tupl : String) :
    (c.endpoint tupl).accounted.Perm (List.range (c.endpoint tupl).created) := by
  refine accounted_rules.of_exec urlparse ?_ hexec tupl
  intro t i t' _ tupl path _
  trivial

/-- A connection is lost, and another one made. -/
theorem connections_accounted_loss :
    ∃ c, Run.exec (clientStep parseHosts) Client.initial
        [(.readValue refA, losing), (.operate refA (.bool true), answering)] = .ok c ∧
      (c.endpoint "a:102").accounted.Perm (List.range (c.endpoint "a:102").created) := by
  have hstate : (afterGetIED parseHosts [(.readValue refA, losing),
      (.operate refA (.bool true), answering)] "a:102" answering).isSome = true := by
    decide +kernel
  obtain ⟨e, he⟩ := Option.isSome_iff_exists.mp hstate
  obtain ⟨c, hexec, -⟩ := afterGetIED_eq_some he
  exact ⟨c, hexec, connections_accounted hexec "a:102"⟩

end Tmee
