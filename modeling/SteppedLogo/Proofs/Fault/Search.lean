import Mathlib.Logic.Relation
import SteppedLogo.Proofs.Fault.Path

namespace SteppedLogo

namespace Faults

variable {fs : Faults} {id a b c d e : FaultId}

/-- One fault points at another one, as at its cause or as at its context. -/
def Links (fs : Faults) (a b : FaultId) : Prop :=
  ∃ f, fs.get? a = some f ∧ (f.cause = some b ∨ f.context = some b)

/-- All that hangs off a fault. -/
abbrev Behind (fs : Faults) : FaultId → FaultId → Prop := Relation.ReflTransGen fs.Links

/-- The search goes on from one fault, which is no deliberate stop, to another one. -/
def Goes (fs : Faults) (a b : FaultId) : Prop :=
  ∃ f, fs.get? a = some f ∧ f.kind ≠ .cancellation ∧ f.next? = some b

/-- All that the search comes to. -/
abbrev Visits (fs : Faults) : FaultId → FaultId → Prop := Relation.ReflTransGen fs.Goes

theorem Goes.links (h : fs.Goes a b) : fs.Links a b := by
  obtain ⟨f, hf, -, hnext⟩ := h
  refine ⟨f, hf, ?_⟩
  unfold Fault.next? at hnext
  cases hcause : f.cause with
  | none =>
    rw [hcause] at hnext
    exact .inr hnext
  | some cause =>
    rw [hcause] at hnext
    exact .inl hnext

theorem Goes.unique (hb : fs.Goes a b) (hc : fs.Goes a c) : b = c := by
  obtain ⟨f, hf, -, hnext⟩ := hb
  obtain ⟨g, hg, -, hnext'⟩ := hc
  rw [hf] at hg
  cases hg
  exact Option.some.inj (hnext.symm.trans hnext')

theorem Visits.behind (h : fs.Visits a b) : fs.Behind a b := by
  induction h with
  | refl => exact .refl
  | tail _ hgoes ih => exact ih.tail hgoes.links

/-- Where no link is followed the path has ended. -/
theorem Visits.eq_of_end {c : FaultId} (h : fs.Visits id c) (hend : ∀ b, ¬ fs.Goes id b) : c = id := by
  obtain rfl | ⟨b, hb, -⟩ := Relation.ReflTransGen.cases_head h
  · rfl
  · exact absurd hb (hend b)

theorem goes_iff : fs.Goes a b ↔ ¬ fs.IsStop a ∧ fs.leads? a = some b := by
  unfold Goes IsStop leads?
  cases fs.get? a with
  | none => simp
  | some f => simp

/-- The search comes to the faults on the path that have no deliberate stop in front of them. -/
theorem visits_iff : fs.Visits e c ↔ ∃ n, fs.along e n = some c ∧ fs.Unstopped e n := by
  constructor
  · intro h
    induction h with
    | refl => exact ⟨0, rfl, (follows_start fs e).unstopped⟩
    | tail _ hgoes ih =>
      obtain ⟨n, hn, hunstopped⟩ := ih
      obtain ⟨hplain, hleads⟩ := goes_iff.1 hgoes
      exact ⟨n + 1, by rw [along, hn, Option.bind_some, hleads], hunstopped.succ hn hplain⟩
  · rintro ⟨n, hn, hunstopped⟩
    induction n generalizing c with
    | zero =>
      cases hn
      exact .refl
    | succ n ih =>
      obtain ⟨b, hb, hleads⟩ := Option.bind_eq_some_iff.1 hn
      have hbefore : fs.Unstopped e n := fun k hk => hunstopped k (Nat.lt_succ_of_lt hk)
      exact (ih hb hbefore).tail (goes_iff.2 ⟨hunstopped n (Nat.lt_succ_self n) b hb, hleads⟩)

/-- The search finds the deliberate stop that is on its path. -/
theorem findCancellation_eq_some_iff : fs.findCancellation e = some c ↔ fs.Visits e c ∧ fs.IsStop c := by
  rw [(answers fs e).eq_some_iff, visits_iff, FirstStop]
  constructor
  · exact fun ⟨n, hn, hstop, hunstopped⟩ => ⟨⟨n, hn, hunstopped⟩, hstop⟩
  · exact fun ⟨⟨n, hn, hunstopped⟩, hstop⟩ => ⟨n, hn, hstop, hunstopped⟩

/-- The search finds nothing where no deliberate stop is on its path. -/
theorem findCancellation_eq_none_iff : fs.findCancellation e = none ↔ ∀ c, fs.Visits e c → ¬ fs.IsStop c := by
  rw [Option.eq_none_iff_forall_ne_some]
  refine forall_congr' fun c => ?_
  rw [Ne, findCancellation_eq_some_iff, not_and]

theorem findCancellation_cases (fs : Faults) (e : FaultId) :
    (∃ c, fs.findCancellation e = some c ∧ fs.Visits e c ∧ fs.IsStop c) ∨
      (fs.findCancellation e = none ∧ ∀ c, fs.Visits e c → ¬ fs.IsStop c) := by
  cases hfound : fs.findCancellation e with
  | none => exact .inr ⟨rfl, findCancellation_eq_none_iff.1 hfound⟩
  | some c => exact .inl ⟨c, rfl, findCancellation_eq_some_iff.1 hfound⟩

theorem get?_setCause (fs : Faults) (id : FaultId) (cause : Option FaultId) (c : FaultId) :
    (fs.setCause id cause).get? c = if id = c then (fs.get? c).map ({ · with cause }) else fs.get? c := by
  simp only [get?, setCause, modify, Array.getElem?_modify]

end Faults

end SteppedLogo
